import Mathlib.Data.List.Basic
import Mathlib.Data.List.Find

/-!
# Layers of named shapes

A scene is a list of shapes in the order they are drawn, each with a name. What is seen at a
position is the last shape drawn there (`topmost`), and what a search from the front finds is the
first (`found`). They are the same where no two shapes share a position
(`Disjoint.found_eq_topmost`); where such a layer lies under another one, they are the same unless
the upper layer hides something (`found_eq_topmost_iff`).
-/

namespace Layers

variable {S P N : Type*} {hit : S → P → Bool} {scene lower upper : List (S × N)} {pos : P}
  {r r' : S × N} {n m : N}

/-- The name of the first shape at `pos`. -/
def found (hit : S → P → Bool) (scene : List (S × N)) (pos : P) : Option N :=
  (scene.find? fun r ↦ hit r.1 pos).map Prod.snd

/-- The name of the last shape drawn at `pos`. -/
def topmost (hit : S → P → Bool) (scene : List (S × N)) (pos : P) : Option N :=
  found hit scene.reverse pos

/-- `n` is the name of the first shape at `pos`. -/
def FirstAt (hit : S → P → Bool) (scene : List (S × N)) (pos : P) (n : N) : Prop :=
  ∃ front s back, scene = front ++ (s, n) :: back ∧ hit s pos = true ∧
    ∀ r ∈ front, hit r.1 pos = false

/-- `n` is the name of the last shape at `pos`. -/
def LastAt (hit : S → P → Bool) (scene : List (S × N)) (pos : P) (n : N) : Prop :=
  ∃ front s back, scene = front ++ (s, n) :: back ∧ hit s pos = true ∧
    ∀ r ∈ back, hit r.1 pos = false

/-- No position belongs to two shapes. -/
def Disjoint (hit : S → P → Bool) (scene : List (S × N)) : Prop :=
  scene.Pairwise fun r r' ↦ ∀ pos, hit r.1 pos = true → hit r'.1 pos = false

theorem found_eq_some_iff : found hit scene pos = some n ↔ FirstAt hit scene pos n := by
  simp only [found, Option.map_eq_some_iff, List.find?_eq_some_iff_append]
  constructor
  · rintro ⟨⟨s, m⟩, ⟨hs, front, back, rfl, hfront⟩, rfl⟩
    exact ⟨front, s, back, rfl, hs, fun r hr ↦ by simpa using hfront r hr⟩
  · rintro ⟨front, s, back, rfl, hs, hfront⟩
    exact ⟨(s, n), ⟨hs, front, back, rfl, fun r hr ↦ by simp [hfront r hr]⟩, rfl⟩

theorem found_eq_none_iff : found hit scene pos = none ↔ ∀ r ∈ scene, hit r.1 pos = false := by
  simp [found]

theorem firstAt_reverse : FirstAt hit scene.reverse pos n ↔ LastAt hit scene pos n := by
  constructor
  · rintro ⟨front, s, back, h, hs, hfront⟩
    refine ⟨back.reverse, s, front.reverse, ?_, hs, fun r hr ↦ hfront r (List.mem_reverse.1 hr)⟩
    rw [← List.reverse_reverse scene, h]
    simp
  · rintro ⟨front, s, back, rfl, hs, hback⟩
    exact ⟨back.reverse, s, front.reverse, by simp, hs,
      fun r hr ↦ hback r (List.mem_reverse.1 hr)⟩

theorem topmost_eq_some_iff : topmost hit scene pos = some n ↔ LastAt hit scene pos n :=
  found_eq_some_iff.trans firstAt_reverse

theorem topmost_eq_none_iff :
    topmost hit scene pos = none ↔ ∀ r ∈ scene, hit r.1 pos = false := by
  simp [topmost, found_eq_none_iff]

theorem topmost_eq_none_iff_found : topmost hit scene pos = none ↔ found hit scene pos = none :=
  topmost_eq_none_iff.trans found_eq_none_iff.symm

theorem exists_topmost (h : found hit scene pos = some n) :
    ∃ m, topmost hit scene pos = some m := by
  rw [← Option.ne_none_iff_exists', Ne, topmost_eq_none_iff_found, h]
  exact Option.some_ne_none n

theorem exists_found (h : topmost hit scene pos = some n) :
    ∃ m, found hit scene pos = some m := by
  rw [← Option.ne_none_iff_exists', Ne, ← topmost_eq_none_iff_found, h]
  exact Option.some_ne_none n

theorem found_append :
    found hit (lower ++ upper) pos = (found hit lower pos).or (found hit upper pos) := by
  simp only [found, List.find?_append]
  cases lower.find? fun r ↦ hit r.1 pos <;> rfl

theorem topmost_append :
    topmost hit (lower ++ upper) pos = (topmost hit upper pos).or (topmost hit lower pos) := by
  rw [topmost, List.reverse_append, found_append]
  rfl

/-! ### A layer whose shapes share no position -/

/-- The only shape at a position is the first one there. -/
theorem Disjoint.name_eq (hd : Disjoint hit scene) (hn : FirstAt hit scene pos n)
    (hr : r ∈ scene) (hhit : hit r.1 pos = true) : r.2 = n := by
  obtain ⟨front, s, back, rfl, hs, hfront⟩ := hn
  rcases List.mem_append.1 hr with hr | hr
  · rw [hfront r hr] at hhit
    cases hhit
  rcases List.mem_cons.1 hr with rfl | hr
  · rfl
  · have hback := (List.pairwise_append.1 hd).2.1
    rw [List.rel_of_pairwise_cons hback hr pos hs] at hhit
    cases hhit

theorem Disjoint.found_eq_topmost (hd : Disjoint hit scene) (pos : P) :
    found hit scene pos = topmost hit scene pos := by
  cases hf : found hit scene pos with
  | none => exact (topmost_eq_none_iff_found.2 hf).symm
  | some n =>
    obtain ⟨m, hm⟩ := exists_topmost hf
    obtain ⟨front, s, back, hscene, hs, -⟩ := topmost_eq_some_iff.1 hm
    have hmn : m = n := hd.name_eq (found_eq_some_iff.1 hf)
      (r := (s, m)) (hscene ▸ List.mem_append_right _ (List.mem_cons_self ..)) hs
    rw [hm, hmn]

/-- Shapes in the places of a layout that lays no two places over each other. -/
theorem disjoint_mapIdx {A : Type*} {place : ℕ → S} {name : A → N}
    (h : ∀ i j pos, i < j → hit (place i) pos = true → hit (place j) pos = false) (l : List A) :
    Disjoint hit (l.mapIdx fun i a ↦ (place i, name a)) := by
  rw [Disjoint, List.pairwise_iff_getElem]
  intro i j hi hj hij pos hhit
  rw [List.getElem_mapIdx] at hhit ⊢
  exact h i j pos hij hhit

theorem foldl_eq_self {B : Type*} {f : B → N → B} (hnone : ∀ r ∈ scene, hit r.1 pos = false)
    (b : B) : scene.foldl (fun b r ↦ if hit r.1 pos then f b r.2 else b) b = b := by
  induction scene with
  | nil => rfl
  | cons r scene ih =>
    rw [List.foldl_cons, hnone r (List.mem_cons_self ..), if_neg (by decide)]
    exact ih fun r' hr' ↦ hnone r' (List.mem_cons_of_mem _ hr')

/-- Handling every shape at a position is handling the one that is found. -/
theorem Disjoint.foldl_eq {B : Type*} (f : B → N → B) (hd : Disjoint hit scene) (pos : P) (b : B) :
    scene.foldl (fun b r ↦ if hit r.1 pos then f b r.2 else b) b =
      (found hit scene pos).elim b (f b) := by
  induction scene with
  | nil => rfl
  | cons r scene ih =>
    rw [List.foldl_cons, found, List.find?_cons]
    cases hr : hit r.1 pos with
    | true =>
      rw [if_pos rfl]
      exact foldl_eq_self (fun r' hr' ↦ List.rel_of_pairwise_cons hd hr' pos hr) _
    | false =>
      rw [if_neg (by decide)]
      exact ih hd.of_cons

/-- **Of shapes that share no position some are not drawn.** At a position the same is found as if
all were drawn, exactly if no shape is left out there. -/
theorem Disjoint.found_filter_iff (hd : Disjoint hit scene) (p : S × N → Bool) (pos : P) :
    found hit (scene.filter p) pos = found hit scene pos ↔
      ∀ r ∈ scene, hit r.1 pos = true → p r = true := by
  constructor
  · intro hfound r hr hhit
    by_contra hp
    obtain ⟨front, back, rfl⟩ := List.append_of_mem hr
    obtain ⟨-, hback, hfront⟩ := List.pairwise_append.1 hd
    -- nothing else is at this position, so nothing is left there
    have hnone : found hit ((front ++ r :: back).filter p) pos = none := by
      refine found_eq_none_iff.2 fun r' hr' ↦ ?_
      obtain ⟨hmem, hp'⟩ := List.mem_filter.1 hr'
      rcases List.mem_append.1 hmem with hmem | hmem
      · refine eq_false_of_ne_true fun h ↦ ?_
        rw [hfront r' hmem r (List.mem_cons_self ..) pos h] at hhit
        cases hhit
      rcases List.mem_cons.1 hmem with rfl | hmem
      · exact absurd hp' hp
      · exact List.rel_of_pairwise_cons hback hmem pos hhit
    rw [hnone] at hfound
    rw [found_eq_none_iff.1 hfound.symm r hr] at hhit
    cases hhit
  · intro h
    rw [found, found, List.find?_filter]
    refine congrArg _ (List.find?_congr fun r hr ↦ ?_)
    cases hhit : hit r.1 pos with
    | false => exact decide_eq_false fun hand ↦ Bool.false_ne_true hand.2
    | true => exact decide_eq_true ⟨h r hr hhit, rfl⟩

/-! ### One layer over another -/

/-- **A search that begins with the lower layer finds what is seen** exactly if the shape of the
upper layer that is seen at the position has the name of the one below it or, where there is none,
of the first one of its own layer. -/
theorem found_eq_topmost_iff (hd : Disjoint hit lower) :
    found hit (lower ++ upper) pos = topmost hit (lower ++ upper) pos ↔
      ∀ n, LastAt hit upper pos n →
        (∀ r ∈ lower, hit r.1 pos = true → r.2 = n) ∧
          ((∀ r ∈ lower, hit r.1 pos = false) → ∀ m, FirstAt hit upper pos m → m = n) := by
  rw [found_append, topmost_append]
  cases ht : topmost hit upper pos with
  | none =>
    rw [topmost_eq_none_iff_found.1 ht, Option.or_none, Option.none_or, hd.found_eq_topmost]
    refine iff_of_true rfl fun n hn ↦ ?_
    rw [topmost_eq_some_iff.2 hn] at ht
    cases ht
  | some n =>
    rw [Option.some_or]
    have hlast : ∀ m, LastAt hit upper pos m → m = n := fun m hm ↦ by
      rw [topmost_eq_some_iff.2 hm] at ht
      exact Option.some.inj ht
    cases hu : found hit lower pos with
    | some a =>
      -- the lower layer answers, so its shape must have the name that is seen
      have ha := found_eq_some_iff.1 hu
      obtain ⟨front, s, back, hlower, hs, -⟩ := found_eq_some_iff.1 hu
      have hmem : (s, a) ∈ lower := hlower ▸ List.mem_append_right _ (List.mem_cons_self ..)
      rw [Option.some_or, Option.some_inj]
      constructor
      · rintro rfl m hm
        obtain rfl := hlast m hm
        refine ⟨fun r hr hhit ↦ hd.name_eq ha hr hhit, fun hnone ↦ ?_⟩
        rw [hnone _ hmem] at hs
        cases hs
      · intro h
        exact (h n (topmost_eq_some_iff.1 ht)).1 _ hmem hs
    | none =>
      have hnone := found_eq_none_iff.1 hu
      rw [Option.none_or]
      constructor
      · intro hf m hm
        obtain rfl := hlast m hm
        refine ⟨fun r hr hhit ↦ ?_, fun _ k hk ↦ ?_⟩
        · rw [hnone r hr] at hhit
          cases hhit
        · rw [found_eq_some_iff.2 hk] at hf
          exact Option.some.inj hf
      · intro h
        obtain ⟨k, hk⟩ := exists_found ht
        rw [hk, (h n (topmost_eq_some_iff.1 ht)).2 hnone k (found_eq_some_iff.1 hk)]

end Layers
