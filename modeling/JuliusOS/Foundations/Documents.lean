import JuliusOS.Foundations.JsonRoundTrip
import JuliusOS.Foundations.Machine
import Mathlib.Data.Fintype.Basic
import Mathlib.Logic.Function.Basic

/-!
# Programs that keep documents in files

A process runs several programs. Each of them has a document in a file of its own, which it loads
when the process starts and writes anew whenever it saves. A save may fail, or be cut off, and then
the process ends; it may also be killed. If a program cannot read its file, the process does not
start.

The one assumption is that a document is read back from its text and no part of the text is read
(`Codec.Keeps`). Then a process starts exactly if no file was cut off by the last save that opened
it, and every program loads the document of that save (`Inv.starts_iff`); and while the process
runs, every program is in the relation to its file that its steps preserve (`inv_of_run`).

`Json.listCodec_keeps`: a list of records that is dumped as JSON is such a document.
-/

/-! ### Documents -/

/-- How a document is written and read. -/
structure Codec (δ : Type*) where
  /-- Its text. -/
  write : δ → List Char
  /-- What is read from a text. -/
  read : List Char → Option δ

/-- The document is read back, and no part of its text is read. -/
structure Codec.Keeps {δ : Type*} (C : Codec δ) (d : δ) : Prop where
  /-- It is read back. -/
  read_write : C.read (C.write d) = some d
  /-- A part is not. -/
  read_take : ∀ n < (C.write d).length, C.read ((C.write d).take n) = none

namespace Json

variable {α : Type*}

/-- A list of records as an array. -/
def listCodec (toValue : α → Value) (ofValue : Value → Option α) : Codec (List α) where
  write l := (Value.array (l.map toValue)).dumps
  read text := (parse text).bind fun
    | .array items => items.mapM ofValue
    | _ => none

/-- What is converted is converted back, item by item. -/
theorem mapM_map_eq_some {β : Type*} {f : α → β} {g : β → Option α} {l : List α}
    (h : ∀ a ∈ l, g (f a) = some a) : (l.map f).mapM g = some l := by
  induction l with
  | nil => rfl
  | cons a l ih =>
    rw [List.forall_mem_cons] at h
    rw [List.map_cons, List.mapM_cons, h.1, ih h.2]
    rfl

/-- **A list of records** is read back, and no part of its text is. -/
theorem listCodec_keeps {toValue : α → Value} {ofValue : Value → Option α} {l : List α}
    (hclean : ∀ a ∈ l, (toValue a).Clean) (hread : ∀ a ∈ l, ofValue (toValue a) = some a) :
    (listCodec toValue ofValue).Keeps l := by
  have hitems : Value.Clean (.array (l.map toValue)) :=
    cleanItems_of_forall (List.forall_mem_map.2 hclean)
  refine ⟨?_, fun n hn ↦ ?_⟩
  · show (parse (Value.array (l.map toValue)).dumps).bind _ = _
    rw [parse_dumps hitems]
    exact mapM_map_eq_some hread
  · show (parse ((Value.array (l.map toValue)).dumps.take n)).bind _ = _
    rw [parse_take_dumps hitems (Or.inl ⟨_, rfl⟩) hn]
    rfl

end Json

/-! ### Programs -/

/-- A program with a document. -/
structure Program (σ ε δ : Type*) where
  /-- How the document is written and read. -/
  codec : Codec δ
  /-- The document where there is no file. -/
  default : δ
  /-- The program that has loaded a document. -/
  init : δ → σ
  /-- What an event makes of the program if its save succeeds, and whether it raises an
  exception. -/
  handle : σ → ε → σ × Bool
  /-- The document that is saved, if the event saves. -/
  saves : σ → ε → Option δ

/-- What the program is known to do: where the documents are `Good` that are saved, and the states
`I`, as long as the events are `E`. -/
structure Program.Sound {σ ε δ : Type*} (p : Program σ ε δ) (Good : δ → Prop) (I : σ → Prop)
    (E : ε → Prop) : Prop where
  keeps : ∀ d, Good d → p.codec.Keeps d
  default : Good p.default
  init : ∀ d, Good d → I (p.init d)
  handle : ∀ s e, I s → E e → I (p.handle s e).1
  saves : ∀ s e d, I s → E e → p.saves s e = some d → Good d

/-- How a program is related to its document. -/
structure Program.Follows {σ ε δ : Type*} (p : Program σ ε δ) (R : σ → δ → Prop) : Prop where
  init : ∀ d, R (p.init d) d
  handle : ∀ s e d, R s d → (p.handle s e).2 = false →
    R (p.handle s e).1 ((p.saves s e).getD d)

/-! ### Processes -/

/-- What comes of a save. -/
inductive Save
  /-- The file cannot be opened. -/
  | fails
  /-- So many characters reach the file. -/
  | cut (n : ℕ)
  | whole
deriving DecidableEq

variable {ι : Type*} {σ ε δ : ι → Type*}

/-- The files, and the programs of the process that runs. -/
structure Session (σ δ : ι → Type*) where
  /-- The contents of the files. -/
  files : ι → Option (List Char)
  /-- The programs, while the process runs. -/
  programs : Option ((i : ι) → σ i)
  /-- The document of the last save that opened the file, and how much of it was written. -/
  last : (i : ι) → Option (δ i × ℕ)

namespace Session

/-- Before the first start. -/
def init : Session σ δ := ⟨fun _ ↦ none, none, fun _ ↦ none⟩

/-- What happens to the process. -/
inductive Label (ε : ι → Type*)
  | start
  /-- A program is given an event; what comes of the save, if there is one. -/
  | input (i : ι) (e : ε i) (save : Save)
  | kill

variable (P : (i : ι) → Program (σ i) (ε i) (δ i)) (s : Session σ δ)

/-- What a program loads. -/
def load (i : ι) : Option (δ i) := (s.files i).elim (some (P i).default) (P i).codec.read

/-- Every program can load its document. -/
def Starts : Prop := ∀ i, (s.load P i).isSome

instance [Fintype ι] : Decidable (s.Starts P) := inferInstanceAs (Decidable (∀ _, _))

/-- The process is started. -/
def start [Fintype ι] : Session σ δ :=
  if h : s.Starts P then { s with programs := some fun i ↦ (P i).init ((s.load P i).get (h i)) }
  else s

variable [DecidableEq ι]

/-- A document is written. -/
def write (i : ι) (d : δ i) (n : ℕ) : Session σ δ :=
  { s with
    files := Function.update s.files i (some (((P i).codec.write d).take n))
    last := Function.update s.last i (some (d, n)) }

/-- A document is saved. A save that does not succeed raises an exception, which ends the
process. -/
def save (a : (i : ι) → σ i) (i : ι) (d : δ i) : Save → Session σ δ
  | .fails => { s with programs := none }
  | .cut n => { s.write P i d n with programs := none }
  | .whole => { s.write P i d ((P i).codec.write d).length with programs := some a }

/-- A program is given an event. -/
def input (i : ι) (e : ε i) (save : Save) : Option (Session σ δ) :=
  s.programs.map fun a ↦
    let a' := Function.update a i ((P i).handle (a i) e).1
    if ((P i).handle (a i) e).2 then { s with programs := none }
    else
      match (P i).saves (a i) e with
      | none => { s with programs := some a' }
      | some d => s.save P a' i d save

/-- A step. -/
def step [Fintype ι] : Label ε → Option (Session σ δ)
  | .start => if s.programs.isNone then some (s.start P) else none
  | .input i e save => s.input P i e save
  | .kill => some { s with programs := none }

/-- The process as a machine. -/
def machine [Fintype ι] : Machine (Session σ δ) (Label ε) where
  Init s := s = init
  step s := s.step P

/-! ### What is in the files -/

/-- The document of a program. -/
def doc (i : ι) : δ i := (s.last i).elim (P i).default Prod.fst

/-- The last save that opened the file has written all of it. -/
def Whole (i : ι) : Prop := ∀ x, s.last i = some x → ((P i).codec.write x.1).length ≤ x.2

/-- What holds in every state. -/
structure Inv (Good : (i : ι) → δ i → Prop) (I : (i : ι) → σ i → Prop)
    (R : (i : ι) → σ i → δ i → Prop) : Prop where
  /-- A file holds what the last save has written. -/
  file : ∀ i, s.files i = (s.last i).map fun x ↦ ((P i).codec.write x.1).take x.2
  /-- It was a good document. -/
  good : ∀ i x, s.last i = some x → Good i x.1
  /-- While the process runs, the files are whole, and the programs are related to them. -/
  running : ∀ a, s.programs = some a → ∀ i, s.Whole P i ∧ I i (a i) ∧ R i (a i) (s.doc P i)

theorem last_write_self (i : ι) (d : δ i) (n : ℕ) : (s.write P i d n).last i = some (d, n) :=
  Function.update_self ..

theorem last_write_of_ne {i j : ι} (h : j ≠ i) (d : δ i) (n : ℕ) :
    (s.write P i d n).last j = s.last j := Function.update_of_ne h ..

theorem files_write_self (i : ι) (d : δ i) (n : ℕ) :
    (s.write P i d n).files i = some (((P i).codec.write d).take n) := Function.update_self ..

theorem files_write_of_ne {i j : ι} (h : j ≠ i) (d : δ i) (n : ℕ) :
    (s.write P i d n).files j = s.files j := Function.update_of_ne h ..

variable {P s} {Good : (i : ι) → δ i → Prop} {I : (i : ι) → σ i → Prop}
  {R : (i : ι) → σ i → δ i → Prop} {E : (i : ι) → ε i → Prop}

omit [DecidableEq ι] in
theorem inv_init : (init : Session σ δ).Inv P Good I R where
  file _ := rfl
  good _ _ hx := by cases hx
  running _ ha := by cases ha

section

variable (hsound : ∀ i, (P i).Sound (Good i) (I i) (E i)) (hfollows : ∀ i, (P i).Follows (R i))
include hsound

omit [DecidableEq ι] in
theorem Inv.good_doc (h : s.Inv P Good I R) (i : ι) : Good i (s.doc P i) := by
  rw [doc]
  cases hlast : s.last i with
  | none => exact (hsound i).default
  | some x => exact h.good i x hlast

omit [DecidableEq ι] in
/-- **A file that is whole** is loaded. -/
theorem Inv.load_of_whole (h : s.Inv P Good I R) {i : ι} (hwhole : s.Whole P i) :
    s.load P i = some (s.doc P i) := by
  rw [load, h.file, doc]
  cases hlast : s.last i with
  | none => rfl
  | some x =>
    show (P i).codec.read (((P i).codec.write x.1).take x.2) = some x.1
    rw [List.take_of_length_le (hwhole x hlast)]
    exact ((hsound i).keeps x.1 (h.good i x hlast)).read_write

omit [DecidableEq ι] in
/-- **A file that was cut off** is not. -/
theorem Inv.load_of_not_whole (h : s.Inv P Good I R) {i : ι} (hcut : ¬ s.Whole P i) :
    s.load P i = none := by
  rw [Whole, not_forall] at hcut
  obtain ⟨x, hcut⟩ := hcut
  obtain ⟨hlast, hlt⟩ := Classical.not_imp.1 hcut
  rw [load, h.file, hlast]
  exact ((hsound i).keeps x.1 (h.good i x hlast)).read_take x.2 (Nat.lt_of_not_le hlt)

omit [DecidableEq ι] in
/-- **A process starts** exactly if no file was cut off. -/
theorem Inv.starts_iff (h : s.Inv P Good I R) : s.Starts P ↔ ∀ i, s.Whole P i := by
  refine forall_congr' fun i ↦ ⟨fun hload ↦ ?_, fun hwhole ↦ ?_⟩
  · by_contra hcut
    rw [h.load_of_not_whole hsound hcut] at hload
    cases hload
  · rw [h.load_of_whole hsound hwhole]
    rfl

omit hsound in
/-- A document is written, whatever becomes of the process. -/
theorem Inv.write (h : s.Inv P Good I R) {i : ι} {d : δ i} (hd : Good i d) (n : ℕ)
    {a : Option ((i : ι) → σ i)}
    (ha : ∀ a', a = some a' → ∀ j, (s.write P i d n).Whole P j ∧ I j (a' j) ∧
      R j (a' j) ((s.write P i d n).doc P j)) :
    ({ s.write P i d n with programs := a } : Session σ δ).Inv P Good I R := by
  refine ⟨fun j ↦ ?_, fun j x hx ↦ ?_, ha⟩
  · show (s.write P i d n).files j = ((s.write P i d n).last j).map _
    rcases eq_or_ne j i with rfl | hne
    · rw [files_write_self, last_write_self]
      rfl
    · rw [files_write_of_ne P s hne, last_write_of_ne P s hne]
      exact h.file j
  · change (s.write P i d n).last j = some x at hx
    rcases eq_or_ne j i with rfl | hne
    · rw [last_write_self] at hx
      obtain rfl := Option.some.inj hx
      exact hd
    · rw [last_write_of_ne P s hne] at hx
      exact h.good j x hx

omit hsound [DecidableEq ι] in
/-- The process ends. -/
theorem Inv.kill (h : s.Inv P Good I R) :
    ({ s with programs := none } : Session σ δ).Inv P Good I R :=
  ⟨h.file, h.good, fun _ ha ↦ by cases ha⟩

omit hsound [DecidableEq ι] in
theorem Inv.programs_eq_none (h : s.Inv P Good I R) {i : ι} (hcut : ¬ s.Whole P i) :
    s.programs = none := by
  cases hprograms : s.programs with
  | none => rfl
  | some a => exact absurd (h.running a hprograms i).1 hcut

/-- Where a file was cut off, no step changes anything. -/
theorem Inv.step_of_cut [Fintype ι] (h : s.Inv P Good I R) {i : ι} (hcut : ¬ s.Whole P i)
    {l : Label ε} {s' : Session σ δ} (hstep : s.step P l = some s') : s' = s := by
  have hnone := h.programs_eq_none hcut
  cases l with
  | start =>
    rw [Session.step, hnone, Option.isNone_none, if_pos rfl, Session.start,
      dif_neg fun hstarts ↦ hcut ((h.starts_iff hsound).1 hstarts i)] at hstep
    exact (Option.some.inj hstep).symm
  | input j e save =>
    obtain ⟨a, ha, -⟩ := Option.map_eq_some_iff.1 hstep
    cases hnone.symm.trans ha
  | kill =>
    obtain rfl := Option.some.inj hstep
    obtain ⟨files, programs, last⟩ := s
    obtain rfl : programs = none := hnone
    rfl

/-- **A file that was cut off** stays as it is, and the process is not started again. -/
theorem Inv.run_of_cut [Fintype ι] (h : s.Inv P Good I R) {i : ι} (hcut : ¬ s.Whole P i)
    {ls : List (Label ε)} {s' : Session σ δ} (hrun : (machine P).run s ls = some s') :
    s' = s := by
  refine Machine.invariant_of_run (I := fun t ↦ t = s) (fun t l t' ht hstep ↦ ?_) rfl hrun
  rw [ht] at hstep
  exact h.step_of_cut hsound hcut hstep

omit [DecidableEq ι] in
/-- A start with files that are whole. -/
theorem Inv.start_of_whole [Fintype ι] (h : s.Inv P Good I R) (hwhole : ∀ i, s.Whole P i) :
    s.start P = { s with programs := some fun i ↦ (P i).init (s.doc P i) } := by
  have hload (i : ι) : s.load P i = some (s.doc P i) := h.load_of_whole hsound (hwhole i)
  have hinit : (fun i ↦ (P i).init ((s.load P i).get ((h.starts_iff hsound).2 hwhole i))) =
      fun i ↦ (P i).init (s.doc P i) :=
    funext fun i ↦ congrArg _ (Option.get_of_eq_some _ (hload i))
  rw [Session.start, dif_pos ((h.starts_iff hsound).2 hwhole), hinit]

/-- **A process that runs**, and is killed and started again, loads all its documents. -/
theorem Inv.restart [Fintype ι] (h : s.Inv P Good I R) {a : (i : ι) → σ i}
    (ha : s.programs = some a) : (machine P).run s [.kill, .start] =
      some { s with programs := some fun i ↦ (P i).init (s.doc P i) } := by
  have hwhole (i : ι) : s.Whole P i := (h.running a ha i).1
  have hkill : ({ s with programs := none } : Session σ δ).Inv P Good I R := h.kill
  show some (({ s with programs := none } : Session σ δ).start P) = _
  rw [hkill.start_of_whole hsound hwhole]
  rfl

include hfollows

omit [DecidableEq ι] in
/-- A start. -/
theorem Inv.start [Fintype ι] (h : s.Inv P Good I R) : (s.start P).Inv P Good I R := by
  by_cases hwhole : ∀ i, s.Whole P i
  · rw [h.start_of_whole hsound hwhole]
    refine ⟨h.file, h.good, fun a ha i ↦ ?_⟩
    obtain rfl := Option.some.inj ha
    exact ⟨hwhole i, (hsound i).init _ (h.good_doc hsound i), (hfollows i).init _⟩
  · rw [Session.start, dif_neg fun hstarts ↦ hwhole ((h.starts_iff hsound).1 hstarts)]
    exact h

/-- An event. -/
theorem Inv.input (h : s.Inv P Good I R) {i : ι} {e : ε i} (he : E i e) {save : Save}
    {s' : Session σ δ} (hstep : s.input P i e save = some s') : s'.Inv P Good I R := by
  obtain ⟨a, ha, rfl⟩ := Option.map_eq_some_iff.1 hstep
  have hall := h.running a ha
  obtain ⟨-, hI, hR⟩ := hall i
  set p' := ((P i).handle (a i) e).1 with hp'
  have hI' : I i p' := (hsound i).handle _ e hI he
  dsimp only
  split
  · exact h.kill
  next hraised =>
    rw [Bool.not_eq_true] at hraised
    have hR' := (hfollows i).handle _ e (s.doc P i) hR hraised
    -- the other programs, and what they are related to, are the same
    have hother (j : ι) (hne : j ≠ i) (t : Session σ δ) (hlast : t.last j = s.last j) :
        t.Whole P j ∧ I j (Function.update a i p' j) ∧
          R j (Function.update a i p' j) (t.doc P j) := by
      rw [Function.update_of_ne hne, Whole, doc, hlast]
      exact hall j
    split
    next hsaves =>
      rw [hsaves, Option.getD_none] at hR'
      refine ⟨h.file, h.good, fun a' ha' j ↦ ?_⟩
      obtain rfl := Option.some.inj ha'
      rcases eq_or_ne j i with rfl | hne
      · rw [Function.update_self]
        exact ⟨(hall j).1, hI', hR'⟩
      · exact hother j hne s rfl
    next d hsaves =>
      rw [hsaves, Option.getD_some] at hR'
      have hd := (hsound i).saves _ e d hI he hsaves
      cases save with
      | fails => exact h.kill
      | cut n => exact h.write hd n fun _ ha' ↦ by cases ha'
      | whole =>
        refine h.write hd _ fun a' ha' j ↦ ?_
        obtain rfl := Option.some.inj ha'
        rcases eq_or_ne j i with rfl | hne
        · have hlast := s.last_write_self P j d ((P j).codec.write d).length
          rw [Function.update_self, Whole, doc, hlast]
          refine ⟨fun x hx ↦ ?_, hI', hR'⟩
          obtain rfl := Option.some.inj hx
          exact Nat.le_refl _
        · exact hother j hne _ (s.last_write_of_ne P hne d _)

/-- **The step lemma.** -/
theorem Inv.step [Fintype ι] (h : s.Inv P Good I R) {l : Label ε}
    (hl : ∀ i e save, l = .input i e save → E i e) {s' : Session σ δ}
    (hstep : s.step P l = some s') : s'.Inv P Good I R := by
  cases l with
  | start =>
    rw [Session.step] at hstep
    split at hstep
    · obtain rfl := Option.some.inj hstep
      exact h.start hsound hfollows
    · cases hstep
  | input i e save => exact h.input hsound hfollows (hl i e save rfl) hstep
  | kill =>
    obtain rfl := Option.some.inj hstep
    exact h.kill

/-- **The run lemma.** -/
theorem inv_of_run [Fintype ι] {ls : List (Label ε)}
    (hls : ∀ l ∈ ls, ∀ i e save, l = .input i e save → E i e)
    (hrun : (machine P).run init ls = some s) : s.Inv P Good I R :=
  Machine.invariant_of_forall (I := fun s ↦ s.Inv P Good I R)
    (fun _ _ _ h hl hstep ↦ h.step hsound hfollows hl hstep) inv_init hls hrun

end

end Session
