import Mathlib.Data.List.Basic
import Mathlib.Data.List.Chain
import Mathlib.Order.Lattice

/-!
# Greedy line wrapping

A list of words is put into lines, word by word: a word is added to the line that is being filled,
after a separator, unless the line would be wider than allowed; then it starts a line of its own.
What a text measures is any function of it.

* `wrap` is the loop, on the texts of the lines;
* `Greedy` says of words in groups, one group a line, that none is empty, that only a line of one
  word may be too wide, and that no line has room for the first word of the next one;
* `exists_groups`: the loop leaves the lines of greedy groups, which are the words in order.
-/

namespace Wrapping

variable {α κ : Type*} [LinearOrder κ] (width : List α → κ) (max : κ) (sep : α)

/-- The text of a line. -/
def line (ws : List (List α)) : List α := [sep].intercalate ws

/-- One word: the lines that are done, and the one that is being filled. -/
def fill (s : List (List α) × List α) (word : List α) : List (List α) × List α :=
  if max < width (s.2 ++ (if s.2.isEmpty then [] else [sep]) ++ word) then
    (if s.2.isEmpty then s.1 else s.1 ++ [s.2], word)
  else (s.1, s.2 ++ (if s.2.isEmpty then [] else [sep]) ++ word)

/-- The line that is being filled, at the end. -/
def finish (s : List (List α) × List α) : List (List α) :=
  if s.2.isEmpty then s.1 else s.1 ++ [s.2]

/-- The lines. -/
def wrap (words : List (List α)) : List (List α) :=
  finish (words.foldl (fill width max sep) ([], []))

/-- Words in groups, one for each line. -/
structure Greedy (groups : List (List (List α))) : Prop where
  ne_nil : ∀ g ∈ groups, g ≠ []
  fits : ∀ g ∈ groups, 1 < g.length → width (line sep g) ≤ max
  /-- No line has room for the first word of the next. -/
  full : groups.IsChain fun g g' ↦ ∀ w ∈ g'.head?, max < width (line sep (g ++ [w]))

variable {width max sep} {w : List α} {g ws : List (List α)} {groups : List (List (List α))}

/-! ### Lines -/

@[simp] theorem line_singleton : line sep [w] = w := List.intercalate_singleton

theorem line_cons (hws : ws ≠ []) : line sep (w :: ws) = w ++ sep :: line sep ws := by
  rw [line, List.intercalate_cons_of_ne_nil hws, List.append_assoc, List.singleton_append, line]

theorem line_append {vs : List (List α)} (hvs : vs ≠ []) (hws : ws ≠ []) :
    line sep (vs ++ ws) = line sep vs ++ sep :: line sep ws := by
  induction vs with
  | nil => exact absurd rfl hvs
  | cons v vs ih =>
    cases vs with
    | nil => rw [List.singleton_append, line_cons hws, line_singleton]
    | cons u us =>
      have hne : u :: us ≠ [] := List.cons_ne_nil u us
      rw [List.cons_append, line_cons (List.append_ne_nil_of_left_ne_nil hne ws), ih hne,
        line_cons hne, List.append_assoc, List.cons_append]

/-- A word at the end of a line. -/
theorem line_concat (hws : ws ≠ []) (w : List α) :
    line sep (ws ++ [w]) = line sep ws ++ [sep] ++ w := by
  rw [line_append hws (List.cons_ne_nil w []), line_singleton, List.append_assoc,
    List.singleton_append]

theorem line_ne_nil (hws : ws ≠ []) (hne : ∀ w ∈ ws, w ≠ []) : line sep ws ≠ [] := by
  cases ws with
  | nil => exact absurd rfl hws
  | cons v vs =>
    have hv := hne v (List.mem_cons_self ..)
    cases vs with
    | nil => rwa [line_singleton]
    | cons u us =>
      rw [line_cons (List.cons_ne_nil _ _)]
      exact List.append_ne_nil_of_left_ne_nil hv _

/-- Lines with separators between them are the line of all their words. -/
theorem line_map_line (hne : ∀ g ∈ groups, g ≠ []) :
    line sep (groups.map (line sep)) = line sep groups.flatten := by
  induction groups with
  | nil => rfl
  | cons g gs ih =>
    obtain ⟨hg, hgs⟩ := List.forall_mem_cons.1 hne
    cases gs with
    | nil => simp
    | cons g' gs' =>
      have hflat : (g' :: gs').flatten ≠ [] := by
        rw [List.flatten_cons]
        exact List.append_ne_nil_of_left_ne_nil (hgs g' (List.mem_cons_self ..)) _
      have hmap : (g' :: gs').map (line sep) ≠ [] := List.cons_ne_nil _ _
      rw [List.map_cons, line_cons hmap, ih hgs]
      exact (line_append hg hflat).symm

/-! ### One word more -/

/-- The word fits. -/
theorem Greedy.extend (h : Greedy width max sep (groups ++ [g]))
    (hw : width (line sep (g ++ [w])) ≤ max) : Greedy width max sep (groups ++ [g ++ [w]]) := by
  have hg : g ≠ [] := h.ne_nil g (by simp)
  refine ⟨fun g' hg' ↦ ?_, fun g' hg' hlen ↦ ?_, ?_⟩
  · rcases List.mem_append.1 hg' with hg' | hg'
    · exact h.ne_nil g' (List.mem_append_left _ hg')
    · rw [List.mem_singleton.1 hg']
      exact List.append_ne_nil_of_left_ne_nil hg _
  · rcases List.mem_append.1 hg' with hg' | hg'
    · exact h.fits g' (List.mem_append_left _ hg') hlen
    · rwa [List.mem_singleton.1 hg']
  · obtain ⟨hgroups, -, hlast⟩ := List.isChain_append.1 h.full
    refine List.isChain_append.2 ⟨hgroups, .singleton _, fun g' hg' g'' hg'' ↦ ?_⟩
    rw [List.head?_cons, Option.mem_some_iff] at hg''
    rw [← hg'', List.head?_append_of_ne_nil _ hg]
    exact hlast g' hg' g (List.head?_cons ..)

/-- The word does not fit. -/
theorem Greedy.start (h : Greedy width max sep (groups ++ [g]))
    (hw : max < width (line sep (g ++ [w]))) : Greedy width max sep (groups ++ [g] ++ [[w]]) := by
  refine ⟨fun g' hg' ↦ ?_, fun g' hg' hlen ↦ ?_, ?_⟩
  · rcases List.mem_append.1 hg' with hg' | hg'
    · exact h.ne_nil g' hg'
    · rw [List.mem_singleton.1 hg']
      exact List.cons_ne_nil _ _
  · rcases List.mem_append.1 hg' with hg' | hg'
    · exact h.fits g' hg' hlen
    · rw [List.mem_singleton.1 hg'] at hlen
      exact absurd hlen (lt_irrefl 1)
  · refine List.isChain_append.2 ⟨h.full, .singleton _, fun g' hg' g'' hg'' ↦ ?_⟩
    rw [List.getLast?_append, List.getLast?_singleton] at hg'
    rw [List.head?_cons, Option.mem_some_iff] at hg''
    rw [← hg'', List.head?_cons]
    intro w' hw'
    rw [← Option.mem_some_iff.1 hw', ← Option.mem_some_iff.1 hg']
    exact hw

theorem Greedy.first (w : List α) : Greedy width max sep [[w]] := by
  refine ⟨fun g hg ↦ ?_, fun g hg hlen ↦ ?_, .singleton _⟩
  · rw [List.mem_singleton.1 hg]
    exact List.cons_ne_nil _ _
  · rw [List.mem_singleton.1 hg] at hlen
    exact absurd hlen (lt_irrefl 1)

/-! ### The loop -/

/-- The text of a line with a word more, as the loop makes it. -/
theorem line_fill (hne : ∀ w ∈ ws, w ≠ []) (w : List α) :
    line sep ws ++ (if (line sep ws).isEmpty then [] else [sep]) ++ w = line sep (ws ++ [w]) := by
  cases ws with
  | nil => exact line_singleton.symm
  | cons v vs =>
    have hline : line sep (v :: vs) ≠ [] := line_ne_nil (List.cons_ne_nil v vs) hne
    rw [List.isEmpty_eq_false_iff.2 hline, line_concat (List.cons_ne_nil v vs)]
    rfl

/-- What the loop leaves of the words it has seen. -/
def Filled (width : List α → κ) (max : κ) (sep : α) (words : List (List α))
    (s : List (List α) × List α) : Prop :=
  words = [] ∧ s = ([], []) ∨
    ∃ groups g, Greedy width max sep (groups ++ [g]) ∧ (groups ++ [g]).flatten = words ∧
      s = (groups.map (line sep), line sep g)

/-- **One word more.** -/
theorem Filled.fill {words : List (List α)} {s : List (List α) × List α}
    (h : Filled width max sep words s) (hne : ∀ w ∈ words, w ≠ []) (w : List α) :
    Filled width max sep (words ++ [w]) (fill width max sep s w) := by
  rcases h with ⟨rfl, rfl⟩ | ⟨groups, g, hgreedy, rfl, rfl⟩
  · have hs : Wrapping.fill width max sep ([], []) w = ([], w) := by
      show (if max < width w then ([], w) else ([], w)) = ([], w)
      exact ite_self _
    exact Or.inr ⟨[], [w], .first w, rfl, by rw [hs, line_singleton]; rfl⟩
  · have hg : g ≠ [] := hgreedy.ne_nil g (by simp)
    have hwords : ∀ v ∈ g, v ≠ [] := fun v hv ↦ hne v (by simp [hv])
    have hline : (line sep g).isEmpty = false :=
      List.isEmpty_eq_false_iff.2 (line_ne_nil hg hwords)
    have hflat : (groups ++ [g ++ [w]]).flatten = (groups ++ [g]).flatten ++ [w] := by simp
    rw [Wrapping.fill, line_fill hwords, hline]
    split
    next hw => exact Or.inr ⟨groups ++ [g], [w], hgreedy.start hw, by simp, by simp⟩
    next hw => exact Or.inr ⟨groups, g ++ [w], hgreedy.extend (not_lt.1 hw), hflat, rfl⟩

theorem filled_foldl {words : List (List α)} (hne : ∀ w ∈ words, w ≠ []) :
    Filled width max sep words (words.foldl (fill width max sep) ([], [])) := by
  induction words using List.reverseRecOn with
  | nil => exact Or.inl ⟨rfl, rfl⟩
  | append_singleton words w ih =>
    have hwords : ∀ v ∈ words, v ≠ [] := fun v hv ↦ hne v (List.mem_append_left _ hv)
    rw [List.foldl_append, List.foldl_cons, List.foldl_nil]
    exact (ih hwords).fill hwords w

/-- **The lines that the loop leaves** are those of greedy groups of the words. -/
theorem exists_groups {words : List (List α)} (hne : ∀ w ∈ words, w ≠ []) :
    ∃ groups, Greedy width max sep groups ∧ groups.flatten = words ∧
      wrap width max sep words = groups.map (line sep) := by
  rw [wrap]
  have hfilled : Filled width max sep words (words.foldl (fill width max sep) ([], [])) :=
    filled_foldl hne
  rcases hfilled with ⟨rfl, hs⟩ | ⟨groups, g, hgreedy, hflat, hs⟩
  · exact ⟨[], ⟨List.forall_mem_nil _, List.forall_mem_nil _, .nil⟩, rfl, rfl⟩
  · have hg : g ≠ [] := hgreedy.ne_nil g (by simp)
    have hwords : ∀ v ∈ g, v ≠ [] := fun v hv ↦ hne v (by rw [← hflat]; simp [hv])
    have hline : (line sep g).isEmpty = false :=
      List.isEmpty_eq_false_iff.2 (line_ne_nil hg hwords)
    refine ⟨groups ++ [g], hgreedy, hflat, ?_⟩
    rw [hs, finish, hline, List.map_append, List.map_singleton]
    rfl

end Wrapping
