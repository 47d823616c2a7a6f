import Mathlib.Data.List.Basic

/-!
# Rows of a filtered list

A list is shown through a filter, and row `k` of what is shown is the element at `places[k]` of the
list (`exists_split`). An element that is removed by value is the first that is equal to it, so this
removes the right place exactly if everything from there on up to it is equal to it
(`erase_eq_eraseIdx_iff`).
-/

namespace FilteredList

variable {α : Type*} {p : α → Bool} {l : List α} {a : α} {k i : ℕ}

/-- The places of the elements that are shown. -/
def places (p : α → Bool) (l : List α) : List ℕ := (l.zipIdx.filter fun r ↦ p r.1).map Prod.snd

theorem filter_zipIdx_cons (x : α) (l : List α) (n : ℕ) :
    ((x :: l).zipIdx n).filter (fun r ↦ p r.1) =
      if p x then (x, n) :: (l.zipIdx (n + 1)).filter (fun r ↦ p r.1)
      else (l.zipIdx (n + 1)).filter (fun r ↦ p r.1) := by
  rw [List.zipIdx_cons, List.filter_cons]

theorem length_filter_zipIdx (l : List α) (n : ℕ) :
    ((l.zipIdx n).filter fun r ↦ p r.1).length = (l.filter p).length := by
  induction l generalizing n with
  | nil => rfl
  | cons x l ih =>
    rw [filter_zipIdx_cons, List.filter_cons]
    split
    · rw [List.length_cons, List.length_cons, ih]
    · exact ih (n + 1)

theorem length_places (p : α → Bool) (l : List α) :
    (places p l).length = (l.filter p).length := by
  rw [places, List.length_map, length_filter_zipIdx]

theorem exists_split_from (n : ℕ) (h : ((l.zipIdx n).filter fun r ↦ p r.1)[k]? = some (a, i)) :
    ∃ pre post, l = pre ++ a :: post ∧ n + pre.length = i ∧ (pre.filter p).length = k ∧
      p a = true := by
  induction l generalizing n k with
  | nil => cases h
  | cons x l ih =>
    rw [filter_zipIdx_cons] at h
    cases hx : p x with
    | false =>
      rw [hx, if_neg Bool.false_ne_true] at h
      obtain ⟨pre, post, rfl, hi, hk, ha⟩ := ih (n + 1) h
      refine ⟨x :: pre, post, rfl, ?_, ?_, ha⟩
      · rw [List.length_cons]
        omega
      · rw [List.filter_cons, hx]
        exact hk
    | true =>
      rw [hx, if_pos rfl] at h
      cases k with
      | zero =>
        obtain ⟨rfl, rfl⟩ := Prod.mk.inj (Option.some.inj h)
        exact ⟨[], l, rfl, rfl, rfl, hx⟩
      | succ k =>
        obtain ⟨pre, post, rfl, hi, hk, ha⟩ := ih (n + 1) h
        refine ⟨x :: pre, post, rfl, ?_, ?_, ha⟩
        · rw [List.length_cons]
          omega
        · rw [List.filter_cons, hx, if_pos rfl, List.length_cons, hk]

/-- **Where row `k` is**: in front of it are the elements of the rows above, and others that are not
shown. -/
theorem exists_split (h : (places p l)[k]? = some i) :
    ∃ pre a post, l = pre ++ a :: post ∧ pre.length = i ∧ (pre.filter p).length = k ∧
      p a = true := by
  rw [places, List.getElem?_map] at h
  obtain ⟨⟨a, j⟩, hrow, rfl⟩ := Option.map_eq_some_iff.1 h
  obtain ⟨pre, post, hl, hi, hk, ha⟩ := exists_split_from 0 hrow
  exact ⟨pre, a, post, hl, by rw [← hi, Nat.zero_add], hk, ha⟩

/-- Every row has a place. -/
theorem exists_place (h : k < (l.filter p).length) : ∃ i, (places p l)[k]? = some i := by
  rw [← length_places] at h
  exact ⟨_, List.getElem?_eq_getElem h⟩

/-! ### Removal by value -/

/-- Two places whose removal comes to the same: everything between them is equal. -/
theorem eraseIdx_eq_eraseIdx_iff {j : ℕ} (hji : j ≤ i) (hi : l[i]? = some a) :
    l.eraseIdx j = l.eraseIdx i ↔ ∀ k, j ≤ k → k ≤ i → l[k]? = some a := by
  constructor
  · intro h k hjk hki
    -- from `i` downwards
    induction hd : i - k generalizing k with
    | zero =>
      obtain rfl : k = i := by omega
      exact hi
    | succ d ih =>
      have hnext : l[k + 1]? = some a := ih (k + 1) (by omega) (by omega) (by omega)
      have hk := congrArg (·[k]?) h
      simp only [List.getElem?_eraseIdx] at hk
      rw [if_neg (by omega), if_pos (by omega)] at hk
      rw [← hk, hnext]
  · intro hall
    refine List.ext_getElem? fun k ↦ ?_
    rw [List.getElem?_eraseIdx, List.getElem?_eraseIdx]
    by_cases hkj : k < j
    · rw [if_pos hkj, if_pos (Nat.lt_of_lt_of_le hkj hji)]
    · rw [if_neg hkj]
      by_cases hki : k < i
      · rw [if_pos hki, hall k (by omega) (by omega), hall (k + 1) (by omega) (by omega)]
      · rw [if_neg hki]

/-- **When removing an element by value removes the one at `i`.** -/
theorem erase_eq_eraseIdx_iff [DecidableEq α] (h : l[i]? = some a) :
    l.erase a = l.eraseIdx i ↔ ∀ k, l.idxOf a ≤ k → k ≤ i → l[k]? = some a := by
  have hle : l.idxOf a ≤ i := by
    obtain ⟨hi, rfl⟩ := List.getElem?_eq_some_iff.1 h
    by_contra hlt
    have hfirst := List.not_of_lt_findIdx (p := (· == l[i])) (Nat.lt_of_not_le hlt)
    exact Bool.false_ne_true (hfirst.symm.trans (beq_self_eq_true l[i]))
  rw [← List.eraseIdx_idxOf_eq_erase, eraseIdx_eq_eraseIdx_iff hle h]

end FilteredList
