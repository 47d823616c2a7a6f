import Mathlib.Data.List.Nodup

/-!
# Positions in a list that was copied

A list is copied, and goes on changing: elements are added at its end, and some are removed at
positions that come from the copy. `Tracks old new gone` says what this leaves of the positions of
the copy: those below all that were removed from are right, and the others are not.

`Tracks.getElem?_eq_iff`: a position of the copy is right exactly if it is below all of these.
-/

namespace StaleList

variable {α : Type*} {old new : List α} {gone : List ℕ} {i k : ℕ} {x : α}

/-- The list `new` has come of `old`, with elements removed at the positions `gone`. -/
structure Tracks (old new : List α) (gone : List ℕ) : Prop where
  /-- Below the positions that were removed from, nothing has changed. -/
  kept : ∀ k < old.length, (∀ d ∈ gone, k < d) → new[k]? = old[k]?
  /-- From there on, and behind the end, is nothing that was there or in front of there. -/
  moved : ∀ k x, new[k]? = some x → (∃ d ∈ gone, d ≤ k) ∨ old.length ≤ k → x ∉ old.take (k + 1)

/-- A copy. -/
theorem Tracks.refl (l : List α) : Tracks l l [] := by
  refine ⟨fun _ _ _ ↦ rfl, fun k x hx hk ↦ ?_⟩
  rcases hk with ⟨d, hd, -⟩ | hk
  · exact absurd hd List.not_mem_nil
  · rw [List.getElem?_eq_none hk] at hx
    cases hx

/-- Nothing was copied. -/
theorem Tracks.nil (new : List α) (gone : List ℕ) : Tracks [] new gone := by
  refine ⟨fun k hk ↦ absurd hk (Nat.not_lt_zero k), fun k x _ _ ↦ ?_⟩
  rw [List.take_nil]
  exact List.not_mem_nil

/-- A new element is added at the end. -/
theorem Tracks.concat (h : Tracks old new gone) (hx : x ∉ old) : Tracks old (new ++ [x]) gone := by
  constructor
  · intro k hk hgone
    have hkept := h.kept k hk hgone
    rw [List.getElem?_eq_getElem hk] at hkept ⊢
    rw [List.getElem?_append_left (List.getElem?_eq_some_iff.1 hkept).1, hkept]
  · intro k y hy hk
    by_cases hlt : k < new.length
    · rw [List.getElem?_append_left hlt] at hy
      exact h.moved k y hy hk
    · rw [List.getElem?_append_right (Nat.le_of_not_lt hlt)] at hy
      obtain rfl := List.mem_singleton.1 (List.mem_of_getElem? hy)
      exact fun hmem ↦ hx (List.mem_of_mem_take hmem)

/-- An element is removed below the positions that were removed from. -/
theorem Tracks.eraseIdx (h : Tracks old new gone) (hnodup : old.Nodup) (hi : i < old.length)
    (hgone : ∀ d ∈ gone, i < d) : Tracks old (new.eraseIdx i) (gone ++ [i]) := by
  constructor
  · intro k hk hbelow
    have hki : k < i := hbelow i (List.mem_append_right _ (List.mem_singleton_self i))
    rw [List.getElem?_eraseIdx_of_lt hki]
    exact h.kept k hk fun d hd ↦ hbelow d (List.mem_append_left _ hd)
  · intro k x hx hk
    have hik : i ≤ k := by
      rcases hk with ⟨d, hd, hdk⟩ | hk
      · rcases List.mem_append.1 hd with hd | hd
        · exact Nat.le_trans (Nat.le_of_lt (hgone d hd)) hdk
        · exact List.mem_singleton.1 hd ▸ hdk
      · exact Nat.le_trans (Nat.le_of_lt hi) hk
    rw [List.getElem?_eraseIdx_of_ge hik] at hx
    -- what was one further on is not in front of it, in the copy either
    by_cases hfar : (∃ d ∈ gone, d ≤ k + 1) ∨ old.length ≤ k + 1
    · intro hmem
      refine h.moved (k + 1) x hx hfar ?_
      exact (List.take_subset_take_left old (Nat.le_succ (k + 1))) hmem
    · obtain ⟨hgone', hlen⟩ := not_or.1 hfar
      have hlt : k + 1 < old.length := Nat.lt_of_not_le hlen
      have hkept := h.kept (k + 1) hlt fun d hd ↦
        Nat.lt_of_not_le fun hle ↦ hgone' ⟨d, hd, hle⟩
      rw [hx, List.getElem?_eq_getElem hlt] at hkept
      intro hmem
      obtain ⟨j, hj, hx'⟩ := List.mem_take_iff_getElem.1 hmem
      have hjk : j = k + 1 :=
        (hnodup.getElem_inj_iff).1 (hx'.trans (Option.some.inj hkept))
      omega

/-- **When a position of the copy is right.** -/
theorem Tracks.getElem?_eq_iff (h : Tracks old new gone) (hi : i < old.length)
    (hnew : i < new.length) : old[i]? = new[i]? ↔ ∀ d ∈ gone, i < d := by
  constructor
  · intro heq d hd
    by_contra hle
    refine h.moved i new[i] (List.getElem?_eq_getElem hnew) (.inl ⟨d, hd, Nat.le_of_not_lt hle⟩) ?_
    rw [List.getElem?_eq_getElem hi, List.getElem?_eq_getElem hnew] at heq
    rw [← Option.some.inj heq, List.take_add_one, List.getElem?_eq_getElem hi]
    exact List.mem_append_right _ (List.mem_singleton_self _)
  · exact fun hgone ↦ (h.kept i hi hgone).symm

end StaleList
