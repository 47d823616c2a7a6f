import Mathlib.Data.List.Nodup

/-!
# Tables that cut what they store

A table of at most `cap` items that never loses one. An item is looked up as it is, and added, where
it is not found and there is room, as `cut a`. An item that its cut changes is so never found again.

As long as no added cut is in the table already (`Fresh`), the table holds no item twice, and an
item that its cut leaves alone is refused only after `cap` others have been asked for (`Tidy.ask`,
`Tidy.late`). The first other addition makes a duplicate (`nodup_ask_iff`).
-/

namespace CutTable

variable {α : Type*} {cap : ℕ} {cut : α → α} {names asked : List α} {a : α}

/-- An item is looked up, and added where it is not found and there is room. -/
def ask [DecidableEq α] (cap : ℕ) (cut : α → α) (names : List α) (a : α) : List α :=
  if a ∈ names then names else if names.length < cap then names ++ [cut a] else names

/-- The items that have been asked for, in the order they were asked for first. -/
def record [DecidableEq α] (asked : List α) (a : α) : List α :=
  if a ∈ asked then asked else asked ++ [a]

/-- An item that is added is not stored as one that is there. -/
def Fresh (cap : ℕ) (cut : α → α) (names : List α) (a : α) : Prop :=
  a ∉ names → names.length < cap → cut a ∉ names

/-- A table to which only fresh items have been added. -/
structure Tidy (cap : ℕ) (cut : α → α) (names asked : List α) : Prop where
  nodup : names.Nodup
  /-- Every item in the table was asked for. -/
  length_le : names.length ≤ asked.length
  /-- While there is room, nothing has been refused. -/
  stored : names.length < cap → ∀ b ∈ asked, cut b ∈ names
  /-- Of what was asked for first, everything that is stored whole is there. -/
  early : ∀ b ∈ asked.take cap, cut b = b → b ∈ names

theorem tidy_nil (cap : ℕ) (cut : α → α) : Tidy cap cut [] [] where
  nodup := List.nodup_nil
  length_le := Nat.le_refl 0
  stored _ _ h := absurd h List.not_mem_nil
  early _ h := absurd (List.mem_of_mem_take h) List.not_mem_nil

/-- **What is refused was asked for late**: an item that is stored whole, is not there and cannot be
added is not among the first `cap` that were asked for, and so many were. -/
theorem Tidy.late (h : Tidy cap cut names asked) (hcut : cut a = a) (ha : a ∉ names)
    (hfull : cap ≤ names.length) : cap ≤ asked.length ∧ a ∉ asked.take cap :=
  ⟨Nat.le_trans hfull h.length_le, fun hmem ↦ ha (h.early a hmem hcut)⟩

variable [DecidableEq α]

/-! ### What was asked for -/

theorem mem_record {b : α} (h : b ∈ record asked a) : b ∈ asked ∨ b = a := by
  unfold record at h
  split at h
  · exact .inl h
  · simpa using h

theorem length_le_record (asked : List α) (a : α) : asked.length ≤ (record asked a).length := by
  unfold record
  split
  · exact Nat.le_refl _
  · rw [List.length_append]
    exact Nat.le_add_right _ _

theorem mem_take_record {b : α} (h : b ∈ (record asked a).take cap) :
    b ∈ asked.take cap ∨ b = a := by
  unfold record at h
  split at h
  · exact .inl h
  · rw [List.take_append] at h
    rcases List.mem_append.1 h with h | h
    · exact .inl h
    · exact .inr (List.mem_singleton.1 (List.mem_of_mem_take h))

/-- Once `cap` items have been asked for, the first `cap` stay. -/
theorem take_record (hle : cap ≤ asked.length) : (record asked a).take cap = asked.take cap := by
  unfold record
  split
  · rfl
  · exact List.take_append_of_le_length hle

/-! ### Asking -/

/-- An item that is found changes nothing in the table. -/
theorem Tidy.found (h : Tidy cap cut names asked) (ha : a ∈ names) (hcut : cut a = a) :
    Tidy cap cut names (record asked a) := by
  refine ⟨h.nodup, Nat.le_trans h.length_le (length_le_record asked a), fun hroom b hb ↦ ?_,
    fun b hb hcut' ↦ ?_⟩
  · rcases mem_record hb with hb | rfl
    · exact h.stored hroom b hb
    · rwa [hcut]
  · rcases mem_take_record hb with hb | rfl
    · exact h.early b hb hcut'
    · exact ha

/-- An item is added whose cut is not there. -/
theorem Tidy.add (h : Tidy cap cut names asked) (hroom : names.length < cap)
    (hcut : cut a ∉ names) : Tidy cap cut (names ++ [cut a]) (record asked a) := by
  -- otherwise its cut would be there
  have hnew : a ∉ asked := fun hasked ↦ hcut (h.stored hroom a hasked)
  have hrecord : record asked a = asked ++ [a] := if_neg hnew
  refine ⟨?_, ?_, fun _ b hb ↦ ?_, fun b hb hb' ↦ ?_⟩
  · exact List.nodup_append.2 ⟨h.nodup, List.nodup_singleton _, by
      rintro b hb c hc rfl
      exact hcut (List.mem_singleton.1 hc ▸ hb)⟩
  · rw [hrecord, List.length_append, List.length_append]
    exact Nat.add_le_add_right h.length_le 1
  · rcases mem_record hb with hb | rfl
    · exact List.mem_append_left _ (h.stored hroom b hb)
    · exact List.mem_append_right _ (List.mem_singleton_self _)
  · rcases mem_take_record hb with hb | rfl
    · exact List.mem_append_left _ (h.early b hb hb')
    · rw [hb']
      exact List.mem_append_right _ (List.mem_singleton_self _)

/-- A full table stays as it is. -/
theorem Tidy.full (h : Tidy cap cut names asked) (hroom : ¬ names.length < cap) (a : α) :
    Tidy cap cut names (record asked a) := by
  have hfull : cap ≤ asked.length := Nat.le_trans (Nat.le_of_not_lt hroom) h.length_le
  refine ⟨h.nodup, Nat.le_trans h.length_le (length_le_record asked a),
    fun hlt ↦ absurd hlt hroom, fun b hb ↦ ?_⟩
  rw [take_record hfull] at hb
  exact h.early b hb

/-- **Fresh items keep the table tidy.** -/
theorem Tidy.ask (h : Tidy cap cut names asked) (hfresh : Fresh cap cut names a)
    (hmem : a ∈ names → cut a = a) : Tidy cap cut (ask cap cut names a) (record asked a) := by
  unfold CutTable.ask
  split
  next ha => exact h.found ha (hmem ha)
  next ha =>
    split
    next hroom => exact h.add hroom (hfresh ha hroom)
    next hroom => exact h.full hroom a

/-- **An addition is fresh exactly if it makes no duplicate.** -/
theorem nodup_ask_iff (h : names.Nodup) :
    (ask cap cut names a).Nodup ↔ Fresh cap cut names a := by
  unfold ask Fresh
  split
  next ha => exact iff_of_true h fun hnot ↦ absurd ha hnot
  next ha =>
    split
    next hroom =>
      rw [List.nodup_append]
      constructor
      · rintro ⟨-, -, hdisj⟩ - - hcut
        exact hdisj _ hcut _ (List.mem_singleton_self _) rfl
      · intro hfresh
        refine ⟨h, List.nodup_singleton _, ?_⟩
        rintro b hb c hc rfl
        exact hfresh ha hroom (List.mem_singleton.1 hc ▸ hb)
    next hroom => exact iff_of_true h fun _ hlt ↦ absurd hlt hroom

end CutTable
