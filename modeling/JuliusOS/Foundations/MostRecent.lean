import Mathlib.Data.List.Nodup

/-!
# Lists of what was used most recently

A bounded list of items, to the front of which an item is moved when it is used. Against the
history of all uses, the last one first, it holds no item twice and its items are in the order of
their last uses (`Ordered`), whatever is taken out of it in between.
-/

namespace MostRecent

variable {α : Type*} [DecidableEq α] {n : ℕ} {recent history : List α}

/-- An item is used: it moves to the front, and the first `n` are kept. -/
def use (n : ℕ) (a : α) (recent : List α) : List α := (a :: recent.erase a).take n

/-- At most `n` items, none twice, ordered from last to first used. -/
structure Ordered (n : ℕ) (recent history : List α) : Prop where
  nodup : recent.Nodup
  length_le : recent.length ≤ n
  used : ∀ a ∈ recent, a ∈ history
  sorted : recent.Pairwise fun a b ↦ history.idxOf a < history.idxOf b

theorem ordered_nil (n : ℕ) : Ordered n [] ([] : List α) :=
  ⟨List.nodup_nil, Nat.zero_le n, fun _ h ↦ h, List.Pairwise.nil⟩

/-- What is left of the list is as it was. -/
theorem Ordered.sublist (h : Ordered n recent history) {kept : List α}
    (hkept : kept.Sublist recent) : Ordered n kept history where
  nodup := h.nodup.sublist hkept
  length_le := Nat.le_trans hkept.length_le h.length_le
  used a ha := h.used a (hkept.subset ha)
  sorted := h.sorted.sublist hkept

theorem Ordered.erase (h : Ordered n recent history) (a : α) :
    Ordered n (recent.erase a) history :=
  h.sublist List.erase_sublist

/-- **The item that is used comes before all others, which stay in their order.** -/
theorem Ordered.use (h : Ordered n recent history) (a : α) :
    Ordered n (use n a recent) (a :: history) := by
  have hne : ∀ b ∈ recent.erase a, b ≠ a := by
    rintro b hb rfl
    exact h.nodup.not_mem_erase hb
  have hidx : ∀ b ∈ recent.erase a, (a :: history).idxOf b = history.idxOf b + 1 := fun b hb ↦
    List.idxOf_cons_ne _ (hne b hb).symm
  have hall : (a :: recent.erase a).Pairwise
      fun b c ↦ (a :: history).idxOf b < (a :: history).idxOf c := by
    refine List.pairwise_cons.2 ⟨fun b hb ↦ ?_, ?_⟩
    · rw [List.idxOf_cons_self, hidx b hb]
      exact Nat.succ_pos _
    · refine (h.erase a).sorted.imp_of_mem fun {b c} hb hc hlt ↦ ?_
      rw [hidx b hb, hidx c hc]
      exact Nat.succ_lt_succ hlt
  refine ⟨?_, List.length_take_le n _, fun b hb ↦ ?_, ?_⟩
  · exact (List.nodup_cons.2 ⟨h.nodup.not_mem_erase, (h.erase a).nodup⟩).sublist
      (List.take_sublist n _)
  · rcases List.mem_cons.1 ((List.take_sublist n _).subset hb) with rfl | hb
    · exact List.mem_cons_self
    · exact List.mem_cons_of_mem _ ((h.erase a).used b hb)
  · exact hall.sublist (List.take_sublist n _)

/-- Using an item takes away none of the places. -/
theorem Ordered.le_length_use (h : Ordered n recent history) (a : α) :
    recent.length ≤ (MostRecent.use n a recent).length := by
  have hle := h.length_le
  rw [MostRecent.use, List.length_take, List.length_cons, List.length_erase]
  split <;> omega

/-! ### Against all that was ever used -/

/-- What was used, each item once, where it was used last. -/
def distinct : List α → List α
  | [] => []
  | a :: history => a :: (distinct history).erase a

/-- Taking an item out of a list and out of its first `n` items comes to the same in front. -/
theorem take_erase_take (l : List α) (a : α) (n : ℕ) :
    ((l.take (n + 1)).erase a).take n = (l.erase a).take n := by
  induction l generalizing n with
  | nil => rw [List.take_nil]
  | cons b l ih =>
    rw [List.take_succ_cons]
    by_cases hab : b = a
    · rw [hab, List.erase_cons_head, List.erase_cons_head, List.take_take, Nat.min_self]
    · rw [List.erase_cons_tail (by simpa using hab), List.erase_cons_tail (by simpa using hab)]
      cases n with
      | zero => rw [List.take_zero, List.take_zero]
      | succ n => rw [List.take_succ_cons, List.take_succ_cons, ih]

/-- **The list is the first part of all that was ever used**, if nothing else is taken out. -/
theorem use_take_distinct (n : ℕ) (a : α) (history : List α) :
    use n a ((distinct history).take n) = (distinct (a :: history)).take n := by
  cases n with
  | zero => rfl
  | succ n =>
    rw [use, distinct, List.take_succ_cons, List.take_succ_cons, take_erase_take]

end MostRecent
