import Mathlib.Data.List.Basic

/-!
# Lists on a small screen

A list of which one row is selected and one page is drawn. The arrow keys move the selection by a
row and the page after it; they keep the selected row on the page (`OnScreen.down`, `OnScreen.up`)
and among the rows (`Valid.down`, `Valid.up`). Where a row is taken out and the selection goes back
by one, it stays on the page unless it was the first row of a page that is not the first
(`onScreen_back_iff`).
-/

/-- The selected row and the first row that is drawn. -/
structure ListView where
  selected : ℕ
  scroll : ℕ
deriving DecidableEq

namespace ListView

variable {v : ListView} {page n : ℕ} {α : Type*} {l : List α}

/-- The first row, on the first page. -/
def top : ListView := ⟨0, 0⟩

/-- The arrow down, in a list of `n` rows. -/
def down (page n : ℕ) (v : ListView) : ListView :=
  let selected := if v.selected < n - 1 then v.selected + 1 else v.selected
  ⟨selected, if v.scroll + page ≤ selected then v.scroll + 1 else v.scroll⟩

/-- The arrow up. -/
def up (v : ListView) : ListView :=
  let selected := if 0 < v.selected then v.selected - 1 else v.selected
  ⟨selected, if selected < v.scroll then v.scroll - 1 else v.scroll⟩

/-- `selected = max(0, selected - 1)`. -/
def back (v : ListView) : ListView := { v with selected := v.selected - 1 }

/-- The selected row is drawn. -/
def OnScreen (page : ℕ) (v : ListView) : Prop :=
  v.scroll ≤ v.selected ∧ v.selected < v.scroll + page

/-- The selected row is one of `n`, or the first. -/
def Valid (n : ℕ) (v : ListView) : Prop := v.selected = 0 ∨ v.selected < n

theorem onScreen_top (hpage : 0 < page) : top.OnScreen page :=
  ⟨Nat.le_refl 0, (Nat.zero_add page).symm ▸ hpage⟩

theorem OnScreen.down (h : v.OnScreen page) (n : ℕ) : (v.down page n).OnScreen page := by
  simp only [OnScreen, ListView.down] at h ⊢
  split_ifs <;> omega

theorem OnScreen.up (h : v.OnScreen page) : v.up.OnScreen page := by
  simp only [OnScreen, ListView.up] at h ⊢
  split_ifs <;> omega

/-- The selection that goes back by one row stays on the page, unless it was at its upper end. -/
theorem onScreen_back_iff (h : v.OnScreen page) :
    v.back.OnScreen page ↔ v.scroll = 0 ∨ v.scroll < v.selected := by
  simp only [OnScreen, ListView.back] at h ⊢
  omega

/-- If it does not stay there, the row that was taken out was not the only one. -/
theorem pos_of_not_back (h : v.OnScreen page) (hlt : v.selected < n)
    (hnot : ¬ v.back.OnScreen page) : 0 < n - 1 := by
  rw [onScreen_back_iff h] at hnot
  have hle : v.scroll ≤ v.selected := h.1
  omega

theorem valid_top (n : ℕ) : top.Valid n := Or.inl rfl

theorem Valid.down (h : v.Valid n) : (v.down page n).Valid n := by
  simp only [Valid, ListView.down] at h ⊢
  split_ifs <;> omega

theorem Valid.up (h : v.Valid n) : v.up.Valid n := by
  simp only [Valid, ListView.up] at h ⊢
  split_ifs <;> omega

/-- A row was taken out. -/
theorem Valid.back (h : v.Valid n) : v.back.Valid (n - 1) := by
  simp only [Valid, ListView.back] at h ⊢
  omega

theorem Valid.mono {m : ℕ} (h : v.Valid n) (hle : n ≤ m) : v.Valid m :=
  h.imp_right fun h ↦ Nat.lt_of_lt_of_le h hle

theorem Valid.lt (h : v.Valid n) (hn : 0 < n) : v.selected < n := by
  rcases h with h | h <;> omega

/-- The arrows leave a row of a list that is not empty selected. -/
theorem selects_down (h : l ≠ [] → v.selected < l.length) (page : ℕ) (hne : l ≠ []) :
    (v.down page l.length).selected < l.length :=
  (Valid.down (.inr (h hne))).lt (List.length_pos_iff.2 hne)

theorem selects_up (h : l ≠ [] → v.selected < l.length) (hne : l ≠ []) :
    v.up.selected < l.length :=
  (Valid.up (.inr (h hne))).lt (List.length_pos_iff.2 hne)

end ListView
