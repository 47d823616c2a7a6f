import JuliusOS.Apps.Keys

/-!
# The password manager

`src/apps/passwords/passwords.py`: a list of entries with a row that is selected, of which nine are
drawn from `scroll` on. Deleting an entry moves the selection up and not the page.

`rowShown_iff`: when the selected row goes on being drawn.
-/

namespace JuliusOS.Apps

/-- An entry. -/
structure PasswordEntry where
  /-- `site`. -/
  site : List ℕ
  /-- `user`. -/
  user : List ℕ
  /-- `pass`. -/
  pass : List ℕ

namespace PasswordManager

/-- The values of `mode`. -/
inductive Mode
  | list
  | add
  | view
deriving DecidableEq

/-- The values of `stage`, in the order of the dialog. -/
inductive Stage
  | site
  | user
  | pass
deriving DecidableEq

/-- The input of a stage. -/
def Stage.get (inputs : PasswordEntry) : Stage → List ℕ
  | .site => inputs.site
  | .user => inputs.user
  | .pass => inputs.pass

/-- The inputs with another one for a stage. -/
def Stage.set (inputs : PasswordEntry) (text : List ℕ) : Stage → PasswordEntry
  | .site => { inputs with site := text }
  | .user => { inputs with user := text }
  | .pass => { inputs with pass := text }

end PasswordManager

/-- A `PasswordManager`. `selected` and `scroll` are the view. -/
structure PasswordManager where
  data : List PasswordEntry
  view : ListView
  mode : PasswordManager.Mode
  status : List ℕ
  inputs : PasswordEntry
  stage : PasswordManager.Stage
  shows : Bool

namespace PasswordManager

/-- `__init__`, with the entries that `load` returns. -/
def init (data : List PasswordEntry) : PasswordManager :=
  ⟨data, .top, .list, [], ⟨[], [], []⟩, .site, false⟩

variable (s : PasswordManager)

/-- The D key. -/
def handleDelete (saves : Bool) : PasswordManager × Bool :=
  if s.view.selected < s.data.length then
    let s' := { s with data := s.data.eraseIdx s.view.selected, view := s.view.back }
    if saves then done { s' with status := Python.str "Deleted" } else (s', true)
  else (s, true)

/-- `handle_input` where the list is shown. -/
def handleList (saves : Bool) (e : KeyDown) : PasswordManager × Bool :=
  match e.key with
  | .down => done { s with view := s.view.down 9 s.data.length }
  | .up => done { s with view := s.view.up }
  | .letter 'n' => done { s with mode := .add, stage := .site, inputs := ⟨[], [], []⟩ }
  | .letter 'v' => if s.data = [] then done s else done { s with mode := .view, shows := false }
  | .letter 'd' => if s.data = [] then done s else s.handleDelete saves
  | _ => done s

/-- The return key where an entry is added. -/
def handleReturn (saves : Bool) : PasswordManager × Bool :=
  if s.stage.get s.inputs = [] then done s
  else
    match s.stage with
    | .site => done { s with stage := .user }
    | .user => done { s with stage := .pass }
    | .pass =>
      let s' := { s with data := s.data ++ [s.inputs] }
      if saves then
        done { s' with mode := .list, status := Python.str "Saved " ++ s.inputs.site }
      else (s', true)

/-- `handle_input` where an entry is added. -/
def handleAdd (saves : Bool) (e : KeyDown) : PasswordManager × Bool :=
  match e.key with
  | .ret => s.handleReturn saves
  | .backspace =>
    done { s with inputs := s.stage.set s.inputs (s.stage.get s.inputs).dropLast }
  | .escape => done { s with mode := .list }
  | _ => done { s with inputs := s.stage.set s.inputs (s.stage.get s.inputs ++ e.unicode) }

/-- `handle_input` where an entry is viewed. -/
def handleView (e : KeyDown) : PasswordManager :=
  match e.key with
  | .escape => { s with mode := .list }
  | .letter 's' => { s with shows := true }
  | .letter 'h' => { s with shows := false }
  | _ => s

/-- `handle_input`. A key comes with whether the file can be written. -/
def handleInput (p : KeyDown × Bool) : PasswordManager × Bool :=
  match s.mode with
  | .list => s.handleList p.2 p.1
  | .add => s.handleAdd p.2 p.1
  | .view => done (s.handleView p.1)

/-! ### The selected row stays on the screen -/

/-- The selected row is one of the rows, and one of the nine that are drawn. -/
def RowValid (s : PasswordManager) : Prop := s.view.Valid s.data.length ∧ s.view.OnScreen 9

/-- In a list that is shown and not empty, the selected row is one of the nine that are drawn. -/
def RowShown (s : PasswordManager) : Prop := s.mode = .list → s.data ≠ [] → s.view.OnScreen 9

/-- The entry that the D key deletes is not at the upper end of a page that is not the first. -/
def Keeps (s : PasswordManager) (p : KeyDown × Bool) : Prop :=
  s.mode = .list → p.1.key = .letter 'd' → s.data ≠ [] →
    s.view.scroll = 0 ∨ s.view.scroll < s.view.selected

variable {s} {p : KeyDown × Bool}

/-- The D key takes the selected entry out. -/
theorem handleDelete_spec (h : s.RowValid) (hne : s.data ≠ []) (saves : Bool) :
    (s.handleDelete saves).1.data = s.data.eraseIdx s.view.selected ∧
      (s.handleDelete saves).1.view = s.view.back ∧ (s.handleDelete saves).1.mode = s.mode := by
  rw [handleDelete, if_pos (h.1.lt (List.length_pos_iff.2 hne))]
  cases saves <;> exact ⟨rfl, rfl, rfl⟩

/-- The return key adds at most an entry at the end. -/
theorem RowValid.handleReturn (h : s.RowValid) (saves : Bool) :
    (s.handleReturn saves).1.RowValid := by
  have hadd : s.view.Valid (s.data ++ [s.inputs]).length := by
    rw [List.length_append]
    exact h.1.mono (Nat.le_add_right _ _)
  rw [PasswordManager.handleReturn]
  split
  · exact h
  · split
    · exact h
    · exact h
    · cases saves <;> exact ⟨hadd, h.2⟩

theorem RowValid.handleAdd (h : s.RowValid) (p : KeyDown × Bool) :
    (s.handleAdd p.2 p.1).1.RowValid := by
  rw [PasswordManager.handleAdd]
  split
  · exact h.handleReturn p.2
  all_goals exact h

theorem RowValid.handleView (h : s.RowValid) (e : KeyDown) : (s.handleView e).RowValid := by
  rw [PasswordManager.handleView]
  split <;> exact h

/-- **A key that keeps the row leaves it on the screen.** -/
theorem RowValid.handleInput (h : s.RowValid) (hok : s.Keeps p) : (s.handleInput p).1.RowValid := by
  rw [PasswordManager.handleInput]
  cases hmode : s.mode with
  | add => exact h.handleAdd p
  | view => exact h.handleView p.1
  | list =>
    dsimp only
    rw [handleList]
    split
    · exact ⟨h.1.down, h.2.down _⟩
    · exact ⟨h.1.up, h.2.up⟩
    · exact h
    · split <;> exact h
    · rename_i hkey
      by_cases hnil : s.data = []
      · rw [if_pos hnil]
        exact h
      · rw [if_neg hnil]
        obtain ⟨hdata, hview, -⟩ := handleDelete_spec h hnil p.2
        have hlt := h.1.lt (List.length_pos_iff.2 hnil)
        rw [RowValid, hdata, hview, List.length_eraseIdx_of_lt hlt]
        exact ⟨h.1.back, (ListView.onScreen_back_iff h.2).2 (hok hmode hkey hnil)⟩
    · exact h

/-- **Any other key leaves the row above the screen.** -/
theorem RowValid.not_rowShown (h : s.RowValid) (hnot : ¬ s.Keeps p) :
    ¬ (s.handleInput p).1.RowShown := by
  obtain ⟨hmode, hnot⟩ := Classical.not_imp.1 hnot
  obtain ⟨hkey, hnot⟩ := Classical.not_imp.1 hnot
  obtain ⟨hne, hnot⟩ := Classical.not_imp.1 hnot
  obtain ⟨hdata, hview, hmode'⟩ := handleDelete_spec h hne p.2
  have hcall : s.handleInput p = s.handleDelete p.2 := by
    rw [PasswordManager.handleInput, hmode]
    dsimp only
    rw [handleList, hkey]
    exact if_neg hne
  have hlt := h.1.lt (List.length_pos_iff.2 hne)
  have hback : ¬ s.view.back.OnScreen 9 := mt (ListView.onScreen_back_iff h.2).1 hnot
  have hne' : s.data.eraseIdx s.view.selected ≠ [] := by
    rw [← List.length_pos_iff, List.length_eraseIdx_of_lt hlt]
    exact ListView.pos_of_not_back h.2 hlt hback
  intro hshown
  rw [hcall, RowShown, hdata, hview, hmode'] at hshown
  exact hback (hshown hmode hne')

/-- The app from `__init__` on. -/
def presses : Machine (Calls.State PasswordManager) (KeyDown × Bool) :=
  Calls.machine (fun s ↦ ∃ data, s = init data) handleInput

theorem rowShown_iff (data : List PasswordEntry) (ps : List (KeyDown × Bool)) :
    presses.Guarded (fun s p ↦ s.object.Keeps p) (Calls.start (init data)) ps ↔
      ∀ n u, presses.run (Calls.start (init data)) (ps.take n) = some u → u.object.RowShown := by
  refine Calls.guarded_object_iff (I := RowShown) (K := RowValid) (fun _ h _ _ ↦ h.2) ?_ ?_
    ⟨ListView.valid_top _, ListView.onScreen_top (by decide)⟩ ps
  · intro s p h hok
    exact h.handleInput hok
  · intro s p h hnot
    exact h.not_rowShown hnot

end PasswordManager

end JuliusOS.Apps
