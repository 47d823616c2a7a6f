import JuliusOS.Apps.Keys

/-!
# The notes

`src/apps/notes/notes.py`: a list of notes with a row that is selected, of which twelve are drawn
from `scroll` on. While a note is viewed `scroll` is the first of its lines instead, and the list
gets it back as 0, or as it is where the note was edited.

`rowShown_iff`: when the selected row goes on being drawn.
-/

namespace JuliusOS.Apps

/-- A note. -/
structure Note where
  /-- `title`. -/
  title : List ℕ
  /-- `body`. -/
  body : List ℕ

namespace Notes

/-- The values of `mode`. -/
inductive Mode
  | list
  | edit
  | view
deriving DecidableEq

/-- The values of `stage`. -/
inductive Stage
  | title
  | body
deriving DecidableEq

end Notes

/-- A `Notes`. `selected` and `scroll` are the view. -/
structure Notes where
  notes : List Note
  mode : Notes.Mode
  view : ListView
  editing : List ℕ
  title : List ℕ
  stage : Notes.Stage

namespace Notes

/-- `__init__`, with the notes that `load` returns. -/
def init (notes : List Note) : Notes := ⟨notes, .list, .top, [], [], .title⟩

variable (s : Notes)

/-- The D key. -/
def handleDelete (saves : Bool) : Notes × Bool :=
  if s.view.selected < s.notes.length then
    saved saves { s with notes := s.notes.eraseIdx s.view.selected, view := s.view.back }
  else (s, true)

/-- `handle_input` where the list is shown. -/
def handleList (saves : Bool) (e : KeyDown) : Notes × Bool :=
  match e.key with
  | .letter 'n' => done { s with mode := .edit, stage := .title, title := [], editing := [] }
  | .down => done { s with view := s.view.down 12 s.notes.length }
  | .up => done { s with view := s.view.up }
  | .ret =>
    if s.notes = [] then done s
    else done { s with mode := .view, view := { s.view with scroll := 0 } }
  | .letter 'd' => if s.notes = [] then done s else s.handleDelete saves
  | _ => done s

/-- `handle_input` where a title is typed. -/
def handleTitle (e : KeyDown) : Notes :=
  if e.key = .ret ∧ s.title ≠ [] then { s with stage := .body }
  else
    match e.key with
    | .backspace => { s with title := s.title.dropLast }
    | .escape => { s with mode := .list }
    | _ => { s with title := s.title ++ e.unicode }

/-- `handle_input` where a text is typed. -/
def handleBody (saves : Bool) (e : KeyDown) : Notes × Bool :=
  match e.key with
  | .escape =>
    let s' := { s with notes := s.notes ++ [⟨s.title, s.editing⟩] }
    if saves then done { s' with mode := .list, stage := .title } else (s', true)
  | .ret => done { s with editing := s.editing ++ [10] }
  | .backspace => done { s with editing := s.editing.dropLast }
  | _ => done { s with editing := s.editing ++ e.unicode }

/-- `handle_input` where the selected note is viewed. -/
def handleView (e : KeyDown) : Notes × Bool :=
  match s.notes[s.view.selected]? with
  | none => (s, true)
  | some note =>
    match e.key with
    | .escape => done { s with mode := .list, view := { s.view with scroll := 0 } }
    | .down =>
      if s.view.scroll + 12 < (note.body.splitOn 10).length then
        done { s with view := { s.view with scroll := s.view.scroll + 1 } }
      else done s
    | .up =>
      if 0 < s.view.scroll then
        done { s with view := { s.view with scroll := s.view.scroll - 1 } }
      else done s
    | .letter 'e' =>
      done { s with
        mode := .edit
        stage := .body
        title := note.title
        editing := note.body
        notes := s.notes.eraseIdx s.view.selected }
    | _ => done s

/-- `handle_input`. A key comes with whether the file can be written. -/
def handleInput (p : KeyDown × Bool) : Notes × Bool :=
  match s.mode with
  | .list => s.handleList p.2 p.1
  | .edit =>
    match s.stage with
    | .title => done (s.handleTitle p.1)
    | .body => s.handleBody p.2 p.1
  | .view => s.handleView p.1

/-! ### The selected row stays on the screen -/

/-- In a list that is shown and not empty, the selected row is one of the twelve that are drawn. -/
def RowShown (s : Notes) : Prop := s.mode = .list → s.notes ≠ [] → s.view.OnScreen 12

/-- The selected row is one of the twelve that are drawn, or will be one again. While a text is
typed the selection may be behind the last note. -/
def RowValid (s : Notes) : Prop :=
  match s.mode with
  | .list => s.view.Valid s.notes.length ∧ s.view.OnScreen 12
  | .edit =>
    match s.stage with
    | .title => s.view.Valid s.notes.length ∧ s.view.OnScreen 12
    | .body => s.view.selected ≤ s.notes.length
  | .view => s.view.selected < s.notes.length

/-- A note that the D key deletes is not at the upper end of a page that is not the first; one that
was viewed is among the first twelve; and one that is saved leaves the selected row on the page that
`scroll` begins. -/
def Keeps (s : Notes) (p : KeyDown × Bool) : Prop :=
  match s.mode with
  | .list =>
    p.1.key = .letter 'd' → s.notes ≠ [] → s.view.scroll = 0 ∨ s.view.scroll < s.view.selected
  | .view => p.1.key = .escape → s.view.selected < 12
  | .edit => s.stage = .body → p.1.key = .escape → p.2 = true → s.view.OnScreen 12

variable {s} {p : KeyDown × Bool}

theorem rowValid_list (hmode : s.mode = .list) :
    s.RowValid ↔ s.view.Valid s.notes.length ∧ s.view.OnScreen 12 := by
  rw [RowValid, hmode]

theorem rowValid_view (hmode : s.mode = .view) : s.RowValid ↔ s.view.selected < s.notes.length := by
  rw [RowValid, hmode]

theorem rowValid_title (hmode : s.mode = .edit) (hstage : s.stage = .title) :
    s.RowValid ↔ s.view.Valid s.notes.length ∧ s.view.OnScreen 12 := by
  rw [RowValid, hmode]
  dsimp only
  rw [hstage]

theorem rowValid_body (hmode : s.mode = .edit) (hstage : s.stage = .body) :
    s.RowValid ↔ s.view.selected ≤ s.notes.length := by
  rw [RowValid, hmode]
  dsimp only
  rw [hstage]

/-- What one key is to do: to go on exactly if it keeps the row. -/
def Step (s : Notes) (p : KeyDown × Bool) (s' : Notes) : Prop :=
  (s.Keeps p → s'.RowValid) ∧ (¬ s.Keeps p → ¬ s'.RowShown)

theorem step_of_valid {s' : Notes} (hkeeps : s.Keeps p) (h : s'.RowValid) : s.Step p s' :=
  ⟨fun _ ↦ h, fun hnot ↦ absurd hkeeps hnot⟩

theorem step_of_list {s' : Notes} (hkeeps : s.Keeps p) (hmode : s'.mode = .list)
    (hvalid : s'.view.Valid s'.notes.length) (hscreen : s'.view.OnScreen 12) : s.Step p s' :=
  step_of_valid hkeeps ((rowValid_list hmode).2 ⟨hvalid, hscreen⟩)

theorem step_of_body {s' : Notes} (hkeeps : s.Keeps p) (hmode : s'.mode = .edit)
    (hstage : s'.stage = .body) (hle : s'.view.selected ≤ s'.notes.length) : s.Step p s' :=
  step_of_valid hkeeps ((rowValid_body hmode hstage).2 hle)

theorem step_of_view {s' : Notes} (hkeeps : s.Keeps p) (hmode : s'.mode = .view)
    (hlt : s'.view.selected < s'.notes.length) : s.Step p s' :=
  step_of_valid hkeeps ((rowValid_view hmode).2 hlt)

theorem step_of_iff {s' : Notes} (hlist : s'.mode = .list) (hne : s'.notes ≠ [])
    (hvalid : s'.view.Valid s'.notes.length) (hiff : s.Keeps p ↔ s'.view.OnScreen 12) :
    s.Step p s' :=
  ⟨fun hkeeps ↦ (rowValid_list hlist).2 ⟨hvalid, hiff.1 hkeeps⟩,
    fun hnot hshown ↦ hnot (hiff.2 (hshown hlist hne))⟩

/-- The D key. -/
theorem step_handleDelete (hmode : s.mode = .list) (hvalid : s.view.Valid s.notes.length)
    (hscreen : s.view.OnScreen 12) (hne : s.notes ≠ []) (hkey : p.1.key = .letter 'd') :
    s.Step p (s.handleDelete p.2).1 := by
  have hlt := hvalid.lt (List.length_pos_iff.2 hne)
  have hlen := List.length_eraseIdx_of_lt hlt
  have hiff : s.Keeps p ↔ s.view.back.OnScreen 12 := by
    rw [Keeps, hmode, ListView.onScreen_back_iff hscreen]
    exact ⟨fun hd ↦ hd hkey hne, fun hd _ _ ↦ hd⟩
  have hback : s.view.back.Valid (s.notes.eraseIdx s.view.selected).length := by
    rw [hlen]
    exact hvalid.back
  rw [handleDelete, if_pos hlt]
  by_cases hkeep : s.Keeps p
  · exact step_of_list hkeep hmode hback (hiff.1 hkeep)
  · refine step_of_iff hmode ?_ hback hiff
    rw [← List.length_pos_iff]
    dsimp only [saved]
    rw [hlen]
    exact ListView.pos_of_not_back hscreen hlt (mt hiff.2 hkeep)

/-- A key while the list is shown. -/
theorem RowValid.handleList (h : s.RowValid) (hmode : s.mode = .list) (p : KeyDown × Bool) :
    s.Step p (s.handleList p.2 p.1).1 := by
  obtain ⟨hvalid, hscreen⟩ := (rowValid_list hmode).1 h
  have hkeeps : s.Keeps p ↔ (p.1.key = .letter 'd' → s.notes ≠ [] →
      s.view.scroll = 0 ∨ s.view.scroll < s.view.selected) := by
    rw [Keeps, hmode]
  have hother (hkey : p.1.key ≠ .letter 'd') : s.Keeps p := hkeeps.2 fun hd ↦ absurd hd hkey
  rw [Notes.handleList]
  split
  · rename_i hkey
    exact step_of_valid (hother (by simp [hkey])) ((rowValid_title rfl rfl).2 ⟨hvalid, hscreen⟩)
  · rename_i hkey
    exact step_of_list (hother (by simp [hkey])) hmode hvalid.down (hscreen.down _)
  · rename_i hkey
    exact step_of_list (hother (by simp [hkey])) hmode hvalid.up hscreen.up
  · rename_i hkey
    have hkeep := hother (by simp [hkey])
    by_cases hnil : s.notes = []
    · rw [if_pos hnil]
      exact step_of_valid hkeep h
    · rw [if_neg hnil]
      exact step_of_view hkeep rfl (hvalid.lt (List.length_pos_iff.2 hnil))
  · rename_i hkey
    by_cases hnil : s.notes = []
    · rw [if_pos hnil]
      exact step_of_valid (hkeeps.2 fun _ hne ↦ absurd hnil hne) h
    · rw [if_neg hnil]
      exact step_handleDelete hmode hvalid hscreen hnil hkey
  · rename_i hkey
    exact step_of_valid (hother hkey) h

/-- A key while a title is typed. -/
theorem RowValid.handleTitle (h : s.RowValid) (hmode : s.mode = .edit) (hstage : s.stage = .title)
    (p : KeyDown × Bool) : s.Step p (s.handleTitle p.1) := by
  have hvalid := (rowValid_title hmode hstage).1 h
  have hkeeps : s.Keeps p := by
    rw [Keeps, hmode]
    intro hbody
    cases hstage.symm.trans hbody
  rw [Notes.handleTitle]
  split
  · refine step_of_body hkeeps hmode rfl ?_
    rcases hvalid.1 with hzero | hlt
    · exact hzero ▸ Nat.zero_le _
    · exact Nat.le_of_lt hlt
  · split
    · exact step_of_valid hkeeps ((rowValid_title hmode hstage).2 hvalid)
    · exact step_of_list hkeeps rfl hvalid.1 hvalid.2
    · exact step_of_valid hkeeps ((rowValid_title hmode hstage).2 hvalid)

/-- A key while a text is typed. -/
theorem RowValid.handleBody (h : s.RowValid) (hmode : s.mode = .edit) (hstage : s.stage = .body)
    (p : KeyDown × Bool) : s.Step p (s.handleBody p.2 p.1).1 := by
  have hle := (rowValid_body hmode hstage).1 h
  have hkeeps : s.Keeps p ↔ (p.1.key = .escape → p.2 = true → s.view.OnScreen 12) := by
    rw [Keeps, hmode]
    exact ⟨fun hrow ↦ hrow hstage, fun hrow _ ↦ hrow⟩
  have hother (hkey : p.1.key ≠ .escape) : s.Keeps p := hkeeps.2 fun hesc ↦ absurd hesc hkey
  have hlt (note : Note) : s.view.selected < (s.notes ++ [note]).length := by
    rw [List.length_append]
    exact Nat.lt_succ_of_le hle
  rw [Notes.handleBody]
  split
  · rename_i hesc
    cases hsaves : p.2 with
    | true =>
      refine step_of_iff rfl (by simp [done]) (.inr (hlt _)) ?_
      exact hkeeps.trans ⟨fun hrow ↦ hrow hesc hsaves, fun hrow _ _ ↦ hrow⟩
    | false =>
      refine step_of_body (hkeeps.2 fun _ htrue ↦ ?_) hmode hstage (Nat.le_of_lt (hlt _))
      cases hsaves.symm.trans htrue
  · rename_i hkey
    exact step_of_body (hother (by simp [hkey])) hmode hstage hle
  · rename_i hkey
    exact step_of_body (hother (by simp [hkey])) hmode hstage hle
  · rename_i hkey _ _
    exact step_of_body (hother hkey) hmode hstage hle

/-- A key while a note is viewed. -/
theorem RowValid.handleView (h : s.RowValid) (hmode : s.mode = .view) (p : KeyDown × Bool) :
    s.Step p (s.handleView p.1).1 := by
  have hlt := (rowValid_view hmode).1 h
  have hkeeps : s.Keeps p ↔ (p.1.key = .escape → s.view.selected < 12) := by
    rw [Keeps, hmode]
  have hother (hkey : p.1.key ≠ .escape) : s.Keeps p := hkeeps.2 fun hesc ↦ absurd hesc hkey
  rw [Notes.handleView, List.getElem?_eq_getElem hlt]
  dsimp only
  split
  · rename_i hesc
    refine step_of_iff rfl (List.ne_nil_of_length_pos (Nat.zero_lt_of_lt hlt)) (.inr hlt) ?_
    refine hkeeps.trans ⟨fun hrow ↦ ⟨Nat.zero_le _, ?_⟩, fun hscreen _ ↦ ?_⟩
    · have hrow := hrow hesc
      dsimp only [done]
      omega
    · have hrow := hscreen.2
      dsimp only [done] at hrow
      omega
  · rename_i hkey
    have hkeep := hother (by simp [hkey])
    split <;> exact step_of_view hkeep hmode hlt
  · rename_i hkey
    have hkeep := hother (by simp [hkey])
    split <;> exact step_of_view hkeep hmode hlt
  · rename_i hkey
    refine step_of_body (hother (by simp [hkey])) rfl rfl ?_
    have hlen := List.length_eraseIdx_of_lt hlt
    dsimp only [done]
    omega
  · rename_i hkey _ _ _
    exact step_of_view (hother hkey) hmode hlt

/-- **Every key goes on exactly if it keeps the row.** -/
theorem RowValid.handleInput (h : s.RowValid) (p : KeyDown × Bool) :
    s.Step p (s.handleInput p).1 := by
  rw [Notes.handleInput]
  cases hmode : s.mode with
  | list => exact h.handleList hmode p
  | view => exact h.handleView hmode p
  | edit =>
    dsimp only
    cases hstage : s.stage with
    | title => exact h.handleTitle hmode hstage p
    | body => exact h.handleBody hmode hstage p

theorem RowValid.rowShown (h : s.RowValid) : s.RowShown :=
  fun hmode _ ↦ ((rowValid_list hmode).1 h).2

/-- The app from `__init__` on. -/
def presses : Machine (Calls.State Notes) (KeyDown × Bool) :=
  Calls.machine (fun s ↦ ∃ notes, s = init notes) handleInput

theorem rowShown_iff (notes : List Note) (ps : List (KeyDown × Bool)) :
    presses.Guarded (fun s p ↦ s.object.Keeps p) (Calls.start (init notes)) ps ↔
      ∀ n u, presses.run (Calls.start (init notes)) (ps.take n) = some u → u.object.RowShown := by
  refine Calls.guarded_object_iff (I := RowShown) (K := RowValid) (fun _ h ↦ h.rowShown) ?_ ?_ ?_ ps
  · intro s p h hok
    exact (h.handleInput p).1 hok
  · intro s p h hnot
    exact (h.handleInput p).2 hnot
  · exact (rowValid_list rfl).2 ⟨ListView.valid_top _, ListView.onScreen_top (by decide)⟩

end Notes

end JuliusOS.Apps
