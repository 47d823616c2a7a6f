import JuliusOS.Apps.TextEditor
import JuliusOS.Foundations.Calls
import JuliusOS.Foundations.ListView

/-!
# Sessions of the text editor

What holds of the editor in every session, whatever is typed and however a file reads: an event may
bring several characters, or newlines. The cursor's line is always one of the lines
(`inLines_of_reachable`), so `handle_input` finds every line it asks for. What a key does to the
line that is selected and to the first line that is drawn is `editView`; `rowShown_iff` says when
the cursor's line goes on being drawn.
-/

namespace JuliusOS.Apps.TextEditor

variable {ed ed' : TextEditor} {e : Event}

/-- The editor after an event, and whether `handle_input` raises. -/
def call (ed : TextEditor) (e : Event) : TextEditor × Bool :=
  match ed.handleInput e with
  | some ed' => (ed', false)
  | none => (ed, true)

/-- The editor from `__init__` on, with any events. -/
def session : Machine (Calls.State TextEditor) Event :=
  Calls.machine (· = TextEditor.init) call

/-- The cursor's line is one of the lines. -/
def InLines (ed : TextEditor) : Prop := ed.cursorY < ed.lines.length

/-- The cursor's line and the first line that is drawn. -/
def view (ed : TextEditor) : ListView := ⟨ed.cursorY, ed.scroll⟩

/-- The view after a key, while a text is edited. -/
def editView (ed : TextEditor) (e : Event) : ListView :=
  match e.key with
  | .ret => { ed.view with selected := ed.cursorY + 1 }
  | .backspace => if ed.cursorX = 0 then ed.view.back else ed.view
  | .up => ed.view.up
  | .down => ed.view.down 13 ed.lines.length
  | _ => ed.view

/-! ### Every operation finds its lines -/

/-- What an operation comes to: an editor in the same mode, with a cursor in its lines and the
given view. -/
def Shown (ed : TextEditor) (result : Option TextEditor) (v : ListView) : Prop :=
  ∃ ed', result = some ed' ∧ ed'.InLines ∧ ed'.mode = ed.mode ∧ ed'.view = v

theorem InLines.currentLine (h : ed.InLines) : ∃ line, ed.currentLine = some line :=
  ⟨ed.lines.get ⟨ed.cursorY, h⟩, List.getElem?_eq_getElem h⟩

theorem InLines.insertChar (h : ed.InLines) (ch : List ℕ) :
    Shown ed (ed.insertChar ch) ed.view := by
  obtain ⟨line, hline⟩ := h.currentLine
  refine ⟨_, congrArg (Option.map _) hline, ?_, rfl, rfl⟩
  rw [InLines, List.length_set]
  exact h

theorem InLines.newline (h : ed.InLines) :
    Shown ed ed.newline { ed.view with selected := ed.cursorY + 1 } := by
  obtain ⟨line, hline⟩ := h.currentLine
  refine ⟨_, congrArg (Option.map _) hline, ?_, rfl, rfl⟩
  rw [InLines, List.length_insertIdx_of_le_length (by rw [List.length_set]; exact h),
    List.length_set]
  exact Nat.succ_lt_succ h

/-- The cursor goes up a line exactly where a line is joined to the one above it. -/
theorem InLines.backspace (h : ed.InLines) :
    Shown ed ed.backspace (if ed.cursorX = 0 then ed.view.back else ed.view) := by
  obtain ⟨line, hline⟩ := h.currentLine
  unfold TextEditor.backspace
  by_cases hx : ed.cursorX = 0
  · rw [if_neg (by omega), if_pos hx]
    by_cases hy : 0 < ed.cursorY
    · have hprev : ed.cursorY - 1 < ed.lines.length := Nat.lt_of_le_of_lt (Nat.sub_le _ _) h
      rw [if_pos hy, List.getElem?_eq_getElem hprev, Option.bind_some, hline]
      refine ⟨_, rfl, ?_, rfl, rfl⟩
      have hlt : ed.cursorY < ed.lines.length := h
      rw [InLines, List.length_eraseIdx_of_lt (by rw [List.length_set]; exact h), List.length_set]
      dsimp only
      omega
    · have hzero : ed.view.back = ed.view := by
        rw [ListView.back, view]
        dsimp only
        rw [Nat.eq_zero_of_not_pos hy]
      rw [if_neg hy, hzero]
      exact ⟨ed, rfl, h, rfl, rfl⟩
  · rw [if_pos (Nat.pos_of_ne_zero hx), if_neg hx]
    refine ⟨_, congrArg (Option.map _) hline, ?_, rfl, rfl⟩
    rw [InLines, List.length_set]
    exact h

theorem moveTo_eq {y : ℕ} (h : y < ed.lines.length) :
    ∃ x, ed.moveTo y = some { ed with cursorX := x, cursorY := y } :=
  ⟨_, congrArg (Option.map _) (List.getElem?_eq_getElem h)⟩

theorem InLines.up (h : ed.InLines) :
    Shown ed ((if 0 < ed.cursorY then ed.moveTo (ed.cursorY - 1) else some ed).map fun ed ↦
      { ed with scroll := if ed.cursorY < ed.scroll then ed.scroll - 1 else ed.scroll })
      ed.view.up := by
  unfold ListView.up view
  dsimp only
  by_cases hy : 0 < ed.cursorY
  · have hlt : ed.cursorY - 1 < ed.lines.length := Nat.lt_of_le_of_lt (Nat.sub_le _ _) h
    obtain ⟨x, hmove⟩ := moveTo_eq hlt
    rw [if_pos hy, if_pos hy, hmove]
    exact ⟨_, rfl, hlt, rfl, rfl⟩
  · rw [if_neg hy, if_neg hy]
    exact ⟨_, rfl, h, rfl, rfl⟩

theorem InLines.down (h : ed.InLines) :
    Shown ed ((if ed.cursorY < ed.lines.length - 1 then ed.moveTo (ed.cursorY + 1)
      else some ed).map fun ed ↦
        { ed with scroll := if ed.scroll + 13 ≤ ed.cursorY then ed.scroll + 1 else ed.scroll })
      (ed.view.down 13 ed.lines.length) := by
  unfold ListView.down view
  dsimp only
  by_cases hy : ed.cursorY < ed.lines.length - 1
  · have hlt : ed.cursorY + 1 < ed.lines.length := Nat.add_lt_of_lt_sub hy
    obtain ⟨x, hmove⟩ := moveTo_eq hlt
    rw [if_pos hy, if_pos hy, hmove]
    exact ⟨_, rfl, hlt, rfl, rfl⟩
  · rw [if_neg hy, if_neg hy]
    exact ⟨_, rfl, h, rfl, rfl⟩

/-! ### Every event -/

/-- **A key pressed while a text is edited.** -/
theorem InLines.edit (h : ed.InLines) (hmode : ed.mode = .edit) (hesc : e.key ≠ .escape) :
    Shown ed (ed.handleInput e) (ed.editView e) := by
  rw [handleInput, hmode]
  show Shown ed (ed.handleEdit e) (ed.editView e)
  have hchar : Shown ed (if e.key = .s ∧ e.ctrl then some (ed.save e.write)
      else if e.unicode ≠ [] then ed.insertChar e.unicode else some ed) ed.view := by
    split_ifs
    · rcases hwrite : e.write with msg | -
      · exact ⟨_, rfl, h, rfl, rfl⟩
      · exact ⟨_, rfl, h, rfl, rfl⟩
    · exact h.insertChar e.unicode
    · exact ⟨ed, rfl, h, rfl, rfl⟩
  rw [handleEdit, editView]
  cases hkey : e.key with
  | escape => exact absurd hkey hesc
  | s =>
    rw [hkey] at hchar
    exact hchar
  | ret => exact h.newline
  | backspace => exact h.backspace
  | left => exact ⟨_, rfl, h, rfl, rfl⟩
  | right =>
    obtain ⟨line, hline⟩ := h.currentLine
    exact ⟨_, congrArg (Option.map _) hline, h, rfl, rfl⟩
  | up => exact h.up
  | down => exact h.down
  | other =>
    rw [hkey] at hchar
    exact hchar

/-- The escape key leaves the text. -/
theorem edit_escape (hmode : ed.mode = .edit) (hesc : e.key = .escape) :
    ∃ ed', ed.handleInput e = some ed' ∧ ed'.InLines ∧ ed'.mode = .inputName := by
  rw [handleInput, hmode]
  show ∃ ed', ed.handleEdit e = some ed' ∧ ed'.InLines ∧ ed'.mode = .inputName
  rw [handleEdit, hesc]
  exact ⟨_, rfl, Nat.one_pos, rfl⟩

/-- While a name is typed, the return key may open a file. -/
def Opens (ed : TextEditor) (e : Event) : Prop :=
  e.key = .ret ∧ ed.filename ≠ [] ∧ ∃ text, e.read = .ok text

/-- **An event while a name is typed.** -/
theorem InLines.name (h : ed.InLines) (hmode : ed.mode = .inputName) :
    ∃ ed', ed.handleInput e = some ed' ∧ ed'.InLines ∧
      (Opens ed e ∧ ed'.mode = .edit ∧ ed'.view = ⟨0, ed.scroll⟩ ∨
        ¬ Opens ed e ∧ ed'.mode = .inputName) := by
  rw [handleInput, hmode]
  refine ⟨_, rfl, ?_⟩
  rw [handleName]
  split
  next hret =>
    rcases hread : e.read with msg | - | text
    · refine ⟨h, .inr ⟨?_, hmode⟩⟩
      rintro ⟨-, -, text, htext⟩
      rw [hread] at htext
      cases htext
    · exact ⟨Nat.one_pos, .inl ⟨⟨hret.1, hret.2, _, hread⟩, rfl, rfl⟩⟩
    · exact ⟨List.length_pos_iff.2 (List.splitOn_ne_nil _ _),
        .inl ⟨⟨hret.1, hret.2, _, hread⟩, rfl, rfl⟩⟩
  next hret =>
    have hnot : ¬ Opens ed e := fun hopens ↦ hret ⟨hopens.1, hopens.2.1⟩
    split <;> exact ⟨h, .inr ⟨hnot, hmode⟩⟩

/-- Every event leaves the cursor in its lines. -/
theorem InLines.handleInput (h : ed.InLines) (e : Event) :
    ∃ ed', ed.handleInput e = some ed' ∧ ed'.InLines := by
  cases hmode : ed.mode with
  | inputName =>
    obtain ⟨ed', heq, hlines, -⟩ := h.name (e := e) hmode
    exact ⟨ed', heq, hlines⟩
  | edit =>
    by_cases hesc : e.key = .escape
    · obtain ⟨ed', heq, hlines, -⟩ := edit_escape hmode hesc
      exact ⟨ed', heq, hlines⟩
    · obtain ⟨ed', heq, hlines, -⟩ := h.edit hmode hesc
      exact ⟨ed', heq, hlines⟩

theorem call_of_handleInput (h : ed.handleInput e = some ed') : ed.call e = (ed', false) := by
  rw [call, h]

theorem inLines_init : InLines .init := Nat.one_pos

theorem InLines.call (h : ed.InLines) (e : Event) : (ed.call e).1.InLines := by
  obtain ⟨ed', heq, hlines⟩ := h.handleInput e
  rw [call_of_handleInput heq]
  exact hlines

/-- **In every session the cursor is in one of the lines.** -/
theorem inLines_of_reachable {s : Calls.State TextEditor} (h : session.Reachable s) :
    s.object.InLines :=
  Calls.object_of_reachable (fun _ hinit ↦ hinit ▸ inLines_init) (fun _ e hlines ↦ hlines.call e) h

/-! ### The cursor's line stays on the screen -/

/-- While a text is edited, the cursor's line is one of the thirteen that are drawn. -/
def RowShown (ed : TextEditor) : Prop := ed.mode = .edit → ed.view.OnScreen 13

/-- A line is not broken at the lower end of the screen, and not joined to the one above it at an
upper end that is not the first line; and a file is opened where the first line is drawn. -/
def Keeps (ed : TextEditor) (e : Event) : Prop :=
  match ed.mode with
  | .edit =>
    (e.key = .ret → ed.cursorY + 1 < ed.scroll + 13) ∧
      (e.key = .backspace → ed.cursorX = 0 → ed.scroll = 0 ∨ ed.scroll < ed.cursorY)
  | .inputName => Opens ed e → ed.scroll = 0

theorem onScreen_editView_iff (h : ed.view.OnScreen 13) :
    (ed.editView e).OnScreen 13 ↔ (e.key = .ret → ed.cursorY + 1 < ed.scroll + 13) ∧
      (e.key = .backspace → ed.cursorX = 0 → ed.scroll = 0 ∨ ed.scroll < ed.cursorY) := by
  have hle : ed.scroll ≤ ed.cursorY := h.1
  rw [editView]
  cases hkey : e.key with
  | ret =>
    have hiff : ({ ed.view with selected := ed.cursorY + 1 } : ListView).OnScreen 13 ↔
        ed.cursorY + 1 < ed.scroll + 13 :=
      ⟨fun hscreen ↦ hscreen.2, fun hlt ↦ ⟨Nat.le_succ_of_le hle, hlt⟩⟩
    simpa using hiff
  | backspace =>
    dsimp only
    by_cases hx : ed.cursorX = 0
    · rw [if_pos hx, ListView.onScreen_back_iff h]
      simp [hx, view]
    · rw [if_neg hx]
      exact iff_of_true h (by simp [hx])
  | up => exact iff_of_true h.up (by simp)
  | down => exact iff_of_true (h.down _) (by simp)
  | escape | s | left | right | other => exact iff_of_true h (by simp)

/-- **An event leaves the cursor's line on the screen exactly if it keeps it there.** -/
theorem rowShown_call_iff (h : ed.InLines) (hshown : ed.RowShown) (e : Event) :
    (ed.call e).1.RowShown ↔ ed.Keeps e := by
  cases hmode : ed.mode with
  | inputName =>
    obtain ⟨ed', heq, -, hcase⟩ := h.name (e := e) hmode
    have hkeeps : ed.Keeps e ↔ (Opens ed e → ed.scroll = 0) := by
      rw [Keeps, hmode]
    rw [call_of_handleInput heq, hkeeps]
    rcases hcase with ⟨hopens, hmode', hview⟩ | ⟨hnot, hmode'⟩
    · rw [RowShown, hview]
      refine ⟨fun hrow _ ↦ Nat.le_zero.1 (hrow hmode').1, fun hzero _ ↦ ?_⟩
      rw [hzero hopens]
      exact ListView.onScreen_top (by decide)
    · refine iff_of_true (fun hedit ↦ ?_) fun hopens ↦ absurd hopens hnot
      cases hmode'.symm.trans hedit
  | edit =>
    have hkeeps : ed.Keeps e ↔ (ed.editView e).OnScreen 13 := by
      rw [Keeps, hmode, onScreen_editView_iff (hshown hmode)]
    rw [hkeeps]
    by_cases hesc : e.key = .escape
    · obtain ⟨ed', heq, -, hmode'⟩ := edit_escape hmode hesc
      rw [call_of_handleInput heq]
      refine iff_of_true (fun hedit ↦ ?_) ?_
      · cases hmode'.symm.trans hedit
      · rw [editView, hesc]
        exact hshown hmode
    · obtain ⟨ed', heq, -, hmode', hview⟩ := h.edit hmode hesc
      rw [call_of_handleInput heq, RowShown, hview]
      exact ⟨fun hrow ↦ hrow (hmode'.trans hmode), fun hrow _ ↦ hrow⟩

theorem rowShown_iff (es : List Event) :
    session.Guarded (fun s e ↦ s.object.Keeps e) (Calls.start .init) es ↔
      ∀ n u, session.run (Calls.start .init) (es.take n) = some u → u.object.RowShown := by
  refine Calls.guarded_object_iff (I := RowShown) (K := fun ed ↦ ed.InLines ∧ ed.RowShown)
    (fun _ h ↦ h.2) ?_ ?_ ?_ es
  · intro ed e h hok
    exact ⟨h.1.call e, (rowShown_call_iff h.1 h.2 e).2 hok⟩
  · intro ed e h hnot hshown
    exact hnot ((rowShown_call_iff h.1 h.2 e).1 hshown)
  · refine ⟨inLines_init, fun hedit ↦ ?_⟩
    cases hedit

end JuliusOS.Apps.TextEditor
