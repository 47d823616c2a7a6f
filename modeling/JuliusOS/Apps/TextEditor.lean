import JuliusOS.Foundations.FlatText
import JuliusOS.Foundations.Machine
import JuliusOS.Foundations.Python

/-!
# The text editor

`src/apps/texteditor/texteditor.py`: a list of lines, a cursor in one of them, and what every key
does to them. `handleInput` is `none` where an index is out of range. What the file system does when
a file is opened comes with the event, as does the state of the modifier keys.

`editor_refines` says that this is an editor of one text with an offset (`FlatText`), and that no
index is ever out of range: for every session and whatever is typed in it, one character at a time.
-/

open FlatText

namespace JuliusOS.Apps

/-! ### Events -/

/-- The keys that `handle_input` asks for. -/
inductive Key
  | escape
  | s
  | ret
  | backspace
  | left
  | right
  | up
  | down
  | other
deriving DecidableEq

/-- A `KEYDOWN` event, and what the environment does about it. -/
structure Event where
  /-- `event.key`. -/
  key : Key
  /-- `event.unicode`. -/
  unicode : List ℕ
  /-- Whether `KMOD_CTRL` is held. -/
  ctrl : Bool
  /-- Whether a file can be written, or the text of the exception. -/
  write : Except (List ℕ) Unit
  /-- What a file holds, if there is one, or the text of the exception. -/
  read : Except (List ℕ) (Option (List ℕ))

/-- A newline. -/
abbrev newlineChar : ℕ := 10

/-- One character at most, and no newline. -/
structure Event.Typed (e : Event) : Prop where
  /-- One character at most. -/
  short : e.unicode.length ≤ 1
  /-- No newline. -/
  notMem : newlineChar ∉ e.unicode

/-! ### The editor -/

/-- `self.mode`. -/
inductive Mode
  | inputName
  | edit
deriving DecidableEq

/-- A `TextEditor`. -/
structure TextEditor where
  /-- `lines`. -/
  lines : List (List ℕ)
  /-- `cursor_x`. -/
  cursorX : ℕ
  /-- `cursor_y`. -/
  cursorY : ℕ
  /-- `scroll`. -/
  scroll : ℕ
  /-- `filename`. -/
  filename : List ℕ
  /-- `mode`. -/
  mode : Mode
  /-- `status`. -/
  status : List ℕ
  /-- `modified`. -/
  modified : Bool

namespace TextEditor

/-- `TextEditor.__init__`. -/
def init : TextEditor :=
  ⟨[[]], 0, 0, 0, [], .inputName, Python.str "Enter filename", false⟩

variable (ed : TextEditor)

/-- `current_line`. -/
def currentLine : Option (List ℕ) := ed.lines[ed.cursorY]?

/-- `insert_char`. -/
def insertChar (ch : List ℕ) : Option TextEditor :=
  ed.currentLine.map fun line ↦
    { ed with
      lines := ed.lines.set ed.cursorY (line.take ed.cursorX ++ ch ++ line.drop ed.cursorX)
      cursorX := ed.cursorX + 1
      modified := true }

/-- `backspace`. -/
def backspace : Option TextEditor :=
  if 0 < ed.cursorX then
    ed.currentLine.map fun line ↦
      { ed with
        lines := ed.lines.set ed.cursorY (line.take (ed.cursorX - 1) ++ line.drop ed.cursorX)
        cursorX := ed.cursorX - 1
        modified := true }
  else if 0 < ed.cursorY then
    (ed.lines[ed.cursorY - 1]?).bind fun prev ↦
      ed.currentLine.map fun line ↦
        { ed with
          lines := (ed.lines.set (ed.cursorY - 1) (prev ++ line)).eraseIdx ed.cursorY
          cursorX := prev.length
          cursorY := ed.cursorY - 1
          modified := true }
  else some ed

/-- `newline`. -/
def newline : Option TextEditor :=
  ed.currentLine.map fun line ↦
    { ed with
      lines := (ed.lines.set ed.cursorY (line.take ed.cursorX)).insertIdx (ed.cursorY + 1)
        (line.drop ed.cursorX)
      cursorX := 0
      cursorY := ed.cursorY + 1
      modified := true }

/-- `save`. -/
def save : Except (List ℕ) Unit → TextEditor
  | .ok () => { ed with status := Python.str "Saved " ++ ed.filename, modified := false }
  | .error e => { ed with status := Python.str "Error: " ++ e }

/-- `load`. -/
def load : Except (List ℕ) (Option (List ℕ)) → TextEditor
  | .ok (some text) =>
    { ed with
      lines := text.splitOn newlineChar
      status := Python.str "Opened " ++ ed.filename
      cursorX := 0
      cursorY := 0
      mode := .edit }
  | .ok none =>
    { ed with
      lines := [[]]
      status := Python.str "New file: " ++ ed.filename
      cursorX := 0
      cursorY := 0
      mode := .edit }
  | .error e => { ed with status := Python.str "Error: " ++ e }

/-- `handle_input` while a name is typed. -/
def handleName (e : Event) : TextEditor :=
  if e.key = .ret ∧ ed.filename ≠ [] then ed.load e.read
  else match e.key with
    | .backspace => { ed with filename := ed.filename.dropLast }
    | .escape => { ed with filename := [] }
    | _ => { ed with filename := ed.filename ++ e.unicode }

/-- The column in the line that the cursor has moved to, and whether there is such a line. -/
def moveTo (y : ℕ) : Option TextEditor :=
  (ed.lines[y]?).map fun line ↦ { ed with cursorX := min ed.cursorX line.length, cursorY := y }

/-- `handle_input` while a text is edited. -/
def handleEdit (e : Event) : Option TextEditor :=
  match e.key with
  | .escape =>
    some { ed with mode := .inputName, filename := [], lines := [[]], cursorX := 0, cursorY := 0 }
  | .ret => ed.newline
  | .backspace => ed.backspace
  | .left => some { ed with cursorX := ed.cursorX - 1 }
  | .right =>
    ed.currentLine.map fun line ↦ { ed with cursorX := min line.length (ed.cursorX + 1) }
  | .up =>
    (if 0 < ed.cursorY then ed.moveTo (ed.cursorY - 1) else some ed).map fun ed ↦
      { ed with scroll := if ed.cursorY < ed.scroll then ed.scroll - 1 else ed.scroll }
  | .down =>
    (if ed.cursorY < ed.lines.length - 1 then ed.moveTo (ed.cursorY + 1) else some ed).map fun ed ↦
      { ed with scroll := if ed.scroll + 13 ≤ ed.cursorY then ed.scroll + 1 else ed.scroll }
  | .s | .other =>
    if e.key = .s ∧ e.ctrl then some (ed.save e.write)
    else if e.unicode ≠ [] then ed.insertChar e.unicode
    else some ed

/-- `handle_input`. -/
def handleInput (e : Event) : Option TextEditor :=
  match ed.mode with
  | .inputName => some (ed.handleName e)
  | .edit => ed.handleEdit e

/-- The text: the lines joined with newlines, and where the cursor is in it. -/
def flat : Flat ℕ where
  text := [newlineChar].intercalate ed.lines
  offset := ((ed.lines.take ed.cursorY).flatMap fun line ↦ line ++ [newlineChar]).length +
    ed.cursorX

/-- The cursor is in one of the lines. -/
structure InBounds : Prop where
  /-- There is a line. -/
  lines : ed.lines ≠ []
  /-- The cursor's line is one of them. -/
  cursorY : ed.cursorY < ed.lines.length
  /-- The column is in it. -/
  cursorX : ∀ line, ed.lines[ed.cursorY]? = some line → ed.cursorX ≤ line.length

end TextEditor

/-- The editor as a machine that is given events. -/
def editor : Machine TextEditor { e : Event // e.Typed } where
  Init ed := ed = .init
  step ed e := ed.handleInput e

/-! ### One text with an offset -/

/-- What a key does to a text with an offset. -/
def press (s : Flat ℕ) (e : Event) : Flat ℕ :=
  match e.key with
  | .escape => ⟨[], 0⟩
  | .ret => s.insert newlineChar
  | .backspace => s.deleteBack
  | .left => s.left newlineChar
  | .right => s.right newlineChar
  | .up => s.up newlineChar
  | .down => s.down newlineChar
  | .s | .other => if e.key = .s ∧ e.ctrl then s else e.unicode.foldl Flat.insert s

/-! ### The editor's lines as one text -/

variable {ed ed' : TextEditor} {s : Flat ℕ} {e : Event} {pre post : List (List ℕ)} {line : List ℕ}

/-- The editor's lines, those in front of the cursor's line and those behind it. -/
structure Shows (ed : TextEditor) (pre : List (List ℕ)) (line : List ℕ) (post : List (List ℕ)) :
    Prop where
  /-- The lines. -/
  lines : ed.lines = pre ++ line :: post
  /-- The cursor's line. -/
  cursorY : ed.cursorY = pre.length
  /-- The column is in the line. -/
  cursorX : ed.cursorX ≤ line.length
  /-- No line contains a newline. -/
  notMem : ∀ l ∈ pre ++ line :: post, newlineChar ∉ l

/-- The editor shows a text with an offset. -/
def Refines (ed : TextEditor) (s : Flat ℕ) : Prop :=
  ∃ pre line post, Shows ed pre line post ∧ place newlineChar pre line post ed.cursorX = s

theorem Shows.flat_eq (h : Shows ed pre line post) :
    ed.flat = place newlineChar pre line post ed.cursorX := by
  have htake : ed.lines.take ed.cursorY = pre := by rw [h.lines, h.cursorY, List.take_left]
  rw [TextEditor.flat, htake, h.lines, intercalate_eq]
  rfl

theorem Refines.flat_eq (h : Refines ed s) : ed.flat = s := by
  obtain ⟨pre, line, post, hshows, rfl⟩ := h
  exact hshows.flat_eq

theorem Shows.currentLine (h : Shows ed pre line post) : ed.currentLine = some line := by
  rw [TextEditor.currentLine, h.lines, h.cursorY]
  simp

theorem Refines.inBounds (h : Refines ed s) : ed.InBounds := by
  obtain ⟨pre, line, post, hshows, -⟩ := h
  refine ⟨by simp [hshows.lines], by simp [hshows.lines, hshows.cursorY], fun l hl ↦ ?_⟩
  obtain rfl := Option.some.inj (hshows.currentLine.symm.trans hl)
  exact hshows.cursorX

theorem Shows.line_notMem (h : Shows ed pre line post) : newlineChar ∉ line :=
  h.notMem line (by simp)

/-- The cursor's line is exchanged for another text without newlines. -/
theorem Shows.exchange (h : Shows ed pre line post) {l : List ℕ}
    (hlines : ed'.lines = ed.lines.set ed.cursorY l) (hy : ed'.cursorY = ed.cursorY)
    (hx : ed'.cursorX ≤ l.length) (hl : newlineChar ∉ l) : Shows ed' pre l post where
  lines := by
    rw [hlines, h.lines, h.cursorY]
    simp
  cursorY := hy.trans h.cursorY
  cursorX := hx
  notMem := by
    have hall := h.notMem
    rw [List.forall_mem_append, List.forall_mem_cons] at hall ⊢
    exact ⟨hall.1, hl, hall.2.2⟩

theorem insertIdx_eq (pre post : List (List ℕ)) (l l' : List ℕ) :
    (pre ++ l :: post).insertIdx (pre.length + 1) l' = pre ++ l :: l' :: post := by
  induction pre with
  | nil => rfl
  | cons l pre ih => exact congrArg (l :: ·) ih

theorem eraseIdx_eq (pre post : List (List ℕ)) (l l' : List ℕ) :
    (pre ++ l :: l' :: post).eraseIdx (pre.length + 1) = pre ++ l :: post := by
  induction pre with
  | nil => rfl
  | cons l pre ih => exact congrArg (l :: ·) ih

theorem not_mem_take {l : List ℕ} (h : newlineChar ∉ l) (n : ℕ) : newlineChar ∉ l.take n :=
  fun hmem ↦ h (List.mem_of_mem_take hmem)

theorem not_mem_drop {l : List ℕ} (h : newlineChar ∉ l) (n : ℕ) : newlineChar ∉ l.drop n :=
  fun hmem ↦ h (List.mem_of_mem_drop hmem)

/-! ### One lemma for each operation -/

/-- What an operation comes to: a state that shows `s`, in the same mode. -/
def Yields (ed : TextEditor) (result : Option TextEditor) (s : Flat ℕ) : Prop :=
  ∃ ed', result = some ed' ∧ Refines ed' s ∧ ed'.mode = ed.mode

theorem Refines.insertChar (h : Refines ed s) {c : ℕ} (hc : c ≠ newlineChar) :
    Yields ed (ed.insertChar [c]) (s.insert c) := by
  obtain ⟨pre, line, post, hshows, rfl⟩ := h
  have hx := hshows.cursorX
  rw [insert_place hx]
  refine ⟨_, congrArg (Option.map _) hshows.currentLine, ⟨pre, _, post,
    hshows.exchange rfl rfl ?_ ?_, by simp⟩, rfl⟩
  · simp only [List.length_append, List.length_take, List.length_singleton, List.length_drop]
    omega
  · simp only [List.mem_append, List.mem_singleton, not_or]
    exact ⟨⟨not_mem_take hshows.line_notMem _, hc.symm⟩, not_mem_drop hshows.line_notMem _⟩

theorem Refines.newline (h : Refines ed s) : Yields ed ed.newline (s.insert newlineChar) := by
  obtain ⟨pre, line, post, hshows, rfl⟩ := h
  rw [newline_place hshows.cursorX]
  refine ⟨_, congrArg (Option.map _) hshows.currentLine, ⟨pre ++ [line.take ed.cursorX],
    line.drop ed.cursorX, post, ⟨?_, ?_, Nat.zero_le _, ?_⟩, rfl⟩, rfl⟩
  · show (ed.lines.set ed.cursorY _).insertIdx (ed.cursorY + 1) _ = _
    rw [hshows.lines, hshows.cursorY, List.append_assoc, List.singleton_append, ← insertIdx_eq]
    simp
  · show ed.cursorY + 1 = _
    rw [hshows.cursorY, List.length_append, List.length_singleton]
  · have hall := hshows.notMem
    rw [List.forall_mem_append, List.forall_mem_cons] at hall
    rw [List.forall_mem_append, List.forall_mem_cons, List.forall_mem_append,
      List.forall_mem_singleton]
    exact ⟨⟨hall.1, not_mem_take hall.2.1 _⟩, not_mem_drop hall.2.1 _, hall.2.2⟩

/-- Where the line above the cursor's is. -/
theorem Shows.above {above : List ℕ} (h : Shows ed (pre ++ [above]) line post) :
    ed.cursorY = pre.length + 1 ∧ ed.lines = pre ++ above :: line :: post ∧
      ed.lines[ed.cursorY - 1]? = some above := by
  have hy : ed.cursorY = pre.length + 1 := by
    rw [h.cursorY, List.length_append, List.length_singleton]
  have hlines : ed.lines = pre ++ above :: line :: post := by
    rw [h.lines, List.append_assoc, List.singleton_append]
  refine ⟨hy, hlines, ?_⟩
  rw [hlines, hy]
  simp

/-- The cursor's line is joined to the one above it. -/
theorem Shows.join {above : List ℕ} (h : Shows ed (pre ++ [above]) line post)
    (hlines : ed'.lines = (ed.lines.set (ed.cursorY - 1) (above ++ line)).eraseIdx ed.cursorY)
    (hx : ed'.cursorX = above.length) (hy : ed'.cursorY = ed.cursorY - 1) :
    Shows ed' pre (above ++ line) post := by
  obtain ⟨hcursor, habove, -⟩ := h.above
  constructor
  · rw [hlines, habove, hcursor, Nat.add_sub_cancel, List.set_append_right _ _ (Nat.le_refl _),
      Nat.sub_self, List.set_cons_zero, eraseIdx_eq]
  · rw [hy, hcursor, Nat.add_sub_cancel]
  · rw [hx, List.length_append]
    exact Nat.le_add_right _ _
  · have hall := h.notMem
    rw [List.append_assoc, List.singleton_append, List.forall_mem_append, List.forall_mem_cons,
      List.forall_mem_cons] at hall
    rw [List.forall_mem_append, List.forall_mem_cons, List.mem_append, not_or]
    exact ⟨hall.1, ⟨hall.2.1, hall.2.2.1⟩, hall.2.2.2⟩

theorem Refines.backspace (h : Refines ed s) : Yields ed ed.backspace s.deleteBack := by
  obtain ⟨pre, line, post, hshows, rfl⟩ := h
  have hx := hshows.cursorX
  rcases Nat.eq_zero_or_pos ed.cursorX with hzero | hpos
  · rcases List.eq_nil_or_concat' pre with rfl | ⟨pre, above, rfl⟩
    -- at the start of the text
    · have hy : ed.cursorY = 0 := hshows.cursorY
      rw [hzero, deleteBack_nil, ← hzero, TextEditor.backspace, if_neg (by omega),
        if_neg (by omega)]
      exact ⟨ed, rfl, ⟨[], line, post, hshows, rfl⟩, rfl⟩
    -- at the start of a line
    · obtain ⟨hy, -, habove⟩ := hshows.above
      rw [hzero, deleteBack_concat, TextEditor.backspace, if_neg (by omega), if_pos (by omega),
        habove, Option.bind_some]
      exact ⟨_, congrArg (Option.map _) hshows.currentLine, ⟨pre, above ++ line, post,
        hshows.join rfl rfl rfl, rfl⟩, rfl⟩
  -- inside a line
  · rw [deleteBack_place hx hpos, TextEditor.backspace, if_pos hpos]
    refine ⟨_, congrArg (Option.map _) hshows.currentLine, ⟨pre, _, post,
      hshows.exchange rfl rfl ?_ ?_, rfl⟩, rfl⟩
    · simp only [List.length_append, List.length_take, List.length_drop]
      omega
    · rw [List.mem_append, not_or]
      exact ⟨not_mem_take hshows.line_notMem _, not_mem_drop hshows.line_notMem _⟩

/-- The cursor moves within its line. -/
theorem Shows.column (h : Shows ed pre line post) {x : ℕ} (hx : x ≤ line.length) :
    Yields ed (some { ed with cursorX := x }) (place newlineChar pre line post x) :=
  ⟨_, rfl, ⟨pre, line, post, ⟨h.lines, h.cursorY, hx, h.notMem⟩, rfl⟩, rfl⟩

theorem Refines.left (h : Refines ed s) :
    Yields ed (some { ed with cursorX := ed.cursorX - 1 }) (s.left newlineChar) := by
  obtain ⟨pre, line, post, hshows, rfl⟩ := h
  rw [left_place hshows.cursorX hshows.line_notMem]
  exact hshows.column ((Nat.sub_le _ 1).trans hshows.cursorX)

theorem Refines.right (h : Refines ed s) :
    Yields ed
      (ed.currentLine.map fun line ↦ { ed with cursorX := min line.length (ed.cursorX + 1) })
      (s.right newlineChar) := by
  obtain ⟨pre, line, post, hshows, rfl⟩ := h
  rw [right_place hshows.cursorX hshows.line_notMem, hshows.currentLine, Option.map_some]
  exact hshows.column (Nat.min_le_left _ _)

/-- Another value of `scroll` shows the same. -/
theorem Yields.scroll {result : Option TextEditor} (h : Yields ed result s)
    (f : TextEditor → ℕ) :
    Yields ed (result.map fun ed ↦ { ed with scroll := f ed }) s := by
  obtain ⟨ed', rfl, ⟨pre, line, post, hshows, hs⟩, hmode⟩ := h
  exact ⟨_, rfl, ⟨pre, line, post, ⟨hshows.lines, hshows.cursorY, hshows.cursorX, hshows.notMem⟩,
    hs⟩, hmode⟩

theorem Refines.up (h : Refines ed s) :
    Yields ed (if 0 < ed.cursorY then ed.moveTo (ed.cursorY - 1) else some ed)
      (s.up newlineChar) := by
  obtain ⟨pre, line, post, hshows, rfl⟩ := h
  have hx := hshows.cursorX
  rcases List.eq_nil_or_concat' pre with rfl | ⟨pre, above, rfl⟩
  · have hy : ed.cursorY = 0 := hshows.cursorY
    rw [if_neg (by omega), up_nil hx hshows.line_notMem]
    exact ⟨ed, rfl, ⟨[], line, post, hshows, rfl⟩, rfl⟩
  · obtain ⟨hy, hlines, habove⟩ := hshows.above
    have hnotMem : ∀ l ∈ pre ++ above :: line :: post, newlineChar ∉ l :=
      hlines ▸ hshows.lines.symm ▸ hshows.notMem
    rw [if_pos (by omega), up_concat hx hshows.line_notMem (hnotMem above (by simp)),
      TextEditor.moveTo, habove, Option.map_some]
    exact ⟨_, rfl, ⟨pre, above, line :: post, ⟨hlines, by simp [hy], Nat.min_le_right _ _, hnotMem⟩,
      rfl⟩, rfl⟩

theorem Refines.down (h : Refines ed s) :
    Yields ed (if ed.cursorY < ed.lines.length - 1 then ed.moveTo (ed.cursorY + 1) else some ed)
      (s.down newlineChar) := by
  obtain ⟨pre, line, post, hshows, rfl⟩ := h
  have hx := hshows.cursorX
  cases post with
  | nil =>
    rw [if_neg (by simp [hshows.lines, hshows.cursorY]), down_nil hx hshows.line_notMem]
    exact ⟨ed, rfl, ⟨pre, line, [], hshows, rfl⟩, rfl⟩
  | cons below post =>
    have hlines : ed.lines = (pre ++ [line]) ++ below :: post := by
      rw [hshows.lines, List.append_assoc, List.singleton_append]
    have hnotMem : ∀ l ∈ (pre ++ [line]) ++ below :: post, newlineChar ∉ l :=
      hlines ▸ hshows.lines.symm ▸ hshows.notMem
    have hbelow : ed.lines[ed.cursorY + 1]? = some below := by
      rw [hshows.lines, hshows.cursorY]
      simp
    rw [if_pos (by simp [hshows.lines, hshows.cursorY]),
      down_cons hx hshows.line_notMem (hnotMem below (by simp)), TextEditor.moveTo, hbelow,
      Option.map_some]
    exact ⟨_, rfl, ⟨pre ++ [line], below, post, ⟨hlines, by simp [hshows.cursorY],
      Nat.min_le_right _ _, hnotMem⟩, rfl⟩, rfl⟩

/-! ### Every key -/

/-- Only the lines and the cursor count. -/
theorem Refines.of_eq (h : Refines ed s) (hlines : ed'.lines = ed.lines)
    (hx : ed'.cursorX = ed.cursorX) (hy : ed'.cursorY = ed.cursorY) : Refines ed' s := by
  obtain ⟨pre, line, post, hshows, hs⟩ := h
  exact ⟨pre, line, post, ⟨hlines.trans hshows.lines, hy.trans hshows.cursorY,
    hx.trans_le hshows.cursorX, hshows.notMem⟩, by rw [hx, hs]⟩

/-- A key that is none of the others is its character, unless it saves. -/
theorem Refines.character (h : Refines ed s) (htyped : e.Typed) :
    Yields ed (if e.key = .s ∧ e.ctrl then some (ed.save e.write)
      else if e.unicode ≠ [] then ed.insertChar e.unicode else some ed)
      (if e.key = .s ∧ e.ctrl then s else e.unicode.foldl Flat.insert s) := by
  split
  next =>
    rcases hwrite : e.write with msg | ⟨⟩
    · exact ⟨_, rfl, h.of_eq rfl rfl rfl, rfl⟩
    · exact ⟨_, rfl, h.of_eq rfl rfl rfl, rfl⟩
  next =>
    rcases hunicode : e.unicode with - | ⟨c, - | ⟨c', cs⟩⟩
    · exact ⟨ed, rfl, h, rfl⟩
    · have hc : c ≠ newlineChar := fun heq ↦ htyped.notMem (by simp [hunicode, heq])
      exact h.insertChar hc
    · have hshort := htyped.short
      rw [hunicode] at hshort
      simp at hshort

/-- **Every key** does to the lines what it does to the text, and no index is out of range. -/
theorem Refines.edit (h : Refines ed s) (hmode : ed.mode = .edit) (htyped : e.Typed)
    (hesc : e.key ≠ .escape) : Yields ed (ed.handleInput e) (press s e) := by
  have hchar := h.character htyped
  rw [TextEditor.handleInput, hmode]
  show Yields ed (ed.handleEdit e) (press s e)
  rw [TextEditor.handleEdit, press]
  cases hkey : e.key with
  | escape => exact absurd hkey hesc
  | s =>
    rw [hkey] at hchar
    exact hchar
  | ret => exact h.newline
  | backspace => exact h.backspace
  | left => exact h.left
  | right => exact h.right
  | up => exact h.up.scroll _
  | down => exact h.down.scroll _
  | other =>
    rw [hkey] at hchar
    exact hchar

/-! ### Whole sessions -/

/-- Some lines with the cursor at the start of the first of them. -/
theorem refines_of_lines (hx : ed.cursorX = 0) (hy : ed.cursorY = 0) (hne : ed.lines ≠ [])
    (hlines : ∀ l ∈ ed.lines, newlineChar ∉ l) :
    Refines ed ⟨[newlineChar].intercalate ed.lines, 0⟩ := by
  obtain ⟨line, post, heq⟩ := List.exists_cons_of_ne_nil hne
  refine ⟨[], line, post, ⟨heq, hy, hx ▸ Nat.zero_le _, heq ▸ hlines⟩, ?_⟩
  rw [heq, hx, ← List.nil_append (line :: post), intercalate_eq]
  rfl

/-- An empty text. -/
theorem refines_empty (hx : ed.cursorX = 0) (hy : ed.cursorY = 0) (hlines : ed.lines = [[]]) :
    Refines ed ⟨[], 0⟩ := by
  have hempty : ∀ l ∈ ed.lines, newlineChar ∉ l := by
    rw [hlines]
    exact List.forall_mem_singleton.2 List.not_mem_nil
  have hrefines := refines_of_lines hx hy (by simp [hlines]) hempty
  rwa [hlines] at hrefines

/-- A file that is opened is shown from its start. -/
theorem refines_load (text : List ℕ) : Refines (ed.load (.ok (some text))) ⟨text, 0⟩ := by
  have hrefines : Refines (ed.load (.ok (some text))) _ := refines_of_lines rfl rfl
    (List.splitOn_ne_nil _ _) fun l hl ↦ notMem_of_mem_splitOn hl
  rwa [show (ed.load (.ok (some text))).lines = text.splitOn newlineChar from rfl,
    List.intercalate_splitOn] at hrefines

/-- While a name is typed the editor shows a text as well. -/
theorem Refines.handleName (h : Refines ed s) : ∃ s', Refines (ed.handleName e) s' := by
  rw [TextEditor.handleName]
  split
  next =>
    rcases e.read with msg | - | text
    · exact ⟨s, h.of_eq rfl rfl rfl⟩
    · exact ⟨⟨[], 0⟩, refines_empty rfl rfl rfl⟩
    · exact ⟨⟨text, 0⟩, refines_load text⟩
  next => split <;> exact ⟨s, h.of_eq rfl rfl rfl⟩

/-- The step lemma: every event leaves the editor with some text to show. -/
theorem exists_refines_step (h : Refines ed s) (htyped : e.Typed) :
    ∃ ed' s', ed.handleInput e = some ed' ∧ Refines ed' s' := by
  cases hmode : ed.mode with
  | inputName =>
    obtain ⟨s', hs'⟩ := h.handleName (e := e)
    exact ⟨_, s', by rw [TextEditor.handleInput, hmode], hs'⟩
  | edit =>
    by_cases hesc : e.key = .escape
    · have hleft : ed.handleInput e = some { ed with
          mode := .inputName
          filename := []
          lines := [[]]
          cursorX := 0
          cursorY := 0 } := by
        rw [TextEditor.handleInput, hmode]
        show ed.handleEdit e = _
        rw [TextEditor.handleEdit, hesc]
      exact ⟨_, ⟨[], 0⟩, hleft, refines_empty rfl rfl rfl⟩
    · obtain ⟨ed', hed', hrefines, -⟩ := h.edit hmode htyped hesc
      exact ⟨ed', _, hed', hrefines⟩

/-- **In every session** the editor shows some text. -/
theorem exists_refines (hreach : editor.Reachable ed) : ∃ s, Refines ed s := by
  refine hreach.induction (I := fun ed ↦ ∃ s, Refines ed s) ?_ ?_
  · rintro ed rfl
    exact ⟨⟨[], 0⟩, refines_empty rfl rfl rfl⟩
  · rintro ed e ed' ⟨s, hs⟩ hstep
    obtain ⟨ed'', s', heq, hs'⟩ := exists_refines_step hs e.2
    obtain rfl := Option.some.inj (hstep.symm.trans heq)
    exact ⟨s', hs'⟩

/-- Keys pressed one after the other. -/
theorem Refines.run {es : List { e : Event // e.Typed }} (h : Refines ed s)
    (hmode : ed.mode = .edit) (hesc : ∀ e ∈ es, e.1.key ≠ .escape) :
    ∃ ed', editor.run ed es = some ed' ∧ ed'.mode = .edit ∧
      Refines ed' (es.foldl (fun s e ↦ press s e.1) s) := by
  induction es generalizing ed s with
  | nil => exact ⟨ed, rfl, hmode, h⟩
  | cons e es ih =>
    rw [List.forall_mem_cons] at hesc
    obtain ⟨ed₁, hstep, hrefines, hmode₁⟩ := h.edit hmode e.2 hesc.1
    obtain ⟨ed', hrun, hmode', hrefines'⟩ := ih hrefines (hmode₁.trans hmode) hesc.2
    exact ⟨ed', (Machine.run_cons_eq_some _).2 ⟨ed₁, hstep, hrun⟩, hmode', hrefines'⟩

/-- **The editor is an editor of one text with an offset.** From every state of a session in which
a text is edited, and for all keys that are pressed then: the lines joined with newlines and the
cursor's place in them are what the keys make of one text with an offset, and the cursor is always
in one of the lines. -/
theorem editor_refines (hreach : editor.Reachable ed) (hmode : ed.mode = .edit)
    {es : List { e : Event // e.Typed }} (hesc : ∀ e ∈ es, e.1.key ≠ .escape) :
    ∃ ed', editor.run ed es = some ed' ∧ ed'.mode = .edit ∧
      ed'.flat = es.foldl (fun s e ↦ press s e.1) ed.flat ∧ ed'.InBounds := by
  obtain ⟨s, hs⟩ := exists_refines hreach
  obtain ⟨ed', hrun, hmode', hrefines⟩ := hs.run hmode hesc
  exact ⟨ed', hrun, hmode', by rw [hrefines.flat_eq, hs.flat_eq], hrefines.inBounds⟩

/-! ### A session -/

/-- A key without a character. -/
def Event.ofKey (key : Key) : { e : Event // e.Typed } :=
  ⟨⟨key, [], false, .ok (), .ok none⟩, ⟨Nat.zero_le _, List.not_mem_nil⟩⟩

/-- A key with the character `a`. -/
def Event.letter : { e : Event // e.Typed } :=
  ⟨⟨.other, [97], false, .ok (), .ok none⟩, ⟨Nat.le_refl _, by decide⟩⟩

/-- A new file named `a` is opened. -/
def opened : TextEditor :=
  ⟨[[]], 0, 0, 0, [97], .edit, Python.str "New file: " ++ [97], false⟩

theorem opened_reachable : editor.Reachable opened :=
  ⟨.init, [Event.letter, Event.ofKey .ret], rfl, rfl⟩

/-- An `a`, a newline and the cursor back at the end of the first line. -/
theorem editor_refines_opened :
    ∃ ed', editor.run opened [Event.letter, Event.ofKey .ret, Event.ofKey .up] = some ed' ∧
      ed'.flat = ⟨[97, newlineChar], 0⟩ ∧ ed'.InBounds := by
  have hesc : ∀ e ∈ [Event.letter, Event.ofKey .ret, Event.ofKey .up], e.1.key ≠ .escape := by
    decide
  obtain ⟨ed', hrun, -, hflat, hbounds⟩ := editor_refines opened_reachable rfl hesc
  exact ⟨ed', hrun, hflat, hbounds⟩

end JuliusOS.Apps
