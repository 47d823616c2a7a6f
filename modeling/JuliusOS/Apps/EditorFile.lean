import JuliusOS.Apps.EditorSession
import JuliusOS.Foundations.TextFile

/-!
# What the text editor saves

`save` opens the file for writing, which empties it, and then writes the lines joined with newlines.
An error that comes after the first step, a surrogate that cannot be encoded among them, is reported
and leaves a file that has lost what it had. What is written is read with every carriage return
turned into a newline, and the keys can put carriage returns into a line.

`saveSound_iff` says in which cases a save is as it should be.
-/

namespace JuliusOS.Apps.TextEditor

/-- How the writing of a file goes. -/
inductive Writing
  /-- The file cannot be opened. -/
  | unopened (e : List ℕ)
  /-- It is opened and everything is written. -/
  | written
  /-- It is opened, and an error comes when some of the bytes are in it. -/
  | failed (e : List ℕ) (kept : ℕ)

/-- The texts of the exceptions of Python's codec. -/
structure CodecErrors where
  encode : List ℕ → List ℕ
  decode : Bytes → List ℕ

variable (errors : CodecErrors)

/-- `"\n".join(self.lines)`. -/
def text (ed : TextEditor) : List ℕ := [newlineChar].intercalate ed.lines

/-- `save`, with the file before it and after it. -/
def saveTo (ed : TextEditor) (file : Option Bytes) : Writing → TextEditor × Option Bytes
  | .unopened e => (ed.save (.error e), file)
  | .written =>
    match TextFile.encode ed.text with
    | some content => (ed.save (.ok ()), some content)
    | none => (ed.save (.error (errors.encode ed.text)), some [])
  | .failed e kept =>
    match TextFile.encode ed.text with
    | some content => (ed.save (.error e), some (content.take kept))
    | none => (ed.save (.error (errors.encode ed.text)), some [])

/-- What `load` finds. -/
def readFile : Option Bytes → Except (List ℕ) (Option (List ℕ))
  | none => .ok none
  | some content =>
    match TextFile.decode content with
    | some text => .ok (some text)
    | none => .error (errors.decode content)

/-- The status reports an error. -/
def ReportsError (ed : TextEditor) : Prop := Python.str "Error: " <+: ed.status

/-- Loading the file succeeds and yields some lines. -/
def Loads (ed : TextEditor) (file : Option Bytes) (lines : List (List ℕ)) : Prop :=
  ∃ found, readFile errors file = .ok found ∧ (ed.load (.ok found)).lines = lines

/-- What is promised of a save: an error is reported and the file is what it was, or nothing counts
as modified and the file loads as the lines that were saved. -/
def SaveSound (ed : TextEditor) (file : Option Bytes) (w : Writing) : Prop :=
  let saved := ed.saveTo errors file w
  ReportsError saved.1 ∧ saved.2 = file ∨
    saved.1.modified = false ∧ Loads errors saved.1 saved.2 ed.lines

/-- When a save is as promised. Once the file is open, the lines have to be clean and everything has
to be written; what an error leaves is right only by chance. -/
def SavesWhole (ed : TextEditor) (file : Option Bytes) : Writing → Prop
  | .unopened _ => True
  | .written =>
    match TextFile.encode ed.text with
    | some _ => TextFile.Clean ed.lines
    | none => file = some []
  | .failed _ kept =>
    match TextFile.encode ed.text with
    | some content => file = some (content.take kept) ∨
        ed.modified = false ∧ TextFile.Clean ed.lines ∧ content.length ≤ kept
    | none => file = some []

variable {errors} {ed : TextEditor} {file : Option Bytes} {s : List Char}

/-! ### What is reported, and what is loaded -/

theorem reportsError_error (ed : TextEditor) (e : List ℕ) : ReportsError (ed.save (.error e)) :=
  List.prefix_append _ _

theorem not_reportsError_ok (ed : TextEditor) : ¬ ReportsError (ed.save (.ok ())) := by
  rintro ⟨rest, hrest⟩
  have hhead := congrArg List.head? hrest
  cases hhead

/-- An empty file loads as one empty line. -/
theorem loads_empty {ed' : TextEditor} {lines : List (List ℕ)} :
    Loads errors ed' (some []) lines ↔ [[]] = lines := by
  refine ⟨?_, fun hlines ↦ ⟨some [], rfl, hlines⟩⟩
  rintro ⟨found, hread, hlines⟩
  obtain rfl := Except.ok.inj hread
  exact hlines

theorem loads_some {ed' : TextEditor} {content : Bytes} {lines : List (List ℕ)} :
    Loads errors ed' (some content) lines ↔
      ∃ text, TextFile.decode content = some text ∧ text.splitOn 10 = lines := by
  cases hdec : TextFile.decode content with
  | none =>
    have hfile : readFile errors (some content) = .error (errors.decode content) := by
      simp only [readFile, hdec]
    refine iff_of_false ?_ ?_
    · rintro ⟨found, hread, -⟩
      rw [hfile] at hread
      cases hread
    · rintro ⟨text, htext, -⟩
      cases htext
  | some text =>
    have hfile : readFile errors (some content) = .ok (some text) := by
      simp only [readFile, hdec]
    constructor
    · rintro ⟨found, hread, hlines⟩
      rw [hfile] at hread
      obtain rfl := Except.ok.inj hread
      exact ⟨text, rfl, hlines⟩
    · rintro ⟨text', htext, hlines⟩
      obtain rfl := Option.some.inj htext
      exact ⟨some text, hfile, hlines⟩

/-- What is kept of the file loads as the lines exactly if all of it is and they are clean. -/
theorem loads_take_iff (errors : CodecErrors) (ed' : TextEditor) (hne : ed.lines ≠ [])
    (hs : TextFile.chars? ed.text = some s) (kept : ℕ) :
    Loads errors ed' (some ((Utf8.encode s).take kept)) ed.lines ↔
      TextFile.Clean ed.lines ∧ (Utf8.encode s).length ≤ kept :=
  loads_some.trans (TextFile.read_take_iff hne (TextFile.chars?_eq_some_iff.1 hs) kept)

/-! ### Saves -/

/-- A text that cannot be encoded leaves an empty file. -/
theorem unencoded_iff {e : List ℕ} (henc : TextFile.encode ed.text = none) :
    (ReportsError (ed.save (.error e)) ∧ some [] = file ∨
      (ed.save (.error e)).modified = false ∧
        Loads errors (ed.save (.error e)) (some []) ed.lines) ↔ file = some [] := by
  constructor
  · rintro (⟨-, hfile⟩ | ⟨-, hloads⟩)
    · exact hfile.symm
    · -- one empty line could be encoded
      rw [text, ← loads_empty.1 hloads] at henc
      cases henc
  · intro hfile
    exact .inl ⟨reportsError_error ed e, hfile.symm⟩

/-- **When a save is as promised.** -/
theorem saveSound_iff_of_inLines (h : ed.InLines) (w : Writing) :
    SaveSound errors ed file w ↔ SavesWhole ed file w := by
  have hne : ed.lines ≠ [] := List.ne_nil_of_length_pos (Nat.zero_lt_of_lt h)
  unfold SaveSound SavesWhole saveTo
  dsimp only
  cases w with
  | unopened e => exact iff_of_true (.inl ⟨reportsError_error ed e, rfl⟩) trivial
  | written =>
    cases henc : TextFile.encode ed.text with
    | none =>
      dsimp only
      exact unencoded_iff henc
    | some content =>
      obtain ⟨s, hs, rfl⟩ := Option.map_eq_some_iff.1 henc
      have hload := loads_take_iff errors (ed.save (.ok ())) hne hs
        (Utf8.encode s).length
      rw [List.take_length, and_iff_left (Nat.le_refl _)] at hload
      dsimp only
      rw [hload, or_iff_right fun hreport ↦ not_reportsError_ok ed hreport.1]
      exact and_iff_right rfl
  | failed e kept =>
    cases henc : TextFile.encode ed.text with
    | none =>
      dsimp only
      exact unencoded_iff henc
    | some content =>
      obtain ⟨s, hs, rfl⟩ := Option.map_eq_some_iff.1 henc
      dsimp only
      rw [loads_take_iff errors _ hne hs kept, and_iff_right (reportsError_error ed e), eq_comm]
      exact Iff.rfl

/-- **In every session a save is as promised in these cases only.** -/
theorem saveSound_iff (errors : CodecErrors) {t : Calls.State TextEditor}
    (h : session.Reachable t) (file : Option Bytes) (w : Writing) :
    SaveSound errors t.object file w ↔ SavesWhole t.object file w :=
  saveSound_iff_of_inLines (inLines_of_reachable h) w

/-- A new file named `a` is opened, and a character is typed. -/
def typeInNewFile (c : ℕ) : List Event :=
  [Event.letter.1, (Event.ofKey .ret).1, { Event.letter.1 with unicode := [c] }]

/-- The editor after that. -/
def typedInNewFile (c : ℕ) : TextEditor :=
  ⟨[[c]], 1, 0, 0, [97], .edit, Python.str "New file: " ++ [97], true⟩

theorem typedInNewFile_reachable (c : ℕ) : session.Reachable (Calls.start (typedInNewFile c)) :=
  ⟨Calls.start .init, typeInNewFile c, ⟨.init, rfl, rfl⟩, rfl⟩

/-- The texts of two exceptions. -/
def someErrors : CodecErrors :=
  ⟨fun _ ↦ Python.str "surrogates not allowed", fun _ ↦ Python.str "invalid start byte"⟩

/-- A letter is saved. -/
theorem saveSound_letter : SaveSound someErrors (typedInNewFile 98) none .written := by
  refine (saveSound_iff someErrors (typedInNewFile_reachable 98) none .written).2 ?_
  intro l hl
  obtain rfl := List.mem_singleton.1 hl
  decide

/-- A carriage return is not. -/
theorem not_saveSound_return :
    session.Reachable (Calls.start (typedInNewFile 13)) ∧
      ¬ SaveSound someErrors (typedInNewFile 13) none .written := by
  refine ⟨typedInNewFile_reachable 13, fun hsound ↦ ?_⟩
  have hlines : (typedInNewFile 13).InLines := Nat.one_pos
  have hclean : TextFile.Clean (typedInNewFile 13).lines :=
    (saveSound_iff_of_inLines hlines .written).1 hsound
  exact (hclean [13] (List.mem_singleton_self _)).2 (List.mem_singleton_self _)

end JuliusOS.Apps.TextEditor
