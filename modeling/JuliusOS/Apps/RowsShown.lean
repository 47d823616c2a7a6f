import JuliusOS.Apps.EditorSession
import JuliusOS.Apps.Notes
import JuliusOS.Apps.Passwords
import JuliusOS.Apps.Todo

/-!
# What the list apps draw

The notes, the password manager, the todo list and the text editor draw one page of their rows.
`showsRows_iff` says in which sessions the selected row, or the cursor's line, is on that page after
each key. What breaks it is a selection that is moved by another key than the arrows, since only
these move the page after it.
-/

namespace JuliusOS.Apps

/-- **When the list apps go on drawing the selected row.** -/
theorem showsRows_iff (notes : List Note) (data : List PasswordEntry) (tasks : List Task)
    (ns ps ts : List (KeyDown × Bool)) (es : List Event) :
    (Notes.presses.Guarded (fun s p ↦ s.object.Keeps p) (Calls.start (.init notes)) ns ↔
      ∀ n u, Notes.presses.run (Calls.start (.init notes)) (ns.take n) = some u →
        u.object.RowShown) ∧
    (PasswordManager.presses.Guarded (fun s p ↦ s.object.Keeps p) (Calls.start (.init data)) ps ↔
      ∀ n u, PasswordManager.presses.run (Calls.start (.init data)) (ps.take n) = some u →
        u.object.RowShown) ∧
    (Todo.presses.Guarded (fun s p ↦ s.object.Keeps p) (Calls.start (.init tasks)) ts ↔
      ∀ n u, Todo.presses.run (Calls.start (.init tasks)) (ts.take n) = some u →
        u.object.RowShown) ∧
    (TextEditor.session.Guarded (fun s e ↦ s.object.Keeps e) (Calls.start .init) es ↔
      ∀ n u, TextEditor.session.run (Calls.start .init) (es.take n) = some u →
        u.object.RowShown) :=
  ⟨Notes.rowShown_iff notes ns, PasswordManager.rowShown_iff data ps, Todo.rowShown_iff tasks ts,
    TextEditor.rowShown_iff es⟩

/-- A key of the text editor, where no file exists. -/
def plainKey (key : Key) (unicode : List ℕ) : Event := ⟨key, unicode, false, .ok (), .ok none⟩

/-- A file is opened and thirteen lines are begun. -/
def thirteenLines : List Event :=
  plainKey .other [97] :: List.replicate 14 (plainKey .ret [])

/-- The cursor is below the last line that is drawn. -/
theorem not_showsRows_thirteenLines :
    ¬ ∀ u, TextEditor.session.run (Calls.start .init) thirteenLines = some u →
      u.object.RowShown :=
  fun h ↦ absurd (h _ rfl rfl).2 (by decide)

end JuliusOS.Apps
