import JuliusOS.Foundations.Calls
import JuliusOS.Foundations.Columns
import JuliusOS.Foundations.ListView

/-!
# Keys for the list apps

The `KEYDOWN` events that the apps with a list are given, and what comes of the commands that some
of them run. What the environment does about an event, whether a file can be written among it, comes
with it.
-/

namespace JuliusOS.Apps

/-- The keys that the list apps ask for. -/
inductive KeyName
  | down
  | up
  | ret
  | backspace
  | escape
  /-- `pygame.K_n` and so on. -/
  | letter (c : Char)
  | other
deriving DecidableEq

/-- A `KEYDOWN` event. -/
structure KeyDown where
  /-- `event.key`. -/
  key : KeyName
  /-- `event.unicode`. -/
  unicode : List ℕ
deriving DecidableEq

/-- A key without a character. -/
def KeyDown.ofKey (key : KeyName) : KeyDown := ⟨key, []⟩

/-- What comes of `subprocess.run`: nothing, or the text of the exception. -/
abbrev CommandResult := Except (List ℕ) Unit

/-- What comes of `subprocess.check_output(...).decode()`: a text, or the text of the exception. -/
abbrev CommandOutput := Except (List ℕ) (List Char)

/-- The code points of `str(n)`. -/
def count (n : ℕ) : List ℕ := (Python.decimal n).map Char.toNat

/-- What a handler returns where nothing is raised. -/
def done {α : Type*} (a : α) : α × Bool := (a, false)

/-- What a handler returns where `save` is the last thing it does. -/
def saved {α : Type*} (saves : Bool) (a : α) : α × Bool := (a, !saves)

end JuliusOS.Apps
