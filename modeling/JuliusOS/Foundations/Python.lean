import JuliusOS.Foundations.Socket
import Mathlib.Data.Rat.Defs
import Mathlib.Data.List.DropRight

/-!
# Values, texts and paths of Python

What a JSON text may stand for in Python, and the operations on it that raise for some of the
values; `str.strip`; and the paths of `posixpath`. A `str` is a list of code points, halves of
surrogate pairs included. A finite `float` is a rational number, so arithmetic on it does not round:
in `size - received`, for a count below 2^53, there is nothing to round where the result is smaller
than the chunks that are asked for.

* `Value.Size.wants`: what the loop `while received < size: recv(min(limit, size - received))` does;
* `resolve`: where a path leads, as far as its text tells.
-/

namespace Python

/-- The code points of a literal. -/
def str (s : String) : List ℕ := s.toList.map Char.toNat

/-! ### Values -/

/-- A `float`. -/
inductive FloatValue
  /-- A finite one. -/
  | finite (q : ℚ)
  /-- `inf`. -/
  | inf
  /-- `-inf`. -/
  | negInf
  /-- `nan`. -/
  | nan
deriving DecidableEq

/-- What a JSON text may stand for. -/
inductive Value
  /-- `None`. -/
  | null
  /-- A `bool`. -/
  | bool (b : Bool)
  /-- An `int`. -/
  | int (z : ℤ)
  /-- A `float`. -/
  | float (f : FloatValue)
  /-- A `str`. -/
  | str (s : List ℕ)
  /-- A `list`. -/
  | list (items : List Value)
  /-- A `dict`, whose keys are distinct. -/
  | dict (fields : List (List ℕ × Value))

namespace Value

/-- `v[key]`; most values raise. -/
def item? (key : List ℕ) : Value → Option Value
  | dict fields => fields.lookup key
  | _ => none

/-- `v.get(key, default)`; what is no `dict` raises. -/
def get (key : List ℕ) (default : Value) : Value → Option Value
  | dict fields => some ((fields.lookup key).getD default)
  | _ => none

/-- The values of `for x in v`; what is not iterable raises. -/
def elems : Value → Option (List Value)
  | list items => some items
  | str s => some (s.map fun c ↦ str [c])
  | dict fields => some (fields.map fun kv ↦ str kv.1)
  | _ => none

/-- `v == s` for a `str`. -/
def isStr (s : List ℕ) : Value → Bool
  | str t => t = s
  | _ => false

/-- What an announced size may be. -/
inductive Size
  /-- An `int`, or a `bool`. -/
  | int (z : ℤ)
  /-- A `float`. -/
  | float (f : FloatValue)
  /-- No number. -/
  | other

/-- The value as a size. -/
def size : Value → Size
  | bool b => .int (if b then 1 else 0)
  | int z => .int z
  | float f => .float f
  | _ => .other

namespace Size

/-- `while n < v` is not over: it goes on, or the comparison raises. -/
def Above (n : ℕ) : Size → Prop
  | int z => n < z
  | float (.finite q) => n < q
  | float .inf | other => True
  | float .negInf | float .nan => False

instance (n : ℕ) : DecidablePred (Above n)
  | int z => inferInstanceAs (Decidable ((n : ℤ) < z))
  | float (.finite q) => inferInstanceAs (Decidable ((n : ℚ) < q))
  | float .inf | other => .isTrue trivial
  | float .negInf | float .nan => .isFalse id

/-- `v == n`. -/
def Is (n : ℕ) : Size → Prop
  | int z => z = n
  | float (.finite q) => q = n
  | _ => False

instance (n : ℕ) : DecidablePred (Is n)
  | int z => inferInstanceAs (Decidable (z = n))
  | float (.finite q) => inferInstanceAs (Decidable (q = n))
  | float .inf | float .negInf | float .nan | other => .isFalse id

/-- `min(limit, v - n)` where it is an `int`, for `n < v`. -/
def request? (limit n : ℕ) : Size → Option ℕ
  | int z => some (min limit (z - n).toNat)
  | float (.finite q) => if q - n < limit then none else some limit
  | float .inf => some limit
  | _ => none

open Socket in
/-- `while n < v: recv(min(limit, v - n))`, which raises where the argument is no `int`. -/
def wants (limit : ℕ) (v : Size) (n : ℕ) : Want :=
  if v.Above n then
    match v.request? limit n with
    | some k => .ask k
    | none => .fail
  else .stop

end Size

end Value

/-! ### Texts -/

/-- `c.isspace()`. -/
def isSpace (c : Char) : Bool :=
  c.toNat ∈ [9, 10, 11, 12, 13, 28, 29, 30, 31, 32, 0x85, 0xA0, 0x1680, 0x2000, 0x2001, 0x2002,
    0x2003, 0x2004, 0x2005, 0x2006, 0x2007, 0x2008, 0x2009, 0x200A, 0x2028, 0x2029, 0x202F, 0x205F,
    0x3000]

/-- `s.strip()`. -/
def strip (s : List Char) : List Char := (s.dropWhile isSpace).rdropWhile isSpace

/-- A newline at the end of a text is stripped. -/
theorem strip_newline {c d : Char} (hc : isSpace c = false) (hd : isSpace d = false)
    (s : List Char) : strip (c :: s ++ [d] ++ ['\n']) = c :: s ++ [d] := by
  rw [strip, List.cons_append, List.cons_append, List.dropWhile_cons_of_neg (by rw [hc]; nofun),
    ← List.cons_append, ← List.cons_append, List.rdropWhile_concat_pos _ _ _ (by decide),
    List.rdropWhile_concat_neg _ _ _ (by rw [hd]; nofun)]

/-! ### Paths -/

/-- `os.sep`. -/
abbrev sep : ℕ := 47

/-- `os.path.join(dir, name)`. -/
def join (dir name : List ℕ) : List ℕ :=
  if name.head? = some sep then name
  else if dir = [] ∨ dir.getLast? = some sep then dir ++ name
  else dir ++ sep :: name

/-- `os.path.basename(path)`. -/
def basename (path : List ℕ) : List ℕ := path.rtakeWhile (· ≠ sep)

/-- The names on the way to an absolute path, from the root, without empty ones, `.` and `..`. -/
def resolve (path : List ℕ) : List (List ℕ) :=
  (path.splitOn sep).foldl (fun way name ↦
    if name = [] ∨ name = str "." then way
    else if name = str ".." then way.dropLast
    else way ++ [name]) []

/-- The path leads to an entry of the directory. -/
def Directly (dir path : List ℕ) : Prop := ∃ name, resolve path = resolve dir ++ [name]

/-- The path leads to a place below the directory. -/
def Below (dir path : List ℕ) : Prop := ∃ name names, resolve path = resolve dir ++ name :: names

end Python
