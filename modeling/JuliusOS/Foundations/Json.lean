import JuliusOS.Foundations.Machine
import Mathlib.Algebra.BigOperators.Group.List.Basic
import Mathlib.Algebra.GroupWithZero.Nat
import Mathlib.Data.Nat.Basic
import Mathlib.Data.List.Forall2

/-!
# A strict reader of JSON texts

A machine that reads a JSON text character by character, with a stack of the arrays and objects it
is in. It reads what `json.load` does: an object may have a key twice, the last of which counts;
`NaN`, `Infinity` and `-Infinity` are numbers; an escape may make half of a surrogate pair; control
characters in a string are an error. A string is a list of code points, and a number its text. How
deep arrays and objects are nested does not matter.

* `run_string`: plain characters are read into a string as they are;
* `run_nextField`: a quote, a comma, a key and a colon are read in one state only, inside of a value
  of an object;
* `length_run_le`: every character read makes the texts under some given keys longer by at most one,
  and a character that is not plain does not make them longer.
-/

namespace Json

/-! ### Values -/

/-- A value. -/
inductive Value
  /-- `null`. -/
  | null
  /-- `true` or `false`. -/
  | bool (b : Bool)
  /-- A number, as it was spelled. -/
  | number (spelling : List Char)
  /-- A string of code points. -/
  | string (s : List ℕ)
  /-- An array. -/
  | array (items : List Value)
  /-- An object; the fields that were read last come first. -/
  | object (fields : List (List ℕ × Value))

/-- The value of a key of an object. -/
def Value.get? (key : List ℕ) : Value → Option Value
  | object fields => fields.lookup key
  | _ => none

/-- The code points of a text. -/
def codes (s : List Char) : List ℕ := s.map Char.toNat

/-! ### The reader -/

/-- Where the reader is after a backslash. -/
inductive Esc
  /-- There was none. -/
  | none
  /-- Directly after it. -/
  | backslash
  /-- Before the last so many of four hexadecimal digits. -/
  | hex (left : ℕ) (unit : ℕ)
deriving DecidableEq

/-- Where the reader is in a number. -/
inductive NumState
  | minus
  | zero
  | int
  | point
  | frac
  | exp
  | expSign
  | expDigits
deriving DecidableEq

/-- The words. -/
inductive Word
  | true
  | false
  | null
  | nan
  | infinity
  | negInfinity
deriving DecidableEq

/-- An array or object that is being read. -/
inductive Frame
  /-- An array; the last item comes first. -/
  | array (items : List Value)
  /-- An object and its last key. -/
  | object (fields : List (List ℕ × Value)) (key : List ℕ)

/-- What the reader expects, or is in. -/
inductive Mode
  /-- A value. -/
  | value
  /-- A value or the end of the array. -/
  | firstItem
  /-- A key or the end of the object. -/
  | firstKey
  /-- A key. -/
  | key
  /-- A colon. -/
  | colon
  /-- A comma, or the end of the array or object. -/
  | after
  /-- In a string, with the code points so far, the last one first. -/
  | string (isKey : Bool) (rev : List ℕ) (esc : Esc)
  /-- In a number, with the characters so far, the last one first. -/
  | number (st : NumState) (rev : List Char)
  /-- In a word, after so many of its letters. -/
  | word (w : Word) (i : ℕ)
  /-- The text is complete. -/
  | done (v : Value)

/-- The state of the reader. -/
structure Reader where
  /-- The arrays and objects it is in, the innermost first. -/
  frames : List Frame
  /-- Where it is in the innermost. -/
  mode : Mode

/-- The reader before the text. -/
def Reader.start : Reader := ⟨[], .value⟩

/-- White space. -/
def isSpace (c : Char) : Bool := c = ' ' || c = '\t' || c = '\n' || c = '\r'

namespace Word

/-- The letters of a word. -/
def letters : Word → List Char
  | true => ['t', 'r', 'u', 'e']
  | false => ['f', 'a', 'l', 's', 'e']
  | null => ['n', 'u', 'l', 'l']
  | nan => ['N', 'a', 'N']
  | infinity => ['I', 'n', 'f', 'i', 'n', 'i', 't', 'y']
  | negInfinity => ['-', 'I', 'n', 'f', 'i', 'n', 'i', 't', 'y']

/-- What a word stands for. -/
def value : Word → Value
  | true => .bool Bool.true
  | false => .bool Bool.false
  | null => .null
  | w => .number w.letters

/-- The word that a letter begins. -/
def begin? (c : Char) : Option Word :=
  if c = 't' then some true
  else if c = 'f' then some false
  else if c = 'n' then some null
  else if c = 'N' then some nan
  else if c = 'I' then some infinity
  else none

end Word

namespace NumState

/-- The state after the first character of a number. -/
def begin? (c : Char) : Option NumState :=
  if c = '-' then some minus
  else if c = '0' then some zero
  else if c.isDigit then some int
  else none

/-- The state after one more character, if it belongs to the number. -/
def step (c : Char) : NumState → Option NumState
  | minus => if c = '0' then some zero else if c.isDigit then some int else none
  | zero => if c = '.' then some point else if c = 'e' ∨ c = 'E' then some exp else none
  | int =>
    if c.isDigit then some int
    else if c = '.' then some point
    else if c = 'e' ∨ c = 'E' then some exp
    else none
  | point => if c.isDigit then some frac else none
  | frac => if c.isDigit then some frac else if c = 'e' ∨ c = 'E' then some exp else none
  | exp =>
    if c = '+' ∨ c = '-' then some expSign else if c.isDigit then some expDigits else none
  | expSign | expDigits => if c.isDigit then some expDigits else none

/-- The number may end here. -/
def accepts : NumState → Bool
  | zero | int | frac | expDigits => true
  | _ => false

end NumState

/-- A value is complete. -/
def complete (v : Value) : List Frame → Reader
  | [] => ⟨[], .done v⟩
  | .array items :: fs => ⟨.array (v :: items) :: fs, .after⟩
  | .object fields key :: fs => ⟨.object ((key, v) :: fields) key :: fs, .after⟩

/-- A bracket or brace that closes the innermost array or object. -/
def close (c : Char) : List Frame → Option Reader
  | [] => none
  | .array items :: fs => if c = ']' then some (complete (.array items.reverse) fs) else none
  | .object fields _ :: fs => if c = '}' then some (complete (.object fields) fs) else none

/-- A comma in the innermost array or object. -/
def comma : List Frame → Option Reader
  | [] => none
  | .array items :: fs => some ⟨.array items :: fs, .value⟩
  | .object fields key :: fs => some ⟨.object fields key :: fs, .key⟩

/-- A quote that ends a string. -/
def closeString (isKey : Bool) (s : List ℕ) (fs : List Frame) : Option Reader :=
  if isKey then
    match fs with
    | .object fields _ :: fs => some ⟨.object fields s :: fs, .colon⟩
    | _ => none
  else some (complete (.string s) fs)

/-- The first character of a value. -/
def beginValue (c : Char) (fs : List Frame) : Option Reader :=
  if c = '"' then some ⟨fs, .string false [] .none⟩
  else if c = '[' then some ⟨.array [] :: fs, .firstItem⟩
  else if c = '\x7b' then some ⟨.object [] [] :: fs, .firstKey⟩
  else match Word.begin? c with
    | some w => some ⟨fs, .word w 1⟩
    | none => (NumState.begin? c).map fun st ↦ ⟨fs, .number st [c]⟩

/-- A character outside of strings, numbers and words. -/
def stepOutside (c : Char) (r : Reader) : Option Reader :=
  if isSpace c then some r
  else match r.mode with
    | .value => beginValue c r.frames
    | .firstItem => if c = ']' then close c r.frames else beginValue c r.frames
    | .firstKey =>
      if c = '"' then some ⟨r.frames, .string true [] .none⟩ else close c r.frames
    | .key => if c = '"' then some ⟨r.frames, .string true [] .none⟩ else none
    | .colon => if c = ':' then some ⟨r.frames, .value⟩ else none
    | .after => if c = ',' then comma r.frames else close c r.frames
    | _ => none

/-- The code point that a backslash and a character stand for. -/
def unescape (c : Char) : Option ℕ :=
  [('"', 34), ('\\', 92), ('/', 47), ('b', 8), ('f', 12), ('n', 10), ('r', 13), ('t', 9)].lookup c

/-- The value of a hexadecimal digit. -/
def hexDigit (c : Char) : Option ℕ :=
  if '0' ≤ c ∧ c ≤ '9' then some (c.toNat - 48)
  else if 'a' ≤ c ∧ c ≤ 'f' then some (c.toNat - 87)
  else if 'A' ≤ c ∧ c ≤ 'F' then some (c.toNat - 55)
  else none

/-- A code point that came as four hexadecimal digits is added; the second half of a surrogate pair
joins the first. -/
def addUnit (unit : ℕ) : List ℕ → List ℕ
  | [] => [unit]
  | high :: rev =>
    if 0xD800 ≤ high ∧ high < 0xDC00 ∧ 0xDC00 ≤ unit ∧ unit < 0xE000 then
      (0x10000 + (high - 0xD800) * 0x400 + (unit - 0xDC00)) :: rev
    else unit :: high :: rev

/-- A character in a string. -/
def stepString (c : Char) (isKey : Bool) (rev : List ℕ) (fs : List Frame) : Esc → Option Reader
  | .none =>
    if c = '"' then closeString isKey rev.reverse fs
    else if c = '\\' then some ⟨fs, .string isKey rev .backslash⟩
    else if c.toNat < 32 then none
    else some ⟨fs, .string isKey (c.toNat :: rev) .none⟩
  | .backslash =>
    if c = 'u' then some ⟨fs, .string isKey rev (.hex 4 0)⟩
    else (unescape c).map fun n ↦ ⟨fs, .string isKey (n :: rev) .none⟩
  | .hex left unit =>
    (hexDigit c).map fun d ↦
      if left ≤ 1 then ⟨fs, .string isKey (addUnit (16 * unit + d) rev) .none⟩
      else ⟨fs, .string isKey rev (.hex (left - 1) (16 * unit + d))⟩

/-- A character in a number, or the first one after it. -/
def stepNumber (c : Char) (st : NumState) (rev : List Char) (fs : List Frame) : Option Reader :=
  match st.step c with
  | some st' => some ⟨fs, .number st' (c :: rev)⟩
  | none =>
    if st = .minus ∧ c = 'I' then some ⟨fs, .word .negInfinity 2⟩
    else if st.accepts then stepOutside c (complete (.number rev.reverse) fs)
    else none

/-- A character in a word. -/
def stepWord (c : Char) (w : Word) (i : ℕ) (fs : List Frame) : Option Reader :=
  if w.letters[i]? = some c then
    if i + 1 = w.letters.length then some (complete w.value fs) else some ⟨fs, .word w (i + 1)⟩
  else none

/-- A character. -/
def Reader.step (r : Reader) (c : Char) : Option Reader :=
  match r.mode with
  | .string isKey rev esc => stepString c isKey rev r.frames esc
  | .number st rev => stepNumber c st rev r.frames
  | .word w i => stepWord c w i r.frames
  | _ => stepOutside c r

/-- The reader as a machine. -/
def reader : Machine Reader Char where
  Init r := r = .start
  step := Reader.step

/-- The value that was read when the text ends. -/
def Reader.finish (r : Reader) : Option Value :=
  match r.mode with
  | .done v => some v
  | .number st rev => if r.frames.isEmpty && st.accepts then some (.number rev.reverse) else none
  | _ => none

/-- The value of a text. -/
def parse (s : List Char) : Option Value := (reader.run .start s).bind Reader.finish

/-! ### Strings -/

variable {r r' : Reader} {c : Char} {fs : List Frame} {isKey : Bool} {rev : List ℕ} {s : List Char}

/-- A character that stands for itself in a string. -/
def Plain (c : Char) : Prop := c ≠ '"' ∧ c ≠ '\\' ∧ 32 ≤ c.toNat

instance (c : Char) : Decidable (Plain c) := inferInstanceAs (Decidable (_ ∧ _))

/-- Whether a text is plain can be computed. -/
theorem plain_of_all (h : (s.all fun c ↦ Plain c) = true) : ∀ c ∈ s, Plain c :=
  fun c hc ↦ of_decide_eq_true (List.all_eq_true.1 h c hc)

/-- The reader is in a string, and not in an escape. -/
def Reader.Open (r : Reader) : Prop := ∃ isKey rev, r.mode = .string isKey rev .none

/-- A string or number has just ended. -/
def Reader.Closed (r : Reader) : Prop := r.mode = .colon ∨ r.mode = .after ∨ ∃ v, r.mode = .done v

theorem step_plain (hc : Plain c) (fs : List Frame) (isKey : Bool) (rev : List ℕ) :
    Reader.step ⟨fs, .string isKey rev .none⟩ c =
      some ⟨fs, .string isKey (c.toNat :: rev) .none⟩ := by
  obtain ⟨hquote, hback, hcontrol⟩ := hc
  show stepString c isKey rev fs .none = _
  rw [stepString, if_neg hquote, if_neg hback, if_neg (Nat.not_lt.2 hcontrol)]

/-- **Plain characters** are read into a string as they are. -/
theorem run_string (hs : ∀ c ∈ s, Plain c) (fs : List Frame) (isKey : Bool) (rev : List ℕ) :
    reader.run ⟨fs, .string isKey rev .none⟩ s =
      some ⟨fs, .string isKey ((codes s).reverse ++ rev) .none⟩ := by
  induction s generalizing rev with
  | nil => rfl
  | cons c s ih =>
    have hstep : reader.step ⟨fs, .string isKey rev .none⟩ c = _ :=
      step_plain (hs c (List.mem_cons_self ..)) fs isKey rev
    rw [Machine.run_cons, hstep, Option.bind_some, ih fun d hd ↦ hs d (List.mem_cons_of_mem c hd),
      codes, codes, List.map_cons, List.reverse_cons, List.append_assoc, List.singleton_append]

theorem closed_complete (v : Value) (fs : List Frame) : (complete v fs).Closed := by
  rcases fs with - | ⟨⟨items⟩ | ⟨fields, key⟩, fs⟩
  · exact Or.inr (Or.inr ⟨v, rfl⟩)
  · exact Or.inr (Or.inl rfl)
  · exact Or.inr (Or.inl rfl)

theorem closed_of_closeString {k : List ℕ} (h : closeString isKey k fs = some r') :
    r'.Closed := by
  cases isKey with
  | true =>
    rcases fs with - | ⟨⟨items⟩ | ⟨fields, key⟩, fs⟩
    · cases h
    · cases h
    · obtain rfl := Option.some.inj h
      exact Or.inl rfl
  | false =>
    obtain rfl := Option.some.inj h
    exact closed_complete _ fs

/-- What may follow a string or a number is a colon, a comma, or the end of what it is in. -/
theorem stepOutside_of_closed (h : r.Closed) (hspace : isSpace c = false) (hcolon : c ≠ ':')
    (hcomma : c ≠ ',') (hbracket : c ≠ ']') (hbrace : c ≠ '\x7d') : stepOutside c r = none := by
  obtain ⟨fs, mode⟩ := r
  rcases h with rfl | rfl | ⟨v, rfl⟩
  · simp [stepOutside, hspace, hcolon]
  · rcases fs with - | ⟨⟨items⟩ | ⟨fields, key⟩, fs⟩ <;>
      simp [stepOutside, hspace, hcomma, close, hbracket, hbrace]
  · simp [stepOutside, hspace]

theorem step_of_closed (h : r.Closed) : r.step c = stepOutside c r := by
  obtain ⟨fs, mode⟩ := r
  rcases h with rfl | rfl | ⟨v, rfl⟩ <;> rfl

/-- **A quote** ends a string, or the reader is in a string after it. -/
theorem step_quote (h : r.step '"' = some r') :
    r'.Open ∨ ∃ isKey rev, r.mode = .string isKey rev .none ∧
      closeString isKey rev.reverse r.frames = some r' := by
  obtain ⟨fs, mode⟩ := r
  have hspace : isSpace '"' = false := by decide
  have hclosed : ∀ r₁ : Reader, r₁.Closed → stepOutside '"' r₁ = none := fun r₁ h₁ ↦
    stepOutside_of_closed h₁ hspace (by decide) (by decide) (by decide) (by decide)
  have hopen : ∀ isKey rev, some (⟨fs, .string isKey rev .none⟩ : Reader) = some r' → r'.Open := by
    rintro isKey rev ⟨⟩
    exact ⟨isKey, rev, rfl⟩
  cases mode with
  | value | firstItem => exact Or.inl (hopen false [] h)
  | firstKey | key => exact Or.inl (hopen true [] h)
  | colon =>
    rw [step_of_closed (Or.inl rfl), hclosed _ (Or.inl rfl)] at h
    cases h
  | after =>
    rw [step_of_closed (Or.inr (Or.inl rfl)), hclosed _ (Or.inr (Or.inl rfl))] at h
    cases h
  | done v =>
    rw [step_of_closed (Or.inr (Or.inr ⟨v, rfl⟩)), hclosed _ (Or.inr (Or.inr ⟨v, rfl⟩))] at h
    cases h
  | string isKey rev esc =>
    cases esc with
    | none => exact Or.inr ⟨isKey, rev, rfl, h⟩
    | backslash => exact Or.inl (hopen isKey (34 :: rev) h)
    | hex left unit => cases h
  | number st rev =>
    -- a number would have to end here, and no quote may follow it
    have hnone : st.step '"' = none := by cases st <;> rfl
    have hnumber : stepNumber '"' st rev fs = some r' := h
    rw [stepNumber, hnone] at hnumber
    simp only [show ¬ (st = .minus ∧ '"' = 'I') from fun h ↦ absurd h.2 (by decide),
      if_false, hclosed _ (closed_complete _ fs), ite_self] at hnumber
    cases hnumber
  | word w i =>
    -- no literal has a quote
    have hletter : w.letters[i]? ≠ some '"' := by
      intro heq
      have hmem := List.mem_of_getElem? heq
      revert hmem
      cases w <;> decide
    have hword : stepWord '"' w i fs = some r' := h
    rw [stepWord, if_neg hletter] at hword
    cases hword

/-! ### The next field -/

/-- A key that a comma and a quote may be followed by: plain, and its first character is none that
follows a string. -/
structure FieldKey (key : List Char) : Prop where
  /-- It is plain. -/
  plain : ∀ c ∈ key, Plain c
  /-- It is not empty, and no text goes on like it after a string. -/
  first : ∃ c rest, key = c :: rest ∧ isSpace c = false ∧ c ≠ ':' ∧ c ≠ ',' ∧ c ≠ ']' ∧ c ≠ '\x7d'

/-- What separates the text of a field from that of the next one. -/
def nextField (key : List Char) : List Char := ['"', ',', '"'] ++ key ++ ['"', ':', '"']

/-- A key does not go on after a string. -/
theorem FieldKey.run_eq_none {key : List Char} (hkey : FieldKey key) (h : r.Closed)
    (rest : List Char) : reader.run r (key ++ rest) = none := by
  obtain ⟨c, tail, rfl, hspace, hcolon, hcomma, hbracket, hbrace⟩ := hkey.first
  have hstep : reader.step r c = none :=
    (step_of_closed h).trans (stepOutside_of_closed h hspace hcolon hcomma hbracket hbrace)
  rw [List.cons_append, Machine.run_cons, hstep, Option.bind_none]

/-- In a string, the next quote ends it, so that a key does not go on after it. -/
theorem FieldKey.run_eq_none_of_open {key : List Char} (hkey : FieldKey key) (h : r.Open)
    (rest : List Char) : reader.run r (',' :: '"' :: (key ++ rest)) = none := by
  obtain ⟨fs, mode⟩ := r
  obtain ⟨isKey, rev, rfl⟩ := h
  have hstep : reader.step ⟨fs, .string isKey rev .none⟩ ',' =
      some ⟨fs, .string isKey (','.toNat :: rev) .none⟩ :=
    step_plain (c := ',') (by decide) fs isKey rev
  rw [Machine.run_cons, hstep, Option.bind_some, Machine.run_cons]
  cases hclose : reader.step ⟨fs, .string isKey (','.toNat :: rev) .none⟩ '"' with
  | none => rfl
  | some r' => exact hkey.run_eq_none (closed_of_closeString hclose) rest

/-- A string is read and then closed. -/
theorem run_string_quote (hs : ∀ c ∈ s, Plain c) (fs : List Frame) (isKey : Bool)
    (rest : List Char) :
    reader.run ⟨fs, .string isKey [] .none⟩ (s ++ '"' :: rest) =
      (closeString isKey (codes s) fs).bind fun r ↦ reader.run r rest := by
  rw [Machine.run_append, run_string hs, Option.bind_some, Machine.run_cons]
  show (closeString isKey ((codes s).reverse ++ []).reverse fs).bind _ = _
  rw [List.append_nil, List.reverse_reverse]

/-- **The text between two fields** is read in one state only: at the end of a string that is a
value of an object. -/
theorem run_nextField {key : List Char} (hkey : FieldKey key) :
    reader.run r (nextField key) = some r' ↔
      ∃ fields k fs rev, r = ⟨.object fields k :: fs, .string false rev .none⟩ ∧
        r' = ⟨.object ((k, .string rev.reverse) :: fields) (codes key) :: fs,
          .string false [] .none⟩ := by
  have hsplit : nextField key = '"' :: ',' :: '"' :: (key ++ ['"', ':', '"']) := rfl
  constructor
  · intro h
    rw [hsplit] at h
    obtain ⟨r₁, h₁, h⟩ := Machine.run_cons_eq_some _ |>.1 h
    rcases step_quote h₁ with hopen | ⟨isKey, rev, hmode, hclose⟩
    · rw [hkey.run_eq_none_of_open hopen] at h
      cases h
    obtain ⟨fs, mode⟩ := r
    obtain rfl : mode = .string isKey rev .none := hmode
    cases isKey with
    | true =>
      -- after a key comes a colon
      rcases fs with - | ⟨⟨items⟩ | ⟨fields, k⟩, fs⟩
      · cases hclose
      · cases hclose
      · obtain rfl := Option.some.inj hclose
        cases h
    | false =>
      obtain rfl := Option.some.inj hclose
      rcases fs with - | ⟨⟨items⟩ | ⟨fields, k⟩, fs⟩
      · cases h
      · -- in an array the key is an item, which no colon follows
        have hitem : reader.run
            ⟨.array (.string rev.reverse :: items) :: fs, .string false [] .none⟩
            (key ++ ['"', ':', '"']) = some r' := h
        rw [run_string_quote hkey.plain] at hitem
        cases hitem
      · refine ⟨fields, k, fs, rev, rfl, ?_⟩
        have hfield : reader.run ⟨.object ((k, .string rev.reverse) :: fields) k :: fs,
            .string true [] .none⟩ (key ++ ['"', ':', '"']) = some r' := h
        rw [run_string_quote hkey.plain] at hfield
        exact (Option.some.inj hfield).symm
  · rintro ⟨fields, k, fs, rev, rfl, rfl⟩
    rw [hsplit]
    show reader.run ⟨.object ((k, .string rev.reverse) :: fields) k :: fs, .string true [] .none⟩
      (key ++ ['"', ':', '"']) = _
    rw [run_string_quote hkey.plain]
    rfl

/-! ### Numbers -/

theorem step_value_digit (hc : c.isDigit = true) (hzero : c ≠ '0') (fs : List Frame) :
    Reader.step ⟨fs, .value⟩ c = some ⟨fs, .number .int [c]⟩ := by
  have hne : ∀ d : Char, d.isDigit = false → c ≠ d := by
    rintro d hd rfl
    rw [hd] at hc
    cases hc
  have hspace : isSpace c = false := by
    simp [isSpace, hne ' ' (by decide), hne '\t' (by decide), hne '\n' (by decide),
      hne '\r' (by decide)]
  have hword : Word.begin? c = none := by
    simp [Word.begin?, hne 't' (by decide), hne 'f' (by decide), hne 'n' (by decide),
      hne 'N' (by decide), hne 'I' (by decide)]
  show stepOutside c ⟨fs, .value⟩ = _
  simp [stepOutside, hspace, beginValue, hne '"' (by decide), hne '[' (by decide),
    hne '\x7b' (by decide), hword, NumState.begin?, hne '-' (by decide), hzero, hc]

theorem step_number_digit (hc : c.isDigit = true) (fs : List Frame) (spelling : List Char) :
    Reader.step ⟨fs, .number .int spelling⟩ c = some ⟨fs, .number .int (c :: spelling)⟩ := by
  have hstep : NumState.step c .int = some .int := if_pos hc
  show stepNumber c .int spelling fs = _
  rw [stepNumber, hstep]

/-- The digits of a positive number. -/
theorem run_toDigits_of_pos {n : ℕ} (hn : 0 < n) (fs : List Frame) :
    reader.run ⟨fs, .value⟩ (Nat.toDigits 10 n) =
      some ⟨fs, .number .int (Nat.toDigits 10 n).reverse⟩ := by
  induction n using Nat.strong_induction_on with
  | _ n ih =>
    have hdigit : ∀ d : Fin 10, (Nat.digitChar d).isDigit = true := by decide
    have hlast : (Nat.digitChar (n % 10)).isDigit = true :=
      hdigit ⟨n % 10, Nat.mod_lt n (by decide)⟩
    rw [Nat.toDigits_eq_if (by decide)]
    split
    next hlt =>
      have hnonzero : ∀ d : Fin 10, 0 < d.1 → Nat.digitChar d ≠ '0' := by decide
      have hstep : reader.step ⟨fs, .value⟩ (Nat.digitChar n) = _ :=
        step_value_digit (hdigit ⟨n, hlt⟩) (hnonzero ⟨n, hlt⟩ hn) fs
      rw [Machine.run_cons, hstep]
      rfl
    next hge =>
      have hstep : reader.step ⟨fs, .number .int (Nat.toDigits 10 (n / 10)).reverse⟩
          (Nat.digitChar (n % 10)) = _ := step_number_digit hlast fs _
      rw [Machine.run_append, ih (n / 10) (by omega) (by omega), Option.bind_some,
        Machine.run_cons, hstep, List.reverse_append]
      rfl

/-- **A number** is read up to the comma behind it. -/
theorem run_toDigits_comma (n : ℕ) (fields : List (List ℕ × Value)) (key : List ℕ)
    (fs : List Frame) (rest : List Char) :
    reader.run ⟨.object fields key :: fs, .value⟩ (Nat.toDigits 10 n ++ ',' :: rest) =
      reader.run ⟨.object ((key, .number (Nat.toDigits 10 n)) :: fields) key :: fs, .key⟩ rest := by
  rcases Nat.eq_zero_or_pos n with rfl | hn
  · rfl
  · rw [Machine.run_append, run_toDigits_of_pos hn, Option.bind_some, Machine.run_cons]
    show (some (⟨.object ((key, .number (Nat.toDigits 10 n).reverse.reverse) :: fields) key :: fs,
      .key⟩ : Reader)).bind _ = _
    rw [List.reverse_reverse, Option.bind_some]

/-! ### How long the texts are

The keys that satisfy `p` are counted. What counts are the strings that are their values, in the
objects of an array, whether these are complete or not. -/

section Length

variable (p : List ℕ → Bool)

/-- The length of a string. -/
def Value.textLength : Value → ℕ
  | .string s => s.length
  | _ => 0

/-- The length of the strings of counted keys among some fields. -/
def fieldsLength (fields : List (List ℕ × Value)) : ℕ :=
  (fields.map fun f ↦ if p f.1 then f.2.textLength else 0).sum

/-- The length of the strings in an object. -/
def Value.entryLength : Value → ℕ
  | .object fields => fieldsLength p fields
  | _ => 0

/-- The length of the strings in some objects. -/
def itemsLength (items : List Value) : ℕ := (items.map (Value.entryLength p)).sum

/-- The length of the strings in the objects of an array. -/
def Value.listLength : Value → ℕ
  | .array items => itemsLength p items
  | _ => 0

/-- What an array or object that is being read contributes. -/
def Frame.textLength : Frame → ℕ
  | .array items => itemsLength p items
  | .object fields _ => fieldsLength p fields

/-- What all of them contribute. -/
def framesLength (fs : List Frame) : ℕ := (fs.map (Frame.textLength p)).sum

/-- What a value contributes once it is complete. -/
def Value.lengthIn (v : Value) : List Frame → ℕ
  | [] => v.listLength p
  | .array _ :: _ => v.entryLength p
  | .object _ key :: _ => if p key then v.textLength else 0

/-- What the reader has read. -/
def Reader.textLength (r : Reader) : ℕ :=
  framesLength p r.frames + match r.mode with
    | .string false rev _ => (Value.string rev).lengthIn p r.frames
    | .done v => v.listLength p
    | _ => 0

variable {p}

theorem textLength_complete (v : Value) (fs : List Frame) :
    (complete v fs).textLength p = framesLength p fs + v.lengthIn p fs := by
  rcases fs with - | ⟨⟨items⟩ | ⟨fields, key⟩, fs⟩
  · rfl
  · simp [complete, Reader.textLength, framesLength, Frame.textLength, itemsLength, Value.lengthIn]
    omega
  · simp [complete, Reader.textLength, framesLength, Frame.textLength, fieldsLength, Value.lengthIn]
    omega

/-- Only the length of a string matters. -/
theorem lengthIn_string_le {s t : List ℕ} {n : ℕ} (h : s.length ≤ t.length + n) (fs : List Frame) :
    (Value.string s).lengthIn p fs ≤ (Value.string t).lengthIn p fs + n := by
  rcases fs with - | ⟨⟨items⟩ | ⟨fields, key⟩, fs⟩
  · exact Nat.zero_le _
  · exact Nat.zero_le _
  · rw [Value.lengthIn, Value.lengthIn]
    split
    · exact h
    · exact Nat.zero_le _

theorem textLength_close_le (h : close c fs = some r') :
    r'.textLength p ≤ framesLength p fs := by
  rcases fs with - | ⟨⟨items⟩ | ⟨fields, key⟩, fs⟩
  · cases h
  · rw [close] at h
    split at h
    · obtain rfl := Option.some.inj h
      rw [textLength_complete]
      rcases fs with - | ⟨⟨items'⟩ | ⟨fields', key'⟩, fs⟩ <;>
        simp [framesLength, Frame.textLength, Value.lengthIn, Value.listLength, Value.entryLength,
          Value.textLength, itemsLength, List.sum_reverse]
    · cases h
  · rw [close] at h
    split at h
    · obtain rfl := Option.some.inj h
      rw [textLength_complete]
      rcases fs with - | ⟨⟨items'⟩ | ⟨fields', key'⟩, fs⟩
      · simp [framesLength, Value.lengthIn, Value.listLength]
      · simp [framesLength, Frame.textLength, Value.lengthIn, Value.entryLength]
        omega
      · simp [framesLength, Frame.textLength, Value.lengthIn, Value.textLength]
    · cases h

theorem textLength_comma (h : comma fs = some r') :
    r'.textLength p = framesLength p fs := by
  rcases fs with - | ⟨⟨items⟩ | ⟨fields, key⟩, fs⟩
  · cases h
  · obtain rfl := Option.some.inj h
    rfl
  · obtain rfl := Option.some.inj h
    rfl

theorem textLength_beginValue (h : beginValue c fs = some r') :
    r'.textLength p = framesLength p fs := by
  have hstring : (Value.string []).lengthIn p fs = 0 := by
    rcases fs with - | ⟨⟨items⟩ | ⟨fields, key⟩, fs⟩ <;>
      simp [Value.lengthIn, Value.listLength, Value.entryLength, Value.textLength]
  rw [beginValue] at h
  split_ifs at h
  · obtain rfl := Option.some.inj h
    exact congrArg (framesLength p fs + ·) hstring
  · obtain rfl := Option.some.inj h
    simp [Reader.textLength, framesLength, Frame.textLength, itemsLength]
  · obtain rfl := Option.some.inj h
    simp [Reader.textLength, framesLength, Frame.textLength, fieldsLength]
  · split at h
    · obtain rfl := Option.some.inj h
      rfl
    · obtain ⟨st, -, rfl⟩ := Option.map_eq_some_iff.1 h
      rfl

theorem textLength_stepOutside_le (h : stepOutside c r = some r') :
    r'.textLength p ≤ r.textLength p := by
  have hframes : framesLength p r.frames ≤ r.textLength p := Nat.le_add_right ..
  rw [stepOutside] at h
  split at h
  · exact le_of_eq (congrArg _ (Option.some.inj h).symm)
  · split at h
    · exact (textLength_beginValue h).trans_le hframes
    · split at h
      · exact (textLength_close_le h).trans hframes
      · exact (textLength_beginValue h).trans_le hframes
    · split at h
      · obtain rfl := Option.some.inj h
        exact hframes
      · exact (textLength_close_le h).trans hframes
    · split at h
      · obtain rfl := Option.some.inj h
        exact hframes
      · cases h
    · split at h
      · obtain rfl := Option.some.inj h
        exact hframes
      · cases h
    · split at h
      · exact (textLength_comma h).trans_le hframes
      · exact (textLength_close_le h).trans hframes
    · cases h

theorem textLength_closeString (h : closeString isKey rev.reverse fs = some r') :
    r'.textLength p = Reader.textLength p ⟨fs, .string isKey rev .none⟩ := by
  cases isKey with
  | true =>
    rcases fs with - | ⟨⟨items⟩ | ⟨fields, key⟩, fs⟩
    · cases h
    · cases h
    · obtain rfl := Option.some.inj h
      rfl
  | false =>
    obtain rfl := Option.some.inj h
    rw [textLength_complete, Reader.textLength]
    refine congrArg (framesLength p fs + ·) (le_antisymm ?_ ?_)
    · exact lengthIn_string_le (n := 0) (by rw [List.length_reverse]; exact le_rfl) fs
    · exact lengthIn_string_le (n := 0) (by rw [List.length_reverse]; exact le_rfl) fs

/-- In a string, only its length matters. -/
theorem textLength_string_le {rev' : List ℕ} {esc esc' : Esc} {n : ℕ}
    (h : rev'.length ≤ rev.length + n) :
    Reader.textLength p ⟨fs, .string isKey rev' esc'⟩ ≤
      Reader.textLength p ⟨fs, .string isKey rev esc⟩ + n := by
  cases isKey with
  | true => exact Nat.le_add_right ..
  | false =>
    rw [Reader.textLength, Reader.textLength, Nat.add_assoc]
    exact Nat.add_le_add_left (lengthIn_string_le h fs) _

theorem length_addUnit_le (unit : ℕ) (rev : List ℕ) :
    (addUnit unit rev).length ≤ rev.length + 1 := by
  cases rev with
  | nil => exact le_rfl
  | cons high rev =>
    rw [addUnit]
    split
    · rw [List.length_cons, List.length_cons]
      exact Nat.le_succ _
    · exact le_rfl

theorem textLength_stepString_le {esc : Esc} (h : stepString c isKey rev fs esc = some r') :
    r'.textLength p ≤ Reader.textLength p ⟨fs, .string isKey rev esc⟩ + 1 := by
  cases esc with
  | none =>
    rw [stepString] at h
    split_ifs at h
    · exact (textLength_closeString h).trans_le (Nat.le_succ _)
    · obtain rfl := Option.some.inj h
      exact textLength_string_le (Nat.le_succ _)
    · obtain rfl := Option.some.inj h
      exact textLength_string_le le_rfl
  | backslash =>
    rw [stepString] at h
    split at h
    · obtain rfl := Option.some.inj h
      exact textLength_string_le (Nat.le_succ _)
    · obtain ⟨n, -, rfl⟩ := Option.map_eq_some_iff.1 h
      exact textLength_string_le le_rfl
  | hex left unit =>
    obtain ⟨d, -, rfl⟩ := Option.map_eq_some_iff.1 h
    split
    · exact textLength_string_le (length_addUnit_le _ rev)
    · exact textLength_string_le (Nat.le_succ _)

theorem textLength_stepWord {w : Word} {i : ℕ} (h : stepWord c w i fs = some r') :
    r'.textLength p = framesLength p fs := by
  rw [stepWord] at h
  split_ifs at h
  · obtain rfl := Option.some.inj h
    rw [textLength_complete]
    rcases fs with - | ⟨⟨items⟩ | ⟨fields, key⟩, fs⟩ <;> cases w <;>
      simp [Value.lengthIn, Value.listLength, Value.entryLength, Value.textLength, Word.value]
  · obtain rfl := Option.some.inj h
    rfl

theorem textLength_stepNumber_le {st : NumState} {spelling : List Char}
    (h : stepNumber c st spelling fs = some r') :
    r'.textLength p ≤ framesLength p fs := by
  rw [stepNumber] at h
  split at h
  · obtain rfl := Option.some.inj h
    exact le_rfl
  · split_ifs at h
    · obtain rfl := Option.some.inj h
      exact le_rfl
    · refine (textLength_stepOutside_le h).trans (le_of_eq ?_)
      rw [textLength_complete]
      rcases fs with - | ⟨⟨items⟩ | ⟨fields, key⟩, fs⟩ <;>
        simp [Value.lengthIn, Value.listLength, Value.entryLength, Value.textLength]

/-- **A character** makes the texts longer by at most one. -/
theorem textLength_step_le (h : r.step c = some r') :
    r'.textLength p ≤ r.textLength p + 1 := by
  obtain ⟨fs, mode⟩ := r
  have hframes : framesLength p fs ≤ Reader.textLength p ⟨fs, mode⟩ + 1 :=
    Nat.le_add_right_of_le (Nat.le_add_right ..)
  cases mode with
  | string isKey rev esc => exact textLength_stepString_le h
  | number st spelling => exact (textLength_stepNumber_le h).trans hframes
  | word w i => exact (textLength_stepWord h).trans_le hframes
  | _ => exact (textLength_stepOutside_le h).trans (Nat.le_succ _)

/-- A character of a string that is not plain does not make them longer. -/
theorem textLength_step_of_not_plain (hc : ¬ Plain c)
    (h : Reader.step ⟨fs, .string isKey rev .none⟩ c = some r') :
    r'.textLength p ≤ Reader.textLength p ⟨fs, .string isKey rev .none⟩ := by
  have hstep : stepString c isKey rev fs .none = some r' := h
  rw [stepString] at hstep
  split_ifs at hstep with hquote hback hcontrol
  · exact (textLength_closeString hstep).le
  · obtain rfl := Option.some.inj hstep
    exact textLength_string_le (n := 0) le_rfl
  · exact absurd ⟨hquote, hback, Nat.le_of_not_lt hcontrol⟩ hc

/-- **A text** makes the texts longer by at most its length. -/
theorem textLength_run_le (h : reader.run r s = some r') :
    r'.textLength p ≤ r.textLength p + s.length := by
  induction s generalizing r with
  | nil => exact (congrArg _ (Option.some.inj h).symm).le
  | cons c s ih =>
    obtain ⟨r₁, h₁, h⟩ := (reader.run_cons_eq_some).1 h
    have hstep := textLength_step_le (p := p) h₁
    have hrun := ih h
    rw [List.length_cons]
    omega

/-- **A text that is not plain**, read in a string, makes them longer by less. -/
theorem textLength_run_lt (hs : ¬ ∀ c ∈ s, Plain c)
    (h : reader.run ⟨fs, .string isKey rev .none⟩ s = some r') :
    r'.textLength p <
      Reader.textLength p ⟨fs, .string isKey rev .none⟩ + s.length := by
  induction s generalizing rev with
  | nil => exact absurd (fun _ hc ↦ absurd hc List.not_mem_nil) hs
  | cons c s ih =>
    obtain ⟨r₁, h₁, h⟩ := (reader.run_cons_eq_some).1 h
    have hstep : Reader.step ⟨fs, .string isKey rev .none⟩ c = some r₁ := h₁
    rw [List.length_cons]
    by_cases hc : Plain c
    · have hrest : ¬ ∀ d ∈ s, Plain d := fun hall ↦
        hs (List.forall_mem_cons.2 ⟨hc, hall⟩)
      have hlength := textLength_step_le (p := p) hstep
      rw [step_plain hc] at hstep
      obtain rfl := Option.some.inj hstep
      have hrun := ih hrest h
      omega
    · have hlength := textLength_step_of_not_plain (p := p) hc hstep
      have hrun := textLength_run_le (p := p) h
      omega

/-- What a text adds at most to the string that it is read into. -/
def textGain (s : List Char) : ℕ :=
  if s.all fun c ↦ Plain c then s.length else s.length - 1

theorem textGain_le (s : List Char) : textGain s ≤ s.length := by
  rw [textGain]
  split
  · exact le_rfl
  · exact Nat.sub_le ..

/-- Only a plain text adds its whole length. -/
theorem plain_of_length_le_textGain (h : s.length ≤ textGain s) : ∀ c ∈ s, Plain c := by
  rw [textGain] at h
  split at h
  next hs => exact plain_of_all hs
  next hs =>
    obtain rfl : s = [] := List.length_eq_zero_iff.1 (by omega)
    exact absurd rfl hs

theorem textLength_run_string_le (h : reader.run ⟨fs, .string isKey rev .none⟩ s = some r') :
    r'.textLength p ≤
      Reader.textLength p ⟨fs, .string isKey rev .none⟩ + textGain s := by
  rw [textGain]
  split
  · exact textLength_run_le h
  next hs =>
    have hnot : ¬ ∀ c ∈ s, Plain c := fun hall ↦
      hs (List.all_eq_true.2 fun c hc ↦ decide_eq_true (hall c hc))
    have hlt := textLength_run_lt (p := p) hnot h
    omega

/-- The text between two fields adds nothing. -/
theorem textLength_nextField {key : List Char} (hkey : FieldKey key)
    (h : reader.run r (nextField key) = some r') :
    r'.textLength p = r.textLength p := by
  obtain ⟨fields, k, fs, rev, rfl, rfl⟩ := (run_nextField hkey).1 h
  simp [Reader.textLength, framesLength, Frame.textLength, fieldsLength, Value.lengthIn,
    Value.textLength]
  omega

/-- The value of a text has only what was read. -/
theorem listLength_finish_le {v : Value} (h : r.finish = some v) :
    v.listLength p ≤ r.textLength p := by
  obtain ⟨fs, mode⟩ := r
  cases mode with
  | done w =>
    obtain rfl := Option.some.inj h
    exact Nat.le_add_left ..
  | number st spelling =>
    have hnumber : (if fs.isEmpty && st.accepts then some (Value.number spelling.reverse)
        else none) = some v := h
    split at hnumber
    · obtain rfl := Option.some.inj hnumber
      exact Nat.zero_le _
    · cases hnumber
  | _ => cases h

/-- Before the first character of a field, only what was read earlier counts. -/
theorem textLength_field (fields : List (List ℕ × Value)) (key : List ℕ) (fs : List Frame) :
    Reader.textLength p ⟨.object fields key :: fs, .string false [] .none⟩ =
      fieldsLength p fields + framesLength p fs := by
  simp [Reader.textLength, framesLength, Frame.textLength, Value.lengthIn, Value.textLength]

/-- What an object contributes is not more than its fields. -/
theorem lengthIn_object_le (fields : List (List ℕ × Value)) (fs : List Frame) :
    (Value.object fields).lengthIn p fs ≤ fieldsLength p fields := by
  rcases fs with - | ⟨⟨items⟩ | ⟨fields', key⟩, fs⟩
  · exact Nat.zero_le _
  · exact le_rfl
  · simp [Value.lengthIn, Value.textLength]

/-- Keys that are counted for two reasons, never for both. -/
theorem fieldsLength_or {p q : List ℕ → Bool} (h : ∀ k, ¬ (p k = true ∧ q k = true))
    (fields : List (List ℕ × Value)) :
    fieldsLength (fun k ↦ p k || q k) fields = fieldsLength p fields + fieldsLength q fields := by
  induction fields with
  | nil => rfl
  | cons f fields ih =>
    simp only [fieldsLength, List.map_cons, List.sum_cons] at ih ⊢
    rw [ih]
    have hf := h f.1
    by_cases hp : p f.1 = true
    · have hq : q f.1 = false := Bool.eq_false_iff.2 fun hq ↦ hf ⟨hp, hq⟩
      simp only [hp, hq, Bool.true_or, Bool.false_eq_true, if_true, if_false]
      omega
    · rw [Bool.not_eq_true] at hp
      simp only [hp, Bool.false_or, Bool.false_eq_true, if_false]
      omega

/-- A key that is counted contributes the length of its value. -/
theorem length_le_of_get? {fields : List (List ℕ × Value)} {key t : List ℕ}
    (h : (Value.object fields).get? key = some (.string t)) :
    t.length ≤ fieldsLength (· = key) fields := by
  rw [Value.get?] at h
  induction fields with
  | nil => cases h
  | cons f fields ih =>
    rw [fieldsLength, List.map_cons, List.sum_cons]
    by_cases hkey : f.1 = key
    · have hvalue : f.2 = .string t := by
        obtain ⟨k, v⟩ := f
        obtain rfl : k = key := hkey
        rw [List.lookup_cons_self] at h
        exact Option.some.inj h
      rw [if_pos (decide_eq_true hkey), hvalue]
      exact Nat.le_add_right ..
    · obtain ⟨k, v⟩ := f
      have hne : (key == k) = false := beq_false_of_ne (Ne.symm hkey)
      rw [List.lookup_cons, hne] at h
      exact (ih h).trans (Nat.le_add_left ..)

end Length

end Json
