import JuliusOS.Foundations.Utf8

/-!
# Writing JSON texts

`json.dumps` of a `dict` whose values are strings and integers, as Python writes it by default: what
is not printable ASCII is escaped, so such a text is one line, whatever the strings are.

* `printable_dumps`, `not_newline_mem_encode_dumps`: a text is one line of printable ASCII.
-/

namespace Json

/-- A value that is written. -/
inductive Scalar
  /-- A string of code points. -/
  | string (s : List ℕ)
  /-- An integer. -/
  | int (z : ℤ)

/-- A backslash, `u` and four hexadecimal digits. -/
def hexEscape (n : ℕ) : List Char :=
  ['\\', 'u', (n / 4096 % 16).digitChar, (n / 256 % 16).digitChar, (n / 16 % 16).digitChar,
    (n % 16).digitChar]

/-- How a code point is written in a string. -/
def escape (c : ℕ) : List Char :=
  if c = 34 then ['\\', '"']
  else if c = 92 then ['\\', '\\']
  else if c = 10 then ['\\', 'n']
  else if c = 13 then ['\\', 'r']
  else if c = 9 then ['\\', 't']
  else if c = 12 then ['\\', 'f']
  else if c = 8 then ['\\', 'b']
  else if 32 ≤ c ∧ c ≤ 126 then [Char.ofNat c]
  else if c < 0x10000 then hexEscape c
  -- the halves of a surrogate pair
  else hexEscape (0xD800 + (c - 0x10000) / 0x400) ++ hexEscape (0xDC00 + (c - 0x10000) % 0x400)

/-- A string in quotes. -/
def quote (s : List ℕ) : List Char := '"' :: s.flatMap escape ++ ['"']

/-- A value. -/
def Scalar.dumps : Scalar → List Char
  | string s => quote s
  | int z => if z < 0 then '-' :: Nat.toDigits 10 z.natAbs else Nat.toDigits 10 z.natAbs

/-- The fields of a `dict`. -/
def dumpsFields : List (List ℕ × Scalar) → List Char
  | [] => []
  | [(key, v)] => quote key ++ ": ".toList ++ v.dumps
  | (key, v) :: fields => quote key ++ ": ".toList ++ v.dumps ++ ", ".toList ++ dumpsFields fields

/-- `json.dumps` of a `dict`. -/
def dumps (fields : List (List ℕ × Scalar)) : List Char :=
  '\x7b' :: dumpsFields fields ++ ['\x7d']

/-! ### What is written -/

/-- A printable ASCII character. -/
def Printable (c : Char) : Prop := 32 ≤ c.toNat ∧ c.toNat ≤ 126

instance (c : Char) : Decidable (Printable c) := inferInstanceAs (Decidable (_ ∧ _))

theorem printable_append {s t : List Char} (hs : ∀ c ∈ s, Printable c) (ht : ∀ c ∈ t, Printable c) :
    ∀ c ∈ s ++ t, Printable c := fun c hc ↦ (List.mem_append.1 hc).elim (hs c) (ht c)

theorem printable_of_all {s : List Char} (h : (s.all fun c ↦ decide (Printable c)) = true) :
    ∀ c ∈ s, Printable c := fun c hc ↦ of_decide_eq_true (List.all_eq_true.1 h c hc)

theorem printable_of_isDigit {c : Char} (h : c.isDigit = true) : Printable c := by
  obtain ⟨hlow, hhigh⟩ := Char.isDigit_iff_toNat.1 h
  exact ⟨Nat.le_trans (by decide) hlow, Nat.le_trans hhigh (by decide)⟩

theorem printable_digitChar (n : ℕ) : Printable (n % 16).digitChar := by
  have hall : ∀ m : Fin 16, Printable (Nat.digitChar m) := by decide
  exact hall ⟨n % 16, Nat.mod_lt _ (by decide)⟩

theorem printable_hexEscape (n : ℕ) : ∀ c ∈ hexEscape n, Printable c := by
  intro c hc
  simp only [hexEscape, List.mem_cons, List.not_mem_nil, or_false] at hc
  rcases hc with rfl | rfl | rfl | rfl | rfl | rfl
  · decide
  · decide
  all_goals exact printable_digitChar _

theorem printable_escape (n : ℕ) : ∀ c ∈ escape n, Printable c := by
  rw [escape]
  split_ifs
  · exact printable_of_all (by decide)
  · exact printable_of_all (by decide)
  · exact printable_of_all (by decide)
  · exact printable_of_all (by decide)
  · exact printable_of_all (by decide)
  · exact printable_of_all (by decide)
  · exact printable_of_all (by decide)
  next h =>
    intro c hc
    have hvalid : n.isValidChar := Or.inl (by omega)
    rw [List.mem_singleton.1 hc, Char.ofNat, dif_pos hvalid]
    exact h
  · exact printable_hexEscape n
  · exact printable_append (printable_hexEscape _) (printable_hexEscape _)

theorem printable_quote (s : List ℕ) : ∀ c ∈ quote s, Printable c := by
  have hquote : ∀ c ∈ ['"'], Printable c := printable_of_all (by decide)
  refine printable_append (fun c hc ↦ ?_) hquote
  rcases List.mem_cons.1 hc with rfl | hc
  · decide
  · obtain ⟨n, -, hc⟩ := List.mem_flatMap.1 hc
    exact printable_escape n c hc

theorem printable_scalar (v : Scalar) : ∀ c ∈ v.dumps, Printable c := by
  cases v with
  | string s => exact printable_quote s
  | int z =>
    have hdigits : ∀ c ∈ Nat.toDigits 10 z.natAbs, Printable c := fun c hc ↦
      printable_of_isDigit (Nat.isDigit_of_mem_toDigits (by decide) (by decide) hc)
    rw [Scalar.dumps]
    split
    next =>
      intro c hc
      rcases List.mem_cons.1 hc with rfl | hc
      · decide
      · exact hdigits c hc
    next => exact hdigits

theorem printable_dumpsFields (fields : List (List ℕ × Scalar)) :
    ∀ c ∈ dumpsFields fields, Printable c := by
  have hcolon : ∀ c ∈ ": ".toList, Printable c := printable_of_all (by decide)
  have hcomma : ∀ c ∈ ", ".toList, Printable c := printable_of_all (by decide)
  have hfield (key : List ℕ) (v : Scalar) :
      ∀ c ∈ quote key ++ ": ".toList ++ v.dumps, Printable c :=
    printable_append (printable_append (printable_quote key) hcolon) (printable_scalar v)
  induction fields using dumpsFields.induct with
  | case1 => exact nofun
  | case2 key v => exact hfield key v
  | case3 key v fields hne ih =>
    rw [dumpsFields]
    · exact printable_append (printable_append (hfield key v) hcomma) ih
    · exact hne

/-- **A text is printable ASCII.** -/
theorem printable_dumps (fields : List (List ℕ × Scalar)) : ∀ c ∈ dumps fields, Printable c := by
  have hbrace : ∀ c ∈ ['\x7d'], Printable c := printable_of_all (by decide)
  refine printable_append (fun c hc ↦ ?_) hbrace
  rcases List.mem_cons.1 hc with rfl | hc
  · decide
  · exact printable_dumpsFields fields c hc

/-- What is printable has no newline in its encoding. -/
theorem not_newline_mem_encode {s : List Char} (hs : ∀ c ∈ s, Printable c) :
    (10 : UInt8) ∉ Utf8.encode s := by
  intro hmem
  obtain ⟨c, hc, hbyte⟩ := List.mem_flatMap.1 hmem
  obtain ⟨hlow, hhigh⟩ := hs c hc
  rw [Utf8.encodeChar_of_lt (by omega), List.mem_singleton] at hbyte
  have hnat := congrArg UInt8.toNat hbyte
  rw [UInt8.toNat_ofNat', Nat.mod_eq_of_lt (by omega)] at hnat
  have hten : (10 : UInt8).toNat = 10 := rfl
  omega

/-- **A text is one line.** -/
theorem not_newline_mem_encode_dumps (fields : List (List ℕ × Scalar)) :
    (10 : UInt8) ∉ Utf8.encode (dumps fields) :=
  not_newline_mem_encode (printable_dumps fields)

end Json
