import JuliusOS.Foundations.CString
import Mathlib.Data.List.Induction
import Mathlib.Data.List.TakeWhile
import Mathlib.Tactic.NormNum

/-!
# Reading text with the C library

What `fgets`, `sscanf` and `atoi` make of a text, and the numbers that `printf` writes.

A loop over `fgets` sees a text as `pieces`: its lines with their newlines, those that are too
long for the buffer in several parts. `sscanf` is the list of the values it assigns; it stops
at the first directive that does not match, so the list's length is what it returns (apart from
the `EOF` of an empty text, which no caller here distinguishes from zero). A variable whose
value is missing in the list keeps what it held, which is the caller's business.

Numbers are those of glibc: `strtol` saturates at the ends of a 64-bit `long`, and an `int`
keeps the low 32 bits.

* `pieces_append`: a line that fits is one piece;
* `strtol_decimal`, `value_hex`: printed numbers are read back.
-/

open Bytes CString

namespace Stdio

/-! ### Characters and numbers -/

/-- `isspace`. -/
def isSpace (b : UInt8) : Bool := b = 32 || (9 ≤ b && b ≤ 13)

/-- The value of a digit of any base up to 16; what is no digit has a value above all bases. -/
def digitValue (b : UInt8) : ℕ :=
  if 48 ≤ b ∧ b ≤ 57 then b.toNat - 48
  else if 65 ≤ b ∧ b ≤ 70 then b.toNat - 55
  else if 97 ≤ b ∧ b ≤ 102 then b.toNat - 87
  else 255

/-- A digit of a base. -/
def isDigit (base : ℕ) (b : UInt8) : Bool := digitValue b < base

/-- The number that some digits denote. -/
def value (base : ℕ) (digits : Bytes) : ℕ :=
  digits.foldl (fun n b ↦ base * n + digitValue b) 0

/-- The text behind the leading white space. -/
def skipSpace (text : Bytes) : Bytes := text.dropWhile isSpace

/-- Whether there is a minus sign in front, and the text behind the sign. -/
def takeSign : Bytes → Bool × Bytes
  | [] => (false, [])
  | b :: rest =>
    if b = 45 then (true, rest) else if b = 43 then (false, rest) else (false, b :: rest)

/-- The nearest `long`. -/
def clampLong (z : ℤ) : ℤ := max (-2 ^ 63) (min z (2 ^ 63 - 1))

/-- The `int` with the low 32 bits of a `long`. -/
def toInt (z : ℤ) : ℤ := z.bmod (2 ^ 32)

/-- `strtol(text, &end, 10)`: the number in front, if there is one, and what follows it. -/
def strtol (text : Bytes) : Option (ℤ × Bytes) :=
  let signed := takeSign (skipSpace text)
  let digits := signed.2.takeWhile (isDigit 10)
  if digits = [] then none
  else some (clampLong (if signed.1 then -value 10 digits else value 10 digits),
    signed.2.dropWhile (isDigit 10))

/-- `atoi(text)`. -/
def atoi (text : Bytes) : ℤ := ((strtol (cstr text)).map fun p ↦ toInt p.1).getD 0

/-- `strtoul(text, &end, 16)`: the number in front, if there is one, and what follows it. -/
def strtoulHex (text : Bytes) : Option (ℕ × Bytes) :=
  let signed := takeSign (skipSpace text)
  -- after a zero, an `x` is passed over
  let body := match signed.2 with
    | 48 :: x :: rest => if x = 120 ∨ x = 88 then 48 :: rest else signed.2
    | _ => signed.2
  let digits := body.takeWhile (isDigit 16)
  if digits = [] then none
  else
    let n := value 16 digits
    some (if 2 ^ 64 ≤ n then 2 ^ 64 - 1 else if signed.1 then (2 ^ 64 - n) % 2 ^ 64 else n,
      body.dropWhile (isDigit 16))

/-! ### `sscanf` -/

/-- What a format asks for. -/
inductive Directive
  /-- White space. -/
  | space
  /-- An ordinary character. -/
  | char (b : UInt8)
  /-- `%d`, or `%*d`, which assigns nothing. -/
  | int (assign : Bool)
  /-- `%ld`. -/
  | long
  /-- `%x`. -/
  | hex
  /-- `%Ns`. -/
  | word (width : ℕ)
  /-- `%N[^\n]`. -/
  | line (width : ℕ)

/-- A value that is assigned. -/
inductive Value
  /-- To an `int` or an `unsigned int`. -/
  | number (z : ℤ)
  /-- To a `char` array, with a NUL behind it. -/
  | text (s : Bytes)
deriving DecidableEq

/-- What a directive assigns, and the text behind what it matched. -/
def Directive.scan (text : Bytes) : Directive → Option (List Value × Bytes)
  | space => some ([], skipSpace text)
  | char b =>
    match text with
    | c :: rest => if c = b then some ([], rest) else none
    | [] => none
  | int assign =>
    (strtol text).map fun p ↦ (if assign then [.number (toInt p.1)] else [], p.2)
  | long => (strtol text).map fun p ↦ ([.number p.1], p.2)
  | hex => (strtoulHex text).map fun p ↦ ([.number (wrap32 p.1)], p.2)
  | word width =>
    let s := ((skipSpace text).takeWhile fun b ↦ !isSpace b).take width
    if s = [] then none else some ([.text s], (skipSpace text).drop s.length)
  | line width =>
    let s := (firstLine text).take width
    if s = [] then none else some ([.text s], text.drop s.length)

/-- The values that `sscanf` assigns, in order. -/
def sscanf : List Directive → Bytes → List Value
  | [], _ => []
  | d :: ds, text =>
    match d.scan text with
    | none => []
    | some (values, rest) => values ++ sscanf ds rest

/-! ### `fgets` in a loop -/

/-- The pieces of a text from a position in a line on, for a buffer with so much room: `cur` is
what has been read of the current piece. -/
def piecesFrom (room : ℕ) : Bytes → Bytes → List Bytes
  | cur, [] => if cur = [] then [] else [cur]
  | cur, b :: rest =>
    if b = 10 ∨ cur.length + 1 = room then (cur ++ [b]) :: piecesFrom room [] rest
    else piecesFrom room (cur ++ [b]) rest

/-- What the calls of `fgets(buf, size, f)` read of a file, one after the other. -/
def pieces (size : ℕ) (content : Bytes) : List Bytes := piecesFrom (size - 1) [] content

/-! ### Printed numbers -/

/-- A hexadecimal digit, upper case. -/
def digitByte (d : ℕ) : UInt8 := UInt8.ofNat (if d < 10 then 48 + d else 55 + d)

/-- `%u`. -/
def decimal (n : ℕ) : Bytes := (Nat.toDigits 10 n).map fun c ↦ UInt8.ofNat c.toNat

/-- `%d`. -/
def decimalInt : ℤ → Bytes
  | .ofNat n => decimal n
  | .negSucc n => 45 :: decimal (n + 1)

/-- `%0wX` of a number with at most so many digits. -/
def hex : ℕ → ℕ → Bytes
  | 0, _ => []
  | w + 1, n => hex w (n / 16) ++ [digitByte (n % 16)]

/-! ### What stands in front of a text -/

variable {p : UInt8 → Bool} {a rest : Bytes}

/-- A stretch that ends where the predicate does. -/
theorem takeWhile_append_of_head (ha : ∀ b ∈ a, p b = true) (h : ∀ b ∈ rest.head?, p b = false) :
    (a ++ rest).takeWhile p = a ∧ (a ++ rest).dropWhile p = rest := by
  have hrest : rest.takeWhile p = [] ∧ rest.dropWhile p = rest := by
    cases rest with
    | nil => exact ⟨rfl, rfl⟩
    | cons b bs =>
      have hb : p b = false := h b rfl
      simp [hb]
  rw [List.takeWhile_append_of_pos ha, hrest.1, List.append_nil, List.dropWhile_append_of_pos ha]
  exact ⟨rfl, hrest.2⟩

theorem skipSpace_of_head (h : ∀ b ∈ a.head?, isSpace b = false) : skipSpace a = a :=
  (takeWhile_append_of_head (a := []) (List.forall_mem_nil _) h).2

theorem skipSpace_eq_self_iff : skipSpace a = a ↔ ∀ b ∈ a.head?, isSpace b = false := by
  refine ⟨fun h b hb ↦ ?_, skipSpace_of_head⟩
  have hhead := List.head?_dropWhile_not isSpace a
  rw [show a.dropWhile isSpace = a from h, Option.mem_def.1 hb] at hhead
  simpa using hhead

theorem skipSpace_append (ha : ∀ b ∈ a, isSpace b = true) (rest : Bytes) :
    skipSpace (a ++ rest) = skipSpace rest := List.dropWhile_append_of_pos ha

/-! ### Printed numbers are read back -/

theorem digitValue_digitByte {d : ℕ} (hd : d < 16) : digitValue (digitByte d) = d := by
  have hdigits : ∀ d : Fin 16, digitValue (digitByte d) = d := by decide
  exact hdigits ⟨d, hd⟩

theorem isDigit_digitByte {base d : ℕ} (hbase : base ≤ 16) (hd : d < base) :
    isDigit base (digitByte d) = true := by
  rw [isDigit, digitValue_digitByte (by omega), decide_eq_true_eq]
  exact hd

/-- A digit is neither white space nor a sign, nor an `x`. -/
theorem of_isDigit {base : ℕ} (hbase : base ≤ 16) {b : UInt8} (h : isDigit base b = true) :
    isSpace b = false ∧ b ≠ 45 ∧ b ≠ 43 ∧ b ≠ 120 ∧ b ≠ 88 := by
  rw [isDigit, decide_eq_true_eq] at h
  have hlt : digitValue b < 16 := Nat.lt_of_lt_of_le h hbase
  refine ⟨?_, ?_, ?_, ?_, ?_⟩
  · have hge : 48 ≤ b.toNat := by
      rw [digitValue] at hlt
      split_ifs at hlt with h₁ h₂ h₃
      · exact UInt8.le_iff_toNat_le.1 h₁.1
      · exact le_trans (by decide) (UInt8.le_iff_toNat_le.1 h₂.1)
      · exact le_trans (by decide) (UInt8.le_iff_toNat_le.1 h₃.1)
      · omega
    rw [← Bool.not_eq_true]
    intro hspace
    simp [isSpace, UInt8.le_iff_toNat_le, ← UInt8.toNat_inj] at hspace
    omega
  all_goals
    rintro rfl
    exact absurd hlt (by decide)

theorem value_concat (base : ℕ) (a : Bytes) (b : UInt8) :
    value base (a ++ [b]) = base * value base a + digitValue b := by
  rw [value, List.foldl_append, List.foldl_cons, List.foldl_nil, value]

/-- A number without its last digit. -/
theorem decimal_eq (n : ℕ) :
    decimal n = (if n < 10 then [] else decimal (n / 10)) ++ [digitByte (n % 10)] := by
  have hchar : ∀ d : Fin 10, UInt8.ofNat (Nat.digitChar d).toNat = digitByte d := by decide
  have hlast : UInt8.ofNat (Nat.digitChar (n % 10)).toNat = digitByte (n % 10) :=
    hchar ⟨n % 10, Nat.mod_lt n (by decide)⟩
  rw [decimal, Nat.toDigits_eq_if (by decide)]
  split
  next h =>
    rw [Nat.mod_eq_of_lt h] at hlast ⊢
    exact congrArg (fun b ↦ [b]) hlast
  next h => rw [List.map_append, List.map_singleton, hlast, decimal]

/-- **The digits of a number** denote it. -/
theorem decimal_spec (n : ℕ) :
    (∀ b ∈ decimal n, isDigit 10 b = true) ∧ value 10 (decimal n) = n := by
  induction n using Nat.strong_induction_on with
  | _ n ih =>
    have hlast : isDigit 10 (digitByte (n % 10)) = true :=
      isDigit_digitByte (by decide) (Nat.mod_lt n (by decide))
    rw [decimal_eq]
    split
    next h =>
      refine ⟨fun b hb ↦ ?_, ?_⟩
      · rw [List.nil_append, List.mem_singleton] at hb
        rwa [hb]
      · rw [value_concat, digitValue_digitByte (by omega), Nat.mod_eq_of_lt h]
        exact Nat.zero_add n
    next h =>
      obtain ⟨hdigits, hvalue⟩ := ih (n / 10) (by omega)
      refine ⟨fun b hb ↦ ?_, ?_⟩
      · rcases List.mem_append.1 hb with hb | hb
        · exact hdigits b hb
        · rwa [List.mem_singleton.1 hb]
      · rw [value_concat, hvalue, digitValue_digitByte (by omega)]
        omega

theorem decimal_ne_nil (n : ℕ) : decimal n ≠ [] := by
  rw [decimal_eq]
  exact List.append_ne_nil_of_right_ne_nil _ (List.cons_ne_nil _ _)

@[simp]
theorem length_hex (w n : ℕ) : (hex w n).length = w := by
  induction w generalizing n with
  | zero => rfl
  | succ w ih => rw [hex, List.length_append, ih, List.length_singleton]

/-- **The hexadecimal digits of a number** denote it. -/
theorem hex_spec (w n : ℕ) :
    (∀ b ∈ hex w n, isDigit 16 b = true) ∧ value 16 (hex w n) = n % 16 ^ w := by
  induction w generalizing n with
  | zero => exact ⟨List.forall_mem_nil _, (Nat.mod_one n).symm⟩
  | succ w ih =>
    obtain ⟨hdigits, hvalue⟩ := ih (n / 16)
    have hlt := Nat.mod_lt n (show 0 < 16 by decide)
    refine ⟨fun b hb ↦ ?_, ?_⟩
    · rcases List.mem_append.1 hb with hb | hb
      · exact hdigits b hb
      · rw [List.mem_singleton.1 hb]
        exact isDigit_digitByte le_rfl hlt
    · rw [hex, value_concat, hvalue, digitValue_digitByte hlt, pow_succ', Nat.mod_mul,
        Nat.add_comm]

theorem takeSign_of_digit {base : ℕ} (hbase : base ≤ 16) {text : Bytes}
    (h : ∀ b ∈ text.head?, isDigit base b = true) : takeSign text = (false, text) := by
  cases text with
  | nil => rfl
  | cons b bs =>
    obtain ⟨-, hminus, hplus, -⟩ := of_isDigit hbase (h b rfl)
    rw [takeSign, if_neg hminus, if_neg hplus]

/-- A text that starts with digits has one at its head. -/
theorem head_of_digits {base : ℕ} {digits : Bytes} (hne : digits ≠ [])
    (h : ∀ b ∈ digits, isDigit base b = true) (rest : Bytes) :
    ∀ b ∈ (digits ++ rest).head?, isDigit base b = true := by
  intro b hb
  rw [List.head?_append_of_ne_nil _ hne] at hb
  exact h b (List.mem_of_mem_head? hb)

/-- **`strtol` reads a number** up to where its digits end. -/
theorem strtol_digits {digits : Bytes} (hne : digits ≠ [])
    (hdigits : ∀ b ∈ digits, isDigit 10 b = true) (hrest : ∀ b ∈ rest.head?, isDigit 10 b = false) :
    strtol (digits ++ rest) = some (clampLong (value 10 digits), rest) := by
  have hhead := head_of_digits hne hdigits rest
  obtain ⟨htake, hdrop⟩ := takeWhile_append_of_head hdigits hrest
  rw [strtol, skipSpace_of_head fun b hb ↦ (of_isDigit (by decide) (hhead b hb)).1,
    takeSign_of_digit (by decide) hhead]
  simp only [htake, hdrop, if_neg hne, Bool.false_eq_true, if_false]

/-- **`strtoul` reads a number** up to where its digits end. -/
theorem strtoulHex_digits {digits : Bytes} (hne : digits ≠ [])
    (hdigits : ∀ b ∈ digits, isDigit 16 b = true)
    (hrest : ∀ b ∈ rest.head?, isDigit 16 b = false ∧ b ≠ 120 ∧ b ≠ 88)
    (hvalue : value 16 digits < 2 ^ 64) :
    strtoulHex (digits ++ rest) = some (value 16 digits, rest) := by
  have hhead := head_of_digits hne hdigits rest
  obtain ⟨htake, hdrop⟩ := takeWhile_append_of_head hdigits fun b hb ↦ (hrest b hb).1
  -- no `x` follows a zero: what follows is a digit or the rest
  have hbody : (match digits ++ rest with
      | 48 :: x :: tail => if x = 120 ∨ x = 88 then 48 :: tail else digits ++ rest
      | _ => digits ++ rest) = digits ++ rest := by
    split
    next x tail heq =>
      have hx : x ≠ 120 ∧ x ≠ 88 := by
        rcases digits with - | ⟨d, - | ⟨e, es⟩⟩
        · exact absurd rfl hne
        · simp only [List.cons_append, List.nil_append, List.cons.injEq] at heq
          exact (hrest x (by rw [heq.2]; rfl)).2
        · simp only [List.cons_append, List.cons.injEq] at heq
          have he := hdigits e (by simp)
          rw [heq.2.1] at he
          exact (of_isDigit le_rfl he).2.2.2
      rw [if_neg (by simp [hx])]
    next => rfl
  rw [strtoulHex, skipSpace_of_head fun b hb ↦ (of_isDigit le_rfl (hhead b hb)).1,
    takeSign_of_digit le_rfl hhead]
  simp only [hbody, htake, hdrop, if_neg hne, if_neg (Nat.not_le.2 hvalue), Bool.false_eq_true,
    if_false]

/-- A printed number has nothing but digits. -/
theorem notMem_decimal {b : UInt8} (hb : isDigit 10 b = false) (n : ℕ) : b ∉ decimal n := by
  intro h
  rw [(decimal_spec n).1 b h] at hb
  cases hb

theorem notMem_hex {b : UInt8} (hb : isDigit 16 b = false) (w n : ℕ) : b ∉ hex w n := by
  intro h
  rw [(hex_spec w n).1 b h] at hb
  cases hb

theorem length_decimal_le_iff {n k : ℕ} (hk : 0 < k) : (decimal n).length ≤ k ↔ n < 10 ^ k := by
  rw [decimal, List.length_map, Nat.length_toDigits_le_iff (by decide) hk]

/-! ### Directives that match -/

variable {ds : List Directive}

theorem sscanf_space (ds : List Directive) (text : Bytes) :
    sscanf (.space :: ds) text = sscanf ds (skipSpace text) := rfl

theorem sscanf_char (ds : List Directive) (b : UInt8) (rest : Bytes) :
    sscanf (.char b :: ds) (b :: rest) = sscanf ds rest := by
  simp [sscanf, Directive.scan]

/-- `%*d` passes over a number. -/
theorem sscanf_skip_decimal (n : ℕ) (hrest : ∀ b ∈ rest.head?, isDigit 10 b = false) :
    sscanf (.int false :: ds) (decimal n ++ rest) = sscanf ds rest := by
  rw [sscanf, Directive.scan, strtol_digits (decimal_ne_nil n) (decimal_spec n).1 hrest]
  rfl

/-- `%x` reads a number of at most eight digits. -/
theorem sscanf_hex {w n : ℕ} (hw : 0 < w ∧ w ≤ 8) (hn : n < 16 ^ w)
    (hrest : ∀ b ∈ rest.head?, isDigit 16 b = false ∧ b ≠ 120 ∧ b ≠ 88) :
    sscanf (.hex :: ds) (hex w n ++ rest) = .number n :: sscanf ds rest := by
  have hvalue : value 16 (hex w n) = n := by rw [(hex_spec w n).2, Nat.mod_eq_of_lt hn]
  have hlt : n < 2 ^ 32 := lt_of_lt_of_le hn (Nat.pow_le_pow_right (by decide) hw.2)
  have hne : hex w n ≠ [] := List.ne_nil_of_length_pos (by rw [length_hex]; exact hw.1)
  rw [sscanf, Directive.scan, strtoulHex_digits hne (hex_spec w n).1 hrest (by rw [hvalue]; omega),
    hvalue]
  simp only [Option.map_some, wrap32_of_lt hlt, List.singleton_append]

/-- **A word** is cut to the width, and what is cut off is read next. -/
theorem sscanf_word {w : ℕ} (hw : 0 < w) (hne : a ≠ []) (ha : ∀ b ∈ a, isSpace b = false)
    (hrest : ∀ b ∈ rest.head?, isSpace b = true) :
    sscanf (.word w :: ds) (a ++ rest) = .text (a.take w) :: sscanf ds (a.drop w ++ rest) := by
  have hhead : ∀ b ∈ (a ++ rest).head?, isSpace b = false := by
    intro b hb
    rw [List.head?_append_of_ne_nil _ hne] at hb
    exact ha b (List.mem_of_mem_head? hb)
  have htake : (a ++ rest).takeWhile (fun b ↦ !isSpace b) = a :=
    (takeWhile_append_of_head (fun b hb ↦ by rw [ha b hb]; rfl) fun b hb ↦ by
      rw [hrest b hb]; rfl).1
  have hword : a.take w ≠ [] := by
    obtain ⟨x, xs, rfl⟩ := List.exists_cons_of_ne_nil hne
    obtain ⟨k, rfl⟩ := Nat.exists_eq_succ_of_ne_zero (Nat.pos_iff_ne_zero.1 hw)
    exact List.cons_ne_nil _ _
  have hdrop : (a ++ rest).drop (a.take w).length = a.drop w ++ rest := by
    rw [List.drop_append_of_le_length (List.length_take_le' ..), List.length_take]
    rcases Nat.le_total w a.length with hle | hle
    · rw [Nat.min_eq_left hle]
    · rw [Nat.min_eq_right hle, List.drop_length, List.drop_of_length_le hle]
  rw [sscanf, Directive.scan]
  simp only [skipSpace_of_head hhead, htake, if_neg hword, hdrop, List.singleton_append]

/-- A word that fits, and the white space behind it. -/
theorem sscanf_word_of_le {w : ℕ} (hne : a ≠ []) (ha : ∀ b ∈ a, isSpace b = false)
    (hrest : ∀ b ∈ rest.head?, isSpace b = true) (hlen : a.length ≤ w) :
    sscanf (.word w :: .space :: ds) (a ++ rest) = .text a :: sscanf ds (skipSpace rest) := by
  have hpos := List.length_pos_iff.2 hne
  rw [sscanf_word (by omega) hne ha hrest, List.take_of_length_le hlen, List.drop_of_length_le hlen,
    sscanf_space, List.nil_append]

/-- A word that does not fit is followed by what is left of it. -/
theorem sscanf_word_of_lt {w : ℕ} (hw : 0 < w) (ha : ∀ b ∈ a, isSpace b = false)
    (hrest : ∀ b ∈ rest.head?, isSpace b = true) (hlen : w < a.length) :
    sscanf (.word w :: .space :: ds) (a ++ rest) =
      .text (a.take w) :: sscanf ds (a.drop w ++ rest) := by
  have hdrop : a.drop w ≠ [] := List.ne_nil_of_length_pos (by rw [List.length_drop]; omega)
  have hhead : ∀ b ∈ (a.drop w ++ rest).head?, isSpace b = false := by
    intro b hb
    rw [List.head?_append_of_ne_nil _ hdrop] at hb
    exact ha b (List.mem_of_mem_drop (List.mem_of_mem_head? hb))
  rw [sscanf_word hw (List.ne_nil_of_length_pos (by omega)) ha hrest, sscanf_space,
    skipSpace_of_head hhead]

/-- A word that fits two fields. -/
theorem sscanf_word_word {w w' : ℕ} (hw : 0 < w) (ha : ∀ b ∈ a, isSpace b = false)
    (hrest : ∀ b ∈ rest.head?, isSpace b = true) (hlt : w < a.length) (hle : a.length ≤ w + w') :
    sscanf (.word w :: .space :: .word w' :: .space :: ds) (a ++ rest) =
      .text (a.take w) :: .text (a.drop w) :: sscanf ds (skipSpace rest) := by
  have hdrop : a.drop w ≠ [] := List.ne_nil_of_length_pos (by rw [List.length_drop]; omega)
  rw [sscanf_word_of_lt hw ha hrest hlt,
    sscanf_word_of_le hdrop (fun b hb ↦ ha b (List.mem_of_mem_drop hb)) hrest
      (by rw [List.length_drop]; omega)]

/-- The rest of a line, at the end of a format. -/
theorem sscanf_line {w : ℕ} (hw : 0 < w) (text : Bytes) :
    sscanf [.line w] text =
      if firstLine text = [] then [] else [.text ((firstLine text).take w)] := by
  have hiff : (firstLine text).take w = [] ↔ firstLine text = [] := by
    rw [List.take_eq_nil_iff]
    exact or_iff_right (Nat.pos_iff_ne_zero.1 hw)
  rw [sscanf, Directive.scan]
  simp only [hiff]
  by_cases h : firstLine text = []
  · rw [if_pos h, if_pos h]
  · rw [if_neg h, if_neg h]
    rfl

/-! ### Signed numbers -/

theorem value_lt {base : ℕ} {digits : Bytes} (h : ∀ b ∈ digits, isDigit base b = true) :
    value base digits < base ^ digits.length := by
  induction digits using List.reverseRecOn with
  | nil => exact Nat.one_pos
  | append_singleton digits b ih =>
    have hb : digitValue b < base := of_decide_eq_true (h b (by simp))
    have hlt := ih fun c hc ↦ h c (List.mem_append_left _ hc)
    rw [value_concat, List.length_append, List.length_singleton, pow_succ]
    calc base * value base digits + digitValue b
        < base * value base digits + base := by omega
      _ = base * (value base digits + 1) := by ring
      _ ≤ base * base ^ digits.length := Nat.mul_le_mul_left _ hlt
      _ = base ^ digits.length * base := Nat.mul_comm ..

/-- A sign in front of digits. -/
theorem strtol_minus {digits : Bytes} (hne : digits ≠ [])
    (hdigits : ∀ b ∈ digits, isDigit 10 b = true) :
    strtol (45 :: digits) = some (clampLong (-value 10 digits), []) := by
  have hrest : ∀ b ∈ ([] : Bytes).head?, isDigit 10 b = false := by
    rintro b ⟨⟩
  obtain ⟨htake, hdrop⟩ := takeWhile_append_of_head hdigits hrest
  rw [List.append_nil] at htake hdrop
  have hsign : takeSign (skipSpace (45 :: digits)) = (true, digits) := rfl
  rw [strtol, hsign]
  simp only [htake, hdrop, if_neg hne, if_true]

/-- A number of at most ten digits is what it is, as a `long` and as an `int`. -/
theorem toInt_clampLong {z : ℤ} (h : -2 ^ 31 ≤ z ∧ z < 2 ^ 31) : toInt (clampLong z) = z := by
  have hclamp : clampLong z = z := by
    rw [clampLong]
    omega
  rw [hclamp, toInt, Int.bmod_def]
  split <;> omega

theorem atoi_digits {digits : Bytes} (hne : digits ≠ [])
    (hdigits : ∀ b ∈ digits, isDigit 10 b = true) :
    atoi digits = toInt (clampLong (value 10 digits)) := by
  have hfree : (0 : UInt8) ∉ digits := fun h ↦ absurd (hdigits 0 h) (by decide)
  have hrest : ∀ b ∈ ([] : Bytes).head?, isDigit 10 b = false := by
    rintro b ⟨⟩
  have hread := strtol_digits hne hdigits hrest
  rw [List.append_nil] at hread
  rw [atoi, cstr_eq_self hfree, hread]
  rfl

theorem atoi_minus {digits : Bytes} (hne : digits ≠ [])
    (hdigits : ∀ b ∈ digits, isDigit 10 b = true) :
    atoi (45 :: digits) = toInt (clampLong (-value 10 digits)) := by
  have hfree : (0 : UInt8) ∉ 45 :: digits := by
    rw [List.mem_cons, not_or]
    exact ⟨by decide, fun h ↦ absurd (hdigits 0 h) (by decide)⟩
  rw [atoi, cstr_eq_self hfree, strtol_minus hne hdigits]
  rfl

/-- What `%d` prints has no white space. -/
theorem decimalInt_spec (z : ℤ) :
    decimalInt z ≠ [] ∧ ∀ b ∈ decimalInt z, isSpace b = false ∧ b ≠ 0 ∧ b ≠ 10 := by
  have hdigits : ∀ n, ∀ b ∈ decimal n, isSpace b = false ∧ b ≠ 0 ∧ b ≠ 10 := by
    intro n b hb
    have hdigit := (decimal_spec n).1 b hb
    refine ⟨(of_isDigit (by decide) hdigit).1, ?_, ?_⟩ <;>
      exact fun h ↦ absurd (h ▸ hdigit) (by decide)
  cases z with
  | ofNat n => exact ⟨decimal_ne_nil n, hdigits n⟩
  | negSucc n =>
    refine ⟨List.cons_ne_nil _ _, fun b hb ↦ ?_⟩
    rcases List.mem_cons.1 hb with rfl | hb
    · decide
    · exact hdigits _ b hb

/-- An `int` has at most eleven characters. -/
theorem length_decimalInt_le {z : ℤ} (h : -2 ^ 31 ≤ z ∧ z < 2 ^ 31) :
    (decimalInt z).length ≤ 11 := by
  cases z with
  | ofNat n =>
    have hn : n < 2 ^ 31 := by
      have := h.2
      simp only [Int.ofNat_eq_natCast] at this
      omega
    exact (length_decimal_le_iff (by decide)).2 (lt_of_lt_of_le hn (by norm_num))
  | negSucc n =>
    have hn : n + 1 ≤ 2 ^ 31 := by
      have := h.1
      rw [Int.negSucc_eq] at this
      omega
    rw [decimalInt, List.length_cons]
    exact Nat.succ_le_succ ((length_decimal_le_iff (by decide)).2 (lt_of_le_of_lt hn (by norm_num)))

/-- **An `int` cut to a width** is read back exactly if nothing is cut off. -/
theorem atoi_take_decimalInt {z : ℤ} (h : -2 ^ 31 ≤ z ∧ z < 2 ^ 31) {w : ℕ} (hw : 1 < w) :
    atoi ((decimalInt z).take w) = z ↔ (decimalInt z).length ≤ w := by
  -- the digits that are left of a number denote less than it
  have hcut : ∀ n k, 0 < k → (decimal n).take k ≠ [] ∧
      (∀ b ∈ (decimal n).take k, isDigit 10 b = true) ∧
        (value 10 ((decimal n).take k) ≤ n) ∧
          (value 10 ((decimal n).take k) = n ↔ (decimal n).length ≤ k) := by
    intro n k hk
    have hdigits : ∀ b ∈ (decimal n).take k, isDigit 10 b = true := fun b hb ↦
      (decimal_spec n).1 b (List.mem_of_mem_take hb)
    have hpos := List.length_pos_iff.2 (decimal_ne_nil n)
    have hne : (decimal n).take k ≠ [] :=
      List.ne_nil_of_length_pos (by rw [List.length_take]; omega)
    rcases Nat.lt_or_ge k (decimal n).length with hlt | hge
    · have hvalue := value_lt hdigits
      rw [List.length_take_of_le hlt.le] at hvalue
      have hn : ¬ n < 10 ^ k := fun hn ↦ absurd ((length_decimal_le_iff hk).2 hn) (by omega)
      exact ⟨hne, hdigits, by omega, iff_of_false (by omega) (by omega)⟩
    · rw [List.take_of_length_le hge] at hne hdigits ⊢
      rw [(decimal_spec n).2]
      exact ⟨hne, hdigits, le_rfl, iff_of_true rfl hge⟩
  cases z with
  | ofNat n =>
    obtain ⟨hne, hdigits, hle, hiff⟩ := hcut n w (by omega)
    simp only [Int.ofNat_eq_natCast] at h
    rw [decimalInt, atoi_digits hne hdigits, toInt_clampLong (by omega), ← hiff]
    exact Int.ofNat_inj
  | negSucc n =>
    obtain ⟨k, rfl⟩ : ∃ k, w = k + 1 := ⟨w - 1, by omega⟩
    obtain ⟨hne, hdigits, hle, hiff⟩ := hcut (n + 1) k (by omega)
    rw [Int.negSucc_eq] at h
    rw [decimalInt, List.take_succ_cons, atoi_minus hne hdigits, toInt_clampLong (by omega),
      Int.negSucc_eq, List.length_cons, Nat.succ_le_succ_iff, ← hiff]
    omega

/-! ### Lines that fit -/

theorem piecesFrom_append {room : ℕ} {cur line : Bytes} (hline : (10 : UInt8) ∉ line)
    (hfit : cur.length + line.length < room) (rest : Bytes) :
    piecesFrom room cur (line ++ 10 :: rest) =
      (cur ++ line ++ [10]) :: piecesFrom room [] rest := by
  induction line generalizing cur with
  | nil => simp [piecesFrom]
  | cons b bs ih =>
    have hb : ¬ (b = 10 ∨ cur.length + 1 = room) := by
      rintro (rfl | h)
      · exact hline (List.mem_cons_self ..)
      · rw [List.length_cons] at hfit
        omega
    rw [List.cons_append, piecesFrom, if_neg hb, ih (fun h ↦ hline (List.mem_cons_of_mem b h))
      (by rw [List.length_cons] at hfit; simp; omega)]
    simp

/-- **A line that fits the buffer** is one piece. -/
theorem pieces_append {size : ℕ} {line : Bytes} (hline : (10 : UInt8) ∉ line)
    (hfit : line.length + 1 < size) (rest : Bytes) :
    pieces size (line ++ 10 :: rest) = (line ++ [10]) :: pieces size rest :=
  piecesFrom_append hline (by rw [List.length_nil]; omega) rest

/-! ### Lines that may not fit -/

/-- The pieces of a line, however long, and those of what follows it. -/
theorem piecesFrom_line (room : ℕ) (cur line rest : Bytes) :
    piecesFrom room cur (line ++ 10 :: rest) =
      piecesFrom room cur (line ++ [10]) ++ piecesFrom room [] rest := by
  induction line generalizing cur with
  | nil => simp [piecesFrom]
  | cons b bs ih =>
    rw [List.cons_append, List.cons_append, piecesFrom, piecesFrom]
    split
    next => rw [ih, List.cons_append]
    next => exact ih _

theorem pieces_line (size : ℕ) (line rest : Bytes) :
    pieces size (line ++ 10 :: rest) = pieces size (line ++ [10]) ++ pieces size rest :=
  piecesFrom_line _ [] line rest

theorem exists_piecesFrom {room : ℕ} {cur line : Bytes} (hline : (10 : UInt8) ∉ line)
    (hcur : cur.length < room) :
    ∃ ps, piecesFrom room cur (line ++ [10]) = (cur ++ (line ++ [10])).take room :: ps := by
  induction line generalizing cur with
  | nil =>
    refine ⟨[], ?_⟩
    rw [List.nil_append, piecesFrom, if_pos (Or.inl rfl), piecesFrom, if_pos rfl,
      List.take_of_length_le (by rw [List.length_append]; exact hcur)]
  | cons b bs ih =>
    have hb : b ≠ 10 := fun h ↦ hline (h ▸ List.mem_cons_self ..)
    have hbs : (10 : UInt8) ∉ bs := fun h ↦ hline (List.mem_cons_of_mem b h)
    rw [List.cons_append, piecesFrom, List.append_cons cur b (bs ++ [10])]
    split
    next h =>
      have hlen : (cur ++ [b]).length = room := by
        rw [List.length_append]
        exact h.resolve_left hb
      exact ⟨_, congrArg (· :: _) (List.take_left' hlen).symm⟩
    next h =>
      refine ih hbs ?_
      rw [List.length_append, List.length_singleton]
      omega

/-- **The first piece of a line** is the line and its newline, cut to the buffer. -/
theorem exists_pieces {size : ℕ} {line : Bytes} (hline : (10 : UInt8) ∉ line) (hsize : 1 < size) :
    ∃ ps, pieces size (line ++ [10]) = (line ++ [10]).take (size - 1) :: ps :=
  exists_piecesFrom hline (by rw [List.length_nil]; omega)

end Stdio
