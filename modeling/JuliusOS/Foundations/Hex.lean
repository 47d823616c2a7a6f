import JuliusOS.Foundations.Bytes

/-!
# Hexadecimal text

Two digits a byte, written in lower or upper case. `decode` takes both cases, and skips white space
in front of a byte but not inside one.

* `decode_encode_lower`: what was written is read;
* `decode_append_of_even`: a text with an even number of digits in front of another is read by
  itself, if both are read together.
-/

namespace Hex

/-- The letter that stands for ten. -/
abbrev Case := ℕ

/-- `0123456789abcdef`. -/
abbrev lower : Case := 97

/-- `0123456789ABCDEF`. -/
abbrev upper : Case := 65

/-- A digit. -/
def digit (ten : Case) (n : ℕ) : Char := Char.ofNat (if n < 10 then 48 + n else ten + (n - 10))

/-- The value of a digit. -/
def value (c : Char) : Option ℕ :=
  if 48 ≤ c.toNat ∧ c.toNat ≤ 57 then some (c.toNat - 48)
  else if 97 ≤ c.toNat ∧ c.toNat ≤ 102 then some (c.toNat - 87)
  else if 65 ≤ c.toNat ∧ c.toNat ≤ 70 then some (c.toNat - 55)
  else none

/-- White space of ASCII. -/
def isSpace (c : Char) : Bool := c.toNat == 32 || (9 ≤ c.toNat && c.toNat ≤ 13)

/-- The two digits of a byte. -/
def ofByte (ten : Case) (b : UInt8) : List Char :=
  [digit ten (b.toNat / 16), digit ten (b.toNat % 16)]

/-- The digits of all bytes. -/
def encode (ten : Case) (x : Bytes) : List Char := x.flatMap (ofByte ten)

/-- The byte of two digits. -/
def toByte (c d : Char) : Option UInt8 :=
  (value c).bind fun h ↦ (value d).map fun l ↦ UInt8.ofNat (16 * h + l)

/-- The bytes that are written, if nothing else is. -/
def decode : List Char → Option Bytes
  | [] => some []
  | [c] => if isSpace c then some [] else none
  | c :: d :: rest =>
    if isSpace c then decode (d :: rest) else (toByte c d).bind fun b ↦ (decode rest).map (b :: ·)

/-- What is no white space. -/
def digits (s : List Char) : List Char := s.filter fun c ↦ !isSpace c

/-! ### Digits -/

variable {c d : Char} {s t : List Char} {x y : Bytes}

theorem value_digit_lower {n : ℕ} (h : n < 16) : value (digit lower n) = some n := by
  have hall : ∀ n < 16, value (digit lower n) = some n := by decide
  exact hall n h

theorem value_digit_upper {n : ℕ} (h : n < 16) : value (digit upper n) = some n := by
  have hall : ∀ n < 16, value (digit upper n) = some n := by decide
  exact hall n h

theorem digit_upper_lt {n : ℕ} (h : n < 16) : (digit upper n).toNat < 128 := by
  have hall : ∀ n < 16, (digit upper n).toNat < 128 := by decide
  exact hall n h

/-- White space is no digit. -/
theorem value_of_isSpace (h : isSpace c = true) : value c = none := by
  have hspace : c.toNat = 32 ∨ 9 ≤ c.toNat ∧ c.toNat ≤ 13 := by simpa [isSpace] using h
  rw [value, if_neg (by omega), if_neg (by omega), if_neg (by omega)]

theorem isSpace_of_value {v : ℕ} (h : value c = some v) : isSpace c = false := by
  refine eq_false_of_ne_true fun hspace ↦ ?_
  rw [value_of_isSpace hspace] at h
  cases h

/-- A byte is read from digits of its halves. -/
theorem toByte_eq {b : UInt8} (hc : value c = some (b.toNat / 16))
    (hd : value d = some (b.toNat % 16)) : toByte c d = some b := by
  rw [toByte, hc, Option.bind_some, hd, Option.map_some, Nat.div_add_mod, UInt8.ofNat_toNat]

/-- What reads as a byte is two digits. -/
theorem isSpace_of_toByte {b : UInt8} (h : toByte c d = some b) :
    isSpace c = false ∧ isSpace d = false := by
  obtain ⟨u, hu, hrest⟩ := Option.bind_eq_some_iff.1 h
  obtain ⟨v, hv, -⟩ := Option.map_eq_some_iff.1 hrest
  exact ⟨isSpace_of_value hu, isSpace_of_value hv⟩

/-! ### Reading -/

/-- White space in front is skipped. -/
theorem decode_space (h : isSpace c = true) (s : List Char) : decode (c :: s) = decode s := by
  cases s with
  | nil => exact if_pos h
  | cons d s => exact if_pos h

/-- Two digits in front are read. -/
theorem decode_byte {b : UInt8} (h : toByte c d = some b) (s : List Char) :
    decode (c :: d :: s) = (decode s).map (b :: ·) := by
  have hspace : ¬ isSpace c = true := by rw [(isSpace_of_toByte h).1]; decide
  rw [decode, if_neg hspace, h, Option.bind_some]

/-- **What can be read** is nothing, white space in front, or two digits in front. -/
theorem decode_eq_some_cases (h : decode (c :: s) = some x) :
    isSpace c = true ∧ decode s = some x ∨
      ∃ d t b y, s = d :: t ∧ toByte c d = some b ∧ decode t = some y ∧ x = b :: y := by
  by_cases hspace : isSpace c = true
  · rw [decode_space hspace] at h
    exact Or.inl ⟨hspace, h⟩
  · cases s with
    | nil =>
      rw [decode, if_neg hspace] at h
      cases h
    | cons d t =>
      rw [decode, if_neg hspace] at h
      obtain ⟨b, hb, hrest⟩ := Option.bind_eq_some_iff.1 h
      obtain ⟨y, hy, rfl⟩ := Option.map_eq_some_iff.1 hrest
      exact Or.inr ⟨d, t, b, y, rfl, hb, hy, rfl⟩

/-- Every byte takes two digits. -/
theorem length_digits (h : decode s = some x) : (digits s).length = 2 * x.length := by
  induction hn : s.length using Nat.strong_induction_on generalizing s x with
  | _ n ih =>
    cases s with
    | nil =>
      obtain rfl := Option.some.inj h
      rfl
    | cons c s =>
      rw [List.length_cons] at hn
      rcases decode_eq_some_cases h with ⟨hspace, hs⟩ | ⟨d, s, b, y, rfl, hb, hy, rfl⟩
      · rw [digits, List.filter_cons_of_neg (by rw [hspace]; decide)]
        exact ih s.length (by omega) hs rfl
      · obtain ⟨hc, hd⟩ := isSpace_of_toByte hb
        have hs := ih s.length (by rw [List.length_cons] at hn; omega) hy rfl
        rw [digits, List.filter_cons_of_pos (by rw [hc]; rfl),
          List.filter_cons_of_pos (by rw [hd]; rfl), List.length_cons, List.length_cons,
          List.length_cons, ← digits, hs, Nat.mul_succ]

/-- **A text with an even number of digits is read by itself**, if it is read with what comes
after it. -/
theorem decode_append_of_even (heven : (digits s).length % 2 = 0) (h : decode (s ++ t) = some x) :
    ∃ y z, decode s = some y ∧ decode t = some z ∧ x = y ++ z := by
  induction hn : s.length using Nat.strong_induction_on generalizing s x with
  | _ n ih =>
    cases s with
    | nil => exact ⟨[], x, rfl, h, rfl⟩
    | cons c s =>
      rw [List.length_cons] at hn
      rw [List.cons_append] at h
      rcases decode_eq_some_cases h with ⟨hspace, hs⟩ | ⟨d, u, b, w, hu, hb, hw, rfl⟩
      · rw [digits, List.filter_cons_of_neg (by rw [hspace]; decide)] at heven
        obtain ⟨y, z, hy, hz, rfl⟩ := ih s.length (by omega) heven hs rfl
        exact ⟨y, z, by rw [decode_space hspace, hy], hz, rfl⟩
      · obtain ⟨hc, hd⟩ := isSpace_of_toByte hb
        rw [digits, List.filter_cons_of_pos (by rw [hc]; rfl), List.length_cons] at heven
        cases s with
        | nil => exact absurd heven (by decide)
        | cons e s =>
          obtain ⟨rfl, rfl⟩ := List.cons.inj hu
          rw [List.filter_cons_of_pos (by rw [hd]; rfl), List.length_cons] at heven
          rw [List.length_cons] at hn
          obtain ⟨y, z, hy, hz, rfl⟩ := ih s.length (by omega) (by rw [digits]; omega) hw rfl
          exact ⟨b :: y, z, by rw [decode_byte hb, hy]; rfl, hz, rfl⟩

/-- A text repeated, with an even number of digits, is read as its bytes repeated. -/
theorem decode_flatten_replicate (heven : (digits s).length % 2 = 0) {n : ℕ}
    (h : decode (List.replicate (n + 1) s).flatten = some x) :
    ∃ y, decode s = some y ∧ x = (List.replicate (n + 1) y).flatten := by
  induction n generalizing x with
  | zero =>
    rw [List.replicate_one, List.flatten_singleton] at h
    exact ⟨x, h, by rw [List.replicate_one, List.flatten_singleton]⟩
  | succ n ih =>
    rw [List.replicate_succ, List.flatten_cons] at h
    obtain ⟨y, z, hy, hz, rfl⟩ := decode_append_of_even heven h
    obtain ⟨w, hw, rfl⟩ := ih hz
    obtain rfl : y = w := Option.some.inj (hy.symm.trans hw)
    exact ⟨y, hy, rfl⟩

/-- **An even number of digits can be read.** -/
theorem exists_decode (hs : ∀ c ∈ s, (value c).isSome) (heven : s.length % 2 = 0) :
    ∃ x, decode s = some x := by
  induction hn : s.length using Nat.strong_induction_on generalizing s with
  | _ n ih =>
    rcases s with _ | ⟨c, _ | ⟨d, s⟩⟩
    · exact ⟨[], rfl⟩
    · exact absurd heven Nat.one_ne_zero
    · obtain ⟨hc, hd, hs⟩ := List.forall_mem_cons.1 hs |>.imp_right List.forall_mem_cons.1
      rw [List.length_cons, List.length_cons] at hn heven
      obtain ⟨x, hx⟩ := ih s.length (by omega) hs (by omega) rfl
      obtain ⟨u, hu⟩ := Option.isSome_iff_exists.1 hc
      obtain ⟨v, hv⟩ := Option.isSome_iff_exists.1 hd
      have hbyte : toByte c d = some (UInt8.ofNat (16 * u + v)) := by rw [toByte, hu, hv]; rfl
      exact ⟨_, by rw [decode_byte hbyte, hx]; rfl⟩

theorem digits_append (s t : List Char) : digits (s ++ t) = digits s ++ digits t :=
  List.filter_append ..

theorem length_digits_flatten (s : List Char) (n : ℕ) :
    (digits (List.replicate n s).flatten).length = n * (digits s).length := by
  induction n with
  | zero => rw [Nat.zero_mul]; rfl
  | succ n ih =>
    rw [List.replicate_succ, List.flatten_cons, digits_append, List.length_append, ih,
      Nat.succ_mul, Nat.add_comm]

/-! ### Writing and reading -/

/-- **What was written is read**, in lower case. -/
theorem decode_encode_lower (x : Bytes) : decode (encode lower x) = some x := by
  induction x with
  | nil => rfl
  | cons b x ih =>
    have hb := b.toNat_lt
    have hbyte := toByte_eq (value_digit_lower (n := b.toNat / 16) (by omega))
      (value_digit_lower (n := b.toNat % 16) (by omega))
    rw [encode, List.flatMap_cons, ← encode]
    show decode (digit lower (b.toNat / 16) :: digit lower (b.toNat % 16) :: encode lower x) = _
    rw [decode_byte hbyte, ih]
    rfl

end Hex
