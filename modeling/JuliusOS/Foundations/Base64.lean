import JuliusOS.Foundations.Bytes

/-!
# Base64, with a lenient decoder

`encode` writes three bytes as four digits of six bits, and pads the last group with `=`. `decode`
is the decoder that skips what is neither a digit nor padding, and that stops where the padding of
a group is complete, whatever comes after.

* `decode_filter`: what is skipped makes no difference;
* `decode_encode`: what was encoded is decoded.
-/

namespace Base64

/-- `=`. -/
abbrev pad : UInt8 := 61

/-- The digit of six bits. -/
def digit (n : ℕ) : UInt8 :=
  if n < 26 then UInt8.ofNat (65 + n)
  else if n < 52 then UInt8.ofNat (71 + n)
  else if n < 62 then UInt8.ofNat (n - 4)
  else if n = 62 then 43 else 47

/-- The six bits of a digit. -/
def sextet (c : UInt8) : Option ℕ :=
  if 65 ≤ c.toNat ∧ c.toNat ≤ 90 then some (c.toNat - 65)
  else if 97 ≤ c.toNat ∧ c.toNat ≤ 122 then some (c.toNat - 71)
  else if 48 ≤ c.toNat ∧ c.toNat ≤ 57 then some (c.toNat + 4)
  else if c = 43 then some 62
  else if c = 47 then some 63
  else none

/-- The digits of all the bits, from left to right. -/
def encode : Bytes → Bytes
  | [] => []
  | [a] => [digit (a.toNat / 4), digit (a.toNat % 4 * 16), pad, pad]
  | [a, b] =>
    [digit (a.toNat / 4), digit (a.toNat % 4 * 16 + b.toNat / 16), digit (b.toNat % 16 * 4), pad]
  | a :: b :: c :: rest =>
    digit (a.toNat / 4) :: digit (a.toNat % 4 * 16 + b.toNat / 16) ::
      digit (b.toNat % 16 * 4 + c.toNat / 64) :: digit (c.toNat % 64) :: encode rest

/-- Where the decoder is in its input. -/
structure Reader where
  /-- The digits read of the present group. -/
  quad : ℕ
  /-- The bits that are left of them. -/
  left : ℕ
  /-- The padding read since the last digit. -/
  pads : ℕ
  /-- The bytes so far. -/
  out : Bytes

namespace Reader

/-- Nothing is read yet. -/
def start : Reader := ⟨0, 0, 0, []⟩

/-- Six bits are read. -/
def add (r : Reader) (v : ℕ) : Reader :=
  match r.quad with
  | 0 => ⟨1, v, 0, r.out⟩
  | 1 => ⟨2, v % 16, 0, r.out ++ [UInt8.ofNat (r.left * 4 + v / 16)]⟩
  | 2 => ⟨3, v % 4, 0, r.out ++ [UInt8.ofNat (r.left * 16 + v / 4)]⟩
  | _ => ⟨0, 0, 0, r.out ++ [UInt8.ofNat (r.left * 64 + v)]⟩

/-- The rest is read. Padding before the third digit of a group is skipped, too. -/
def scan (r : Reader) : Bytes → Option Bytes
  | [] => if r.quad = 0 then some r.out else none
  | c :: cs =>
    if c = pad then
      if 2 ≤ r.quad ∧ 4 ≤ r.quad + (r.pads + 1) then some r.out
      else scan { r with pads := if 2 ≤ r.quad then r.pads + 1 else r.pads } cs
    else
      match sextet c with
      | some v => scan (r.add v) cs
      | none => scan r cs

end Reader

/-- The bytes that are encoded, unless the last group is incomplete. -/
def decode (x : Bytes) : Option Bytes := Reader.start.scan x

/-- What the decoder does not skip. -/
def isData (c : UInt8) : Bool := c == pad || (sextet c).isSome

/-! ### What is skipped -/

/-- **The decoder reads the same with or without what it skips.** -/
theorem scan_filter (r : Reader) (x : Bytes) : r.scan (x.filter isData) = r.scan x := by
  induction x generalizing r with
  | nil => rfl
  | cons c cs ih =>
    by_cases hc : c = pad
    · have hdata : isData c = true := by rw [isData, beq_iff_eq.2 hc, Bool.true_or]
      rw [List.filter_cons_of_pos hdata, Reader.scan, Reader.scan, if_pos hc, if_pos hc, ih]
    · cases hv : sextet c with
      | none =>
        have hdata : ¬ isData c = true := by
          rw [isData, hv, beq_eq_false_iff_ne.2 hc]
          decide
        rw [List.filter_cons_of_neg hdata, ih, Reader.scan, if_neg hc, hv]
      | some v =>
        have hdata : isData c = true := by rw [isData, hv, Option.isSome_some, Bool.or_true]
        rw [List.filter_cons_of_pos hdata, Reader.scan, Reader.scan, if_neg hc, if_neg hc, hv]
        exact ih _

theorem decode_filter (x : Bytes) : decode (x.filter isData) = decode x := scan_filter _ x

/-! ### The digits of six bits -/

theorem sextet_digit {n : ℕ} (h : n < 64) : sextet (digit n) = some n := by
  have hall : ∀ n < 64, sextet (digit n) = some n := by decide
  exact hall n h

theorem digit_ne_pad {n : ℕ} (h : n < 64) : digit n ≠ pad := by
  have hall : ∀ n < 64, digit n ≠ pad := by decide
  exact hall n h

theorem digit_lt {n : ℕ} (h : n < 64) : digit n < 128 := by
  have hall : ∀ n < 64, digit n < 128 := by decide
  exact hall n h

/-- A digit is read. -/
theorem scan_digit (r : Reader) {n : ℕ} (h : n < 64) (x : Bytes) :
    r.scan (digit n :: x) = (r.add n).scan x := by
  rw [Reader.scan, if_neg (digit_ne_pad h), sextet_digit h]

theorem ofNat_eq {n : ℕ} {a : UInt8} (h : n = a.toNat) : UInt8.ofNat n = a := by
  rw [h, UInt8.ofNat_toNat]

/-! ### Encoding and decoding -/

/-- What the digits of the first byte and the upper half of the next leave. -/
theorem scan_first (out : Bytes) (p : ℕ) (a : UInt8) {n : ℕ} (hn : n < 16) (x : Bytes) :
    Reader.scan ⟨0, 0, p, out⟩ (digit (a.toNat / 4) :: digit (a.toNat % 4 * 16 + n) :: x) =
      Reader.scan ⟨2, n, 0, out ++ [a]⟩ x := by
  have ha := a.toNat_lt
  rw [scan_digit _ (by omega), scan_digit _ (by omega)]
  show Reader.scan ⟨2, (a.toNat % 4 * 16 + n) % 16, 0,
    out ++ [UInt8.ofNat (a.toNat / 4 * 4 + (a.toNat % 4 * 16 + n) / 16)]⟩ x = _
  rw [ofNat_eq (a := a) (by omega), show (a.toNat % 4 * 16 + n) % 16 = n by omega]

/-- What the digit of the lower half of the second byte and the rest of the next leaves. -/
theorem scan_second (out : Bytes) (b : UInt8) {n : ℕ} (hn : n < 4) (x : Bytes) :
    Reader.scan ⟨2, b.toNat / 16, 0, out⟩ (digit (b.toNat % 16 * 4 + n) :: x) =
      Reader.scan ⟨3, n, 0, out ++ [b]⟩ x := by
  have hb := b.toNat_lt
  rw [scan_digit _ (by omega)]
  show Reader.scan ⟨3, (b.toNat % 16 * 4 + n) % 4, 0,
    out ++ [UInt8.ofNat (b.toNat / 16 * 16 + (b.toNat % 16 * 4 + n) / 4)]⟩ x = _
  rw [ofNat_eq (a := b) (by omega), show (b.toNat % 16 * 4 + n) % 4 = n by omega]

/-- What the last digit of a group leaves. -/
theorem scan_third (out : Bytes) (c : UInt8) (x : Bytes) :
    Reader.scan ⟨3, c.toNat / 64, 0, out⟩ (digit (c.toNat % 64) :: x) =
      Reader.scan ⟨0, 0, 0, out ++ [c]⟩ x := by
  rw [scan_digit _ (by omega)]
  show Reader.scan ⟨0, 0, 0, out ++ [UInt8.ofNat (c.toNat / 64 * 64 + c.toNat % 64)]⟩ x = _
  rw [ofNat_eq (a := c) (by omega)]

/-- **What was encoded is decoded**, after what has been decoded already. -/
theorem scan_encode (out x : Bytes) :
    Reader.scan ⟨0, 0, 0, out⟩ (encode x) = some (out ++ x) := by
  induction x using encode.induct generalizing out with
  | case1 => exact congrArg some (List.append_nil out).symm
  | case2 a =>
    have h := scan_first out 0 a (n := 0) (by omega) [pad, pad]
    rw [Nat.add_zero] at h
    exact h
  | case3 a b =>
    have hb := b.toNat_lt
    have h := scan_second (out ++ [a]) b (n := 0) (by omega) [pad]
    rw [Nat.add_zero] at h
    rw [encode, scan_first out 0 a (by omega), h]
    show some (out ++ [a] ++ [b]) = _
    rw [List.append_assoc, List.singleton_append]
  | case4 a b c rest ih =>
    have hb := b.toNat_lt
    have hc := c.toNat_lt
    rw [encode, scan_first out 0 a (by omega), scan_second _ b (by omega), scan_third, ih]
    simp only [List.append_assoc, List.cons_append, List.nil_append]

theorem decode_encode (x : Bytes) : decode (encode x) = some x := scan_encode [] x

/-- The encoding is a text of ASCII. -/
theorem encode_lt (x : Bytes) : ∀ c ∈ encode x, c < 128 := by
  induction x using encode.induct with
  | case1 => exact List.forall_mem_nil _
  | case2 a =>
    have ha := a.toNat_lt
    simp only [encode, List.forall_mem_cons, List.not_mem_nil, false_implies, implies_true,
      and_true]
    exact ⟨digit_lt (by omega), digit_lt (by omega), by decide, by decide⟩
  | case3 a b =>
    have ha := a.toNat_lt
    have hb := b.toNat_lt
    simp only [encode, List.forall_mem_cons, List.not_mem_nil, false_implies, implies_true,
      and_true]
    exact ⟨digit_lt (by omega), digit_lt (by omega), digit_lt (by omega), by decide⟩
  | case4 a b c rest ih =>
    have ha := a.toNat_lt
    have hb := b.toNat_lt
    have hc := c.toNat_lt
    simp only [encode, List.forall_mem_cons]
    exact ⟨digit_lt (by omega), digit_lt (by omega), digit_lt (by omega), digit_lt (by omega), ih⟩

end Base64
