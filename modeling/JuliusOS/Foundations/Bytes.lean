import Mathlib.Data.List.Basic
import Mathlib.Data.List.GetD
import Mathlib.Tactic.Ring

/-!
# Byte strings and fixed-width integers

The bytes two programs exchange are lists of `UInt8`. This file has what every wire format
needs: integers of a fixed width in either byte order, padding to a field width, and reading
a field back at a numeric offset.

The one fact the format proofs rest on is `slice_flatten`: in a concatenation of pieces, the
piece at position `i` is read back at the sum of the lengths before it. A format is right
exactly when the reader's offsets are those sums, so a shift by one byte is visible as a
wrong sum and nowhere else.
-/

/-- A byte string. -/
abbrev Bytes := List UInt8

namespace Bytes

/-- The bytes of an ASCII literal. -/
def ofAscii (s : String) : Bytes := s.toList.map fun c ↦ UInt8.ofNat c.toNat

/-! ### Integers of a fixed width -/

/-- The `w` low bytes of `n`, least significant first. -/
def le : ℕ → ℕ → Bytes
  | 0, _ => []
  | w + 1, n => UInt8.ofNat n :: le w (n / 256)

/-- The number whose bytes are given least significant first. -/
def ofLe : Bytes → ℕ
  | [] => 0
  | b :: bs => b.toNat + 256 * ofLe bs

/-- The `w` low bytes of `n`, most significant first. -/
def be (w n : ℕ) : Bytes := (le w n).reverse

@[simp]
theorem length_le (w n : ℕ) : (le w n).length = w := by
  induction w generalizing n with
  | zero => rfl
  | succ w ih => simp [le, ih]

@[simp]
theorem length_be (w n : ℕ) : (be w n).length = w := by
  simp [be]

/-- Reading a fixed-width integer back gives it modulo the width. -/
theorem ofLe_le (w n : ℕ) : ofLe (le w n) = n % 256 ^ w := by
  induction w generalizing n with
  | zero => simp [le, ofLe, Nat.mod_one]
  | succ w ih =>
    have hlow : (UInt8.ofNat n).toNat = n % 256 := by simp [UInt8.toNat_ofNat']
    rw [le, ofLe, ih, hlow, pow_succ', Nat.mod_mul]

/-- The `w` bytes of an integer in two's complement, least significant first. -/
def leInt (w : ℕ) (z : ℤ) : Bytes := le w (z % 256 ^ w).toNat

@[simp]
theorem length_leInt (w : ℕ) (z : ℤ) : (leInt w z).length = w := length_le w _

/-- A non-negative integer that fits is written as it is. -/
theorem leInt_natCast {w n : ℕ} (h : n < 256 ^ w) : leInt w n = le w n := by
  rw [leInt, Int.emod_eq_of_lt (by omega) (by exact_mod_cast h), Int.toNat_natCast]

/-- An integer that fits its width is read back unchanged. -/
theorem ofLe_le_of_lt {w n : ℕ} (h : n < 256 ^ w) : ofLe (le w n) = n := by
  rw [ofLe_le, Nat.mod_eq_of_lt h]

/-- A wide integer is two narrow ones. -/
theorem le_add (m n x : ℕ) : le (m + n) x = le m x ++ le n (x / 256 ^ m) := by
  induction m generalizing x with
  | zero => rw [Nat.zero_add, le, List.nil_append, pow_zero, Nat.div_one]
  | succ m ih =>
    rw [Nat.succ_add, le, le, ih, List.cons_append, pow_succ', Nat.div_div_eq_div_mul]

theorem ofLe_lt (l : Bytes) : ofLe l < 256 ^ l.length := by
  induction l with
  | nil => simp [ofLe]
  | cons b bs ih =>
    have hb := b.toNat_lt
    rw [ofLe, List.length_cons, pow_succ]
    omega

@[simp]
theorem ofLe_replicate_zero (k : ℕ) : ofLe (List.replicate k 0) = 0 := by
  induction k with
  | zero => rfl
  | succ k ih => simp [List.replicate_succ, ofLe, ih]

/-- The bytes of the number that was read are the bytes it was read from. -/
theorem le_ofLe (l : Bytes) : le l.length (ofLe l) = l := by
  induction l with
  | nil => rfl
  | cons b bs ih =>
    have hb : b.toNat < 256 := b.toNat_lt
    rw [List.length_cons, le, ofLe, Nat.add_mul_div_left _ _ (by omega : 0 < 256),
      Nat.div_eq_of_lt hb, Nat.zero_add, ih]
    congr 1
    apply UInt8.toNat_inj.1
    rw [UInt8.toNat_ofNat', Nat.add_mul_mod_self_left]
    exact Nat.mod_eq_of_lt hb

/-- Integers that are equal have equal bytes. -/
theorem ofLe_inj {a b : Bytes} (hlen : a.length = b.length) (h : ofLe a = ofLe b) : a = b := by
  rw [← le_ofLe a, h, hlen, le_ofLe]

/-- Zeros behind the bytes of a number do not change it. -/
theorem ofLe_append_replicate_zero (l : Bytes) (k : ℕ) :
    ofLe (l ++ List.replicate k 0) = ofLe l := by
  induction l with
  | nil => simp [ofLe]
  | cons b bs ih => rw [List.cons_append, ofLe, ofLe, ih]

/-- Without its high bytes a number is no larger. -/
theorem ofLe_take_le (l : Bytes) (p : ℕ) : ofLe (l.take p) ≤ ofLe l := by
  induction l generalizing p with
  | nil => simp
  | cons b bs ih =>
    cases p with
    | zero => exact Nat.zero_le _
    | succ p =>
      have := ih p
      rw [List.take_succ_cons, ofLe, ofLe]
      omega

/-- The integer whose bytes in two's complement are given least significant first. -/
def ofLeInt (l : Bytes) : ℤ :=
  if 2 * ofLe l < 256 ^ l.length then ofLe l else ofLe l - 256 ^ l.length

theorem ofLeInt_of_lt {l : Bytes} (h : 2 * ofLe l < 256 ^ l.length) : ofLeInt l = ofLe l :=
  if_pos h

/-- The bytes of an integer that was read are the bytes it was read from. -/
theorem leInt_ofLeInt (l : Bytes) : leInt l.length (ofLeInt l) = l := by
  have hlt : (ofLe l : ℤ) < 256 ^ l.length := by exact_mod_cast ofLe_lt l
  have hmod : ofLeInt l % 256 ^ l.length = ofLe l := by
    rw [ofLeInt]
    split
    · exact Int.emod_eq_of_lt (Int.natCast_nonneg _) hlt
    · rw [Int.sub_emod_right]
      exact Int.emod_eq_of_lt (Int.natCast_nonneg _) hlt
  rw [leInt, hmod, Int.toNat_natCast, le_ofLe]

/-- Integers in two's complement that are equal have equal bytes. -/
theorem ofLeInt_inj {a b : Bytes} (hlen : a.length = b.length)
    (h : ofLeInt a = ofLeInt b) : a = b := by
  refine ofLe_inj hlen ?_
  have ha := ofLe_lt a
  have hb := ofLe_lt b
  rw [ofLeInt, ofLeInt, hlen] at h
  rw [hlen] at ha
  have hcast : ((256 ^ b.length : ℕ) : ℤ) = 256 ^ b.length := by push_cast; rfl
  rw [← hcast] at h
  split at h <;> split at h <;> omega

/-- An `int` holds the numbers below `2 ^ 31`. -/
theorem ofLeInt_le_iff {n : ℕ} : ofLeInt (le 4 n) = n ↔ n < 2 ^ 31 := by
  rw [ofLeInt, length_le, ofLe_le]
  norm_num
  split <;> omega

/-- A number as a `uint32_t` holds it. -/
def wrap32 (n : ℕ) : ℕ := n % 2 ^ 32

theorem wrap32_of_lt {n : ℕ} (h : n < 2 ^ 32) : wrap32 n = n := Nat.mod_eq_of_lt h

theorem wrap32_lt (n : ℕ) : wrap32 n < 2 ^ 32 := Nat.mod_lt n (Nat.two_pow_pos 32)

theorem wrap32_add_wrap32 (m n : ℕ) : wrap32 (wrap32 m + n) = wrap32 (m + n) :=
  Nat.mod_add_mod m (2 ^ 32) n

/-! ### Padding -/

/-- Pad on the right with `b` up to width `w`; a longer string is left as it is. -/
def ljust (w : ℕ) (b : UInt8) (l : Bytes) : Bytes := l ++ List.replicate (w - l.length) b

@[simp]
theorem length_ljust (w : ℕ) (b : UInt8) (l : Bytes) :
    (ljust w b l).length = max w l.length := by
  simp only [ljust, List.length_append, List.length_replicate]
  omega

theorem length_ljust_of_le {w : ℕ} {b : UInt8} {l : Bytes} (h : l.length ≤ w) :
    (ljust w b l).length = w := by
  rw [length_ljust]
  omega

/-! ### Fields at numeric offsets -/

/-- Padding with zeros does not change what is read with the default zero. -/
theorem getD_ljust (w : ℕ) (l : Bytes) (i : ℕ) : (ljust w 0 l).getD i 0 = l.getD i 0 := by
  rw [ljust]
  rcases Nat.lt_or_ge i l.length with hi | hi
  · exact List.getD_append _ _ _ _ hi
  · rw [List.getD_append_right _ _ _ _ hi, List.getD_eq_default _ _ hi]
    rcases Nat.lt_or_ge (i - l.length) (w - l.length) with hj | hj
    · exact List.getD_replicate 0 hj
    · exact List.getD_eq_default _ _ (by rwa [List.length_replicate])

/-- The `len` bytes from offset `off` on, as many of them as there are. -/
def slice (l : Bytes) (off len : ℕ) : Bytes := (l.drop off).take len

theorem length_slice {l : Bytes} {off len : ℕ} (h : off + len ≤ l.length) :
    (slice l off len).length = len := by
  simp only [slice, List.length_take, List.length_drop]
  omega

theorem getD_slice (l : Bytes) (off len j : ℕ) :
    (slice l off len).getD j 0 = if j < len then l.getD (off + j) 0 else 0 := by
  rw [slice, List.getD_eq_getElem?_getD, List.getElem?_take]
  split
  next => rw [List.getElem?_drop, List.getD_eq_getElem?_getD]
  next => rfl

/-- Strings of one length are equal if their bytes are. -/
theorem eq_iff_getD {a b : Bytes} (hlen : a.length = b.length) :
    a = b ↔ ∀ j < b.length, a.getD j 0 = b.getD j 0 := by
  refine ⟨fun h j _ ↦ by rw [h], fun h ↦ List.ext_getElem hlen fun j hja hjb ↦ ?_⟩
  have hj := h j hjb
  rwa [List.getD_eq_getElem _ _ hja, List.getD_eq_getElem _ _ hjb] at hj

/-- Two strings that agree in a slice and behind it agree from the slice on. -/
theorem drop_eq_of_slice {a b : Bytes} {off len : ℕ}
    (hslice : slice a off len = slice b off len)
    (hrest : a.drop (off + len) = b.drop (off + len)) : a.drop off = b.drop off := by
  rw [← List.take_append_drop len (a.drop off), ← List.take_append_drop len (b.drop off),
    List.drop_drop, List.drop_drop, hrest]
  exact congrArg (· ++ _) hslice

/-- A field that ends inside the first part of a concatenation is read from that part. -/
theorem slice_append_left {a b : Bytes} {off len : ℕ} (h : off + len ≤ a.length) :
    slice (a ++ b) off len = slice a off len := by
  rw [slice, slice, List.drop_append_of_le_length (by omega),
    List.take_append_of_le_length (by rw [List.length_drop]; omega)]

/-- A field that starts after the first part of a concatenation is read from the rest. -/
theorem slice_append_right {a b : Bytes} {off len : ℕ} :
    slice (a ++ b) (a.length + off) len = slice b off len := by
  rw [slice, slice, List.drop_append, List.drop_of_length_le (by omega), List.nil_append]
  congr 2
  omega

/-- **A piece of a concatenation is read back at the sum of the lengths before it.** -/
theorem slice_flatten (pre : List Bytes) (p : Bytes) (post : List Bytes) {off len : ℕ}
    (hoff : off = pre.flatten.length) (hlen : len = p.length) :
    slice (pre ++ p :: post).flatten off len = p := by
  subst hoff hlen
  rw [List.flatten_append, List.flatten_cons, ← Nat.add_zero pre.flatten.length,
    slice_append_right, slice_append_left (by omega), slice, List.drop_zero, List.take_length]

/-- A piece is found by its number. -/
theorem slice_flatten_of_getElem? {ps : List Bytes} {p : Bytes} {i off len : ℕ}
    (hp : ps[i]? = some p) (hoff : off = (ps.take i).flatten.length) (hlen : len = p.length) :
    slice ps.flatten off len = p := by
  obtain ⟨hi, hget⟩ := List.getElem?_eq_some_iff.1 hp
  have hsplit : ps = ps.take i ++ p :: ps.drop (i + 1) := by
    rw [← hget, ← List.drop_eq_getElem_cons hi, List.take_append_drop]
  rw [hsplit]
  exact slice_flatten _ _ _ hoff hlen

/-! ### Strings that are their own tail -/

/-- A string that does not change when its first `p` bytes are replaced by zeros behind it is
all zeros. -/
theorem eq_zero_of_shift {b : Bytes} {p j : ℕ} (hp : 0 < p)
    (h : b = b.drop p ++ List.replicate j 0) : ∀ a ∈ b, a = 0 := by
  intro a ha
  have hdrop : ∀ m, a = 0 ∨ a ∈ b.drop (p * m) := by
    intro m
    induction m with
    | zero => exact Or.inr (by simpa using ha)
    | succ m ih =>
      rcases ih with h0 | hm
      · exact Or.inl h0
      · rw [h, List.drop_append, List.drop_drop] at hm
        rcases List.mem_append.1 hm with hm | hm
        · exact Or.inr (by rwa [Nat.mul_succ, Nat.add_comm])
        · exact Or.inl (List.eq_of_mem_replicate (List.mem_of_mem_drop hm))
  have hlen : b.length ≤ p * b.length := Nat.le_mul_of_pos_left _ hp
  rcases hdrop b.length with h0 | hm
  · exact h0
  · rw [List.drop_of_length_le hlen] at hm
    exact absurd hm List.not_mem_nil

/-- A string of `k` blocks that does not change when its first block is replaced by `w` behind
it is `w` repeated. -/
theorem eq_flatten_replicate_of_shift {w : Bytes} {k : ℕ} {b : Bytes}
    (h : b = b.drop w.length ++ w) (hlen : b.length = w.length * k) :
    b = (List.replicate k w).flatten := by
  induction k generalizing b with
  | zero => exact List.eq_nil_of_length_eq_zero hlen
  | succ k ih =>
    rw [List.replicate_succ', List.flatten_append, List.flatten_singleton]
    have hrest : b.drop w.length = (List.replicate k w).flatten := by
      have hlen' : (b.drop w.length).length = w.length * k := by
        rw [List.length_drop, hlen, Nat.mul_succ, Nat.add_sub_cancel]
      cases k with
      | zero => exact List.eq_nil_of_length_eq_zero hlen'
      | succ k =>
        refine ih ?_ hlen'
        have hle : w.length ≤ (b.drop w.length).length := by
          rw [hlen', Nat.mul_succ]
          omega
        have hshift := congrArg (List.drop w.length) h
        rwa [List.drop_append_of_le_length hle] at hshift
    rw [← hrest]
    exact h

end Bytes

/-- A buffer of a fixed size. -/
structure Buf (n : ℕ) where
  /-- Its contents. -/
  bytes : Bytes
  /-- There are exactly `n` bytes. -/
  length_bytes : bytes.length = n
deriving DecidableEq

namespace Buf

variable {n : ℕ}

@[ext]
theorem ext {a b : Buf n} (h : a.bytes = b.bytes) : a = b := by
  cases a
  cases b
  congr

/-- A buffer after `memset(buf, 0, n)`. -/
def zero (n : ℕ) : Buf n := ⟨List.replicate n 0, List.length_replicate⟩

/-- Write some bytes from an offset on; the caller shows that they fit. -/
def write (b : Buf n) (off : ℕ) (src : Bytes) (h : off + src.length ≤ n) : Buf n where
  bytes := b.bytes.take off ++ src ++ b.bytes.drop (off + src.length)
  length_bytes := by
    have := b.length_bytes
    simp only [List.length_append, List.length_take, List.length_drop]
    omega

/-- What was written from the start is read back from there. -/
theorem take_write_zero (b : Buf n) (src : Bytes) (h : 0 + src.length ≤ n) :
    (b.write 0 src h).bytes.take src.length = src := by
  simp [write]

theorem bytes_write (b : Buf n) (off : ℕ) (src : Bytes) (h : off + src.length ≤ n) :
    (b.write off src h).bytes = b.bytes.take off ++ src ++ b.bytes.drop (off + src.length) := rfl

/-- Writing from the start. -/
theorem bytes_overwrite (b : Buf n) (src : Bytes) (h : 0 + src.length ≤ n) :
    (b.write 0 src h).bytes = src ++ b.bytes.drop src.length := by
  rw [bytes_write, List.take_zero, List.nil_append, Nat.zero_add]

/-- Writing the end of a zeroed buffer leaves zeros in front. -/
theorem bytes_write_end {off : ℕ} {src : Bytes} (h : off + src.length ≤ n)
    (hend : off + src.length = n) :
    ((zero n).write off src h).bytes = List.replicate off 0 ++ src := by
  rw [bytes_write, hend, zero, List.take_replicate, Nat.min_eq_left (hend ▸ Nat.le_add_right _ _),
    List.drop_replicate, Nat.sub_self, List.replicate_zero, List.append_nil]

/-- Writing from the start of a zeroed buffer pads with zeros. -/
theorem bytes_write_zero (src : Bytes) (h : 0 + src.length ≤ n) :
    ((zero n).write 0 src h).bytes = Bytes.ljust n 0 src := by
  simp [write, zero, Bytes.ljust]

end Buf
