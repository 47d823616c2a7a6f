import JuliusOS.Foundations.Stdio

/-!
# IPv4 addresses and ports

An address is its four bytes in network order; as a `uint32_t` of a little-endian machine it is
the number with these bytes. `inet_ntop` writes the dotted text if it is shorter than the size
it is given, as glibc does, and otherwise leaves the buffer alone: a size of 15 is too little
for `255.255.255.255`.
-/

open Bytes CString Stdio

namespace Inet

/-- `struct in_addr`. -/
structure InAddr where
  a : UInt8
  b : UInt8
  c : UInt8
  d : UInt8
deriving DecidableEq

namespace InAddr

/-- The `uint32_t` with the bytes of an address. -/
def word (x : InAddr) : ℕ := ofLe [x.a, x.b, x.c, x.d]

/-- The address with the bytes of a `uint32_t`. -/
def ofWord (n : ℕ) : InAddr :=
  ⟨UInt8.ofNat n, UInt8.ofNat (n / 256), UInt8.ofNat (n / 256 / 256),
    UInt8.ofNat (n / 256 / 256 / 256)⟩

/-- The dotted text of an address. -/
def text (x : InAddr) : Bytes :=
  decimal x.a.toNat ++ 46 :: (decimal x.b.toNat ++ 46 :: (decimal x.c.toNat ++ 46 ::
    decimal x.d.toNat))

theorem word_lt (x : InAddr) : x.word < 256 ^ 4 := ofLe_lt _

theorem ofWord_word (x : InAddr) : ofWord x.word = x := by
  have hbytes : [(ofWord x.word).a, (ofWord x.word).b, (ofWord x.word).c, (ofWord x.word).d] =
      [x.a, x.b, x.c, x.d] := le_ofLe [x.a, x.b, x.c, x.d]
  injection hbytes with ha hrest
  injection hrest with hb hrest
  injection hrest with hc hrest
  injection hrest with hd
  obtain ⟨a, b, c, d⟩ := x
  exact (InAddr.mk.injEq ..).mpr ⟨ha, hb, hc, hd⟩

theorem zero_notMem_text (x : InAddr) : (0 : UInt8) ∉ x.text := by
  have hdigits : ∀ n, (0 : UInt8) ∉ decimal n := notMem_decimal (by decide)
  simp [text, hdigits]

/-- A dotted text has at most 15 characters. -/
theorem length_text_le (x : InAddr) : x.text.length ≤ 15 := by
  have hbyte : ∀ b : UInt8, (decimal b.toNat).length ≤ 3 := fun b ↦ by
    rw [length_decimal_le_iff (by decide)]
    exact lt_of_lt_of_le b.toNat_lt (by decide)
  have ha := hbyte x.a
  have hb := hbyte x.b
  have hc := hbyte x.c
  have hd := hbyte x.d
  simp only [text, List.length_append, List.length_cons]
  omega

end InAddr

/-- `ntohs(port)`: the low two bytes, swapped. -/
def ntohs (port : ℕ) : ℕ := port % 256 * 256 + port / 256 % 256

/-- A port is left as it is exactly if its two bytes are equal. -/
theorem ntohs_eq_self_iff {port : ℕ} (h : port < 2 ^ 16) :
    ntohs port = port ↔ port / 256 = port % 256 := by
  rw [ntohs]
  omega

end Inet

/-- `inet_ntop(AF_INET, &addr, dst, size)`. -/
def Buf.inetNtop {n : ℕ} (dst : Buf n) (addr : Inet.InAddr) (size : ℕ) (h : size ≤ n) : Buf n :=
  if hlen : addr.text.length < size then dst.strcpy addr.text (Nat.lt_of_lt_of_le hlen h) else dst

/-- The text that `inet_ntop` leaves. -/
theorem Buf.cstr_inetNtop {n : ℕ} (dst : Buf n) (addr : Inet.InAddr) (size : ℕ) (h : size ≤ n) :
    cstr (dst.inetNtop addr size h).bytes =
      if addr.text.length < size then addr.text else cstr dst.bytes := by
  rw [Buf.inetNtop]
  split
  next hlen =>
    rw [Buf.strcpy, Buf.bytes_overwrite, List.append_assoc, List.singleton_append,
      cstr_append_zero addr.zero_notMem_text]
  next => rfl
