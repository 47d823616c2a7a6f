import JuliusOS.Foundations.Bytes
import Mathlib.Tactic.NormNum

/-!
# C structs in memory

The layout of a C struct under natural alignment: every field is placed at the next multiple
of its alignment, and the size is rounded up to the largest alignment. A struct read from a
socket is then its fields' bytes at these offsets.

Only scalars and arrays of scalars occur, so a field is its size and its alignment.
-/

namespace StructLayout

/-- A field's size and alignment in bytes. -/
structure CType where
  /-- `sizeof`. -/
  size : ℕ
  /-- `_Alignof`. -/
  align : ℕ
deriving DecidableEq, Repr

/-- `char name[n]` or `uint8_t name[n]`. -/
def charArray (n : ℕ) : CType := ⟨n, 1⟩

/-- `int`, `uint32_t` or an `enum`. -/
def int32 : CType := ⟨4, 4⟩

/-- A 64-bit `time_t`. -/
def int64 : CType := ⟨8, 8⟩

/-- The next multiple of `a` from `off` on. -/
def alignUp (off a : ℕ) : ℕ := (off + a - 1) / a * a

/-- The offsets of a list of fields placed from `off` on. -/
def offsetsFrom : ℕ → List CType → List ℕ
  | _, [] => []
  | off, t :: ts => alignUp off t.align :: offsetsFrom (alignUp off t.align + t.size) ts

/-- The first byte behind a list of fields placed from `off` on. -/
def endFrom : ℕ → List CType → ℕ
  | off, [] => off
  | off, t :: ts => endFrom (alignUp off t.align + t.size) ts

/-- `offsetof` for every field of a struct. -/
def offsets (fields : List CType) : List ℕ := offsetsFrom 0 fields

/-- `sizeof` of a struct. -/
def sizeof (fields : List CType) : ℕ :=
  alignUp (endFrom 0 fields) (fields.foldr (fun t m ↦ max t.align m) 1)

/-- The bytes of field number `i` in the memory image of a struct. -/
def field (fields : List CType) (image : Bytes) (i : ℕ) : Bytes :=
  Bytes.slice image ((offsets fields).getD i 0) ((fields.map CType.size).getD i 0)

/-- The memory image of a struct. -/
structure Image (fields : List CType) where
  /-- Its bytes. -/
  bytes : Bytes
  /-- There are `sizeof` of them. -/
  length_bytes : bytes.length = sizeof fields
deriving DecidableEq

namespace Image

variable {fields : List CType} (s : Image fields)

/-- The bytes of field number `i`. -/
def field (i : ℕ) : Bytes := StructLayout.field fields s.bytes i

/-- The memory from field number `i` to the end of the struct: what a string function applied
to that field reads. -/
def memFrom (i : ℕ) : Bytes := s.bytes.drop ((offsets fields).getD i 0)

/-- Field number `i` as a little-endian `uint32_t`. -/
def u32 (i : ℕ) : ℕ := Bytes.ofLe ((s.field i).take 4)

/-- Field number `i` as a little-endian `int`, in two's complement. -/
def i32 (i : ℕ) : ℤ := if s.u32 i < 2 ^ 31 then s.u32 i else (s.u32 i : ℤ) - 2 ^ 32

theorem u32_lt (i : ℕ) : s.u32 i < 2 ^ 32 := by
  refine lt_of_lt_of_le (Bytes.ofLe_lt _) ?_
  rw [show (2 : ℕ) ^ 32 = 256 ^ 4 by norm_num]
  exact Nat.pow_le_pow_right (by omega) (List.length_take_le _ _)

/-- A field that lies inside the struct has its size. -/
theorem length_field {i : ℕ} (h : (offsets fields).getD i 0 + (fields.map CType.size).getD i 0 ≤
    sizeof fields) : (s.field i).length = (fields.map CType.size).getD i 0 :=
  Bytes.length_slice (by rw [s.length_bytes]; exact h)

/-- Fields with the same number are the same bytes. -/
theorem u32_inj {s t : Image fields} {i : ℕ} (hlen : (s.field i).length = 4)
    (hlen' : (t.field i).length = 4) (h : s.u32 i = t.u32 i) : s.field i = t.field i := by
  rw [u32, u32, List.take_of_length_le hlen.le, List.take_of_length_le hlen'.le] at h
  exact Bytes.ofLe_inj (hlen.trans hlen'.symm) h

theorem i32_inj {s t : Image fields} {i : ℕ} (h : s.i32 i = t.i32 i) : s.u32 i = t.u32 i := by
  have hs := s.u32_lt i
  have ht := t.u32_lt i
  rw [i32, i32] at h
  split at h <;> split at h <;> omega

/-- **In an image that is the concatenation of its fields' bytes** each field is read back,
provided that the bytes in front of it fill the struct up to its offset. -/
theorem field_flatten {s : Image fields} {i : ℕ} (pre : List Bytes) (p : Bytes)
    (post : List Bytes) (hs : s.bytes = (pre ++ p :: post).flatten)
    (hoff : (offsets fields).getD i 0 = pre.flatten.length)
    (hlen : (fields.map CType.size).getD i 0 = p.length) : s.field i = p := by
  rw [field, StructLayout.field, hs]
  exact Bytes.slice_flatten pre p post hoff hlen

/-- Likewise for a little-endian integer. -/
theorem u32_flatten {s : Image fields} {i n : ℕ} (pre post : List Bytes)
    (hs : s.bytes = (pre ++ Bytes.le 4 n :: post).flatten)
    (hoff : (offsets fields).getD i 0 = pre.flatten.length)
    (hlen : (fields.map CType.size).getD i 0 = 4) (hn : n < 2 ^ 32) : s.u32 i = n := by
  have hfour : (Bytes.le 4 n).length = 4 := Bytes.length_le 4 n
  rw [u32, field_flatten pre (Bytes.le 4 n) post hs hoff (hlen.trans hfour.symm),
    List.take_of_length_le hfour.le]
  exact Bytes.ofLe_le_of_lt (by simpa using hn)

/-- Likewise the memory from a field on. -/
theorem memFrom_flatten {s : Image fields} {i : ℕ} (pre post : List Bytes)
    (hs : s.bytes = (pre ++ post).flatten)
    (hoff : (offsets fields).getD i 0 = pre.flatten.length) : s.memFrom i = post.flatten := by
  rw [memFrom, hs, List.flatten_append, hoff, List.drop_left]

/-- The memory from a field on starts with the field. -/
theorem memFrom_eq (i : ℕ) : ∃ rest, s.memFrom i = s.field i ++ rest :=
  ⟨_, (List.take_append_drop _ _).symm⟩

end Image

end StructLayout
