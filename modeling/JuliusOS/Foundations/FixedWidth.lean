import JuliusOS.Foundations.StructLayout
import Mathlib.Order.Basic

/-!
# Messages of fixed-width fields

A client that does not have the C struct builds its message by hand: it pads every text to the
width of its field, packs every number, and sends the pieces one behind the other. `Framed` is
what the receiver expects of the result: as many bytes as the struct has, and at each field's
offset the value meant for it, texts cut at most.

Padding never cuts, so one text that is too long makes the message too long and shifts all that
follows. `framed_flatMap_iff` says that nothing else can go wrong in a struct without padding of
its own (`Packed`): the message is framed exactly if every text fits its field.
-/

namespace StructLayout

/-! ### Structs without padding -/

/-- Every field is a whole number of words, and none asks for more than word alignment. -/
def Packed (fields : List CType) : Prop :=
  ∀ t ∈ fields, 0 < t.align ∧ t.align ∣ 4 ∧ 4 ∣ t.size

instance (fields : List CType) : Decidable (Packed fields) :=
  inferInstanceAs (Decidable (∀ t ∈ fields, 0 < t.align ∧ t.align ∣ 4 ∧ 4 ∣ t.size))

/-- The sizes of the fields, added up. -/
def totalSize (fields : List CType) : ℕ := (fields.map CType.size).sum

theorem totalSize_cons (t : CType) (ts : List CType) :
    totalSize (t :: ts) = t.size + totalSize ts := List.sum_cons

theorem alignUp_of_dvd {off a : ℕ} (ha : 0 < a) (h : a ∣ off) : alignUp off a = off := by
  obtain ⟨k, rfl⟩ := h
  rw [alignUp, Nat.add_sub_assoc ha, Nat.mul_add_div ha, Nat.div_eq_of_lt (by omega),
    Nat.add_zero, Nat.mul_comm]

theorem Packed.tail {t : CType} {ts : List CType} (h : Packed (t :: ts)) : Packed ts :=
  fun u hu ↦ h u (List.mem_cons_of_mem _ hu)

/-- At a word boundary, the first field is placed right there. -/
theorem Packed.alignUp {t : CType} {ts : List CType} (h : Packed (t :: ts)) {off : ℕ}
    (hoff : 4 ∣ off) : alignUp off t.align = off :=
  alignUp_of_dvd (h t (List.mem_cons_self ..)).1 ((h t (List.mem_cons_self ..)).2.1.trans hoff)

/-- And the next word boundary is behind it. -/
theorem Packed.dvd_add {t : CType} {ts : List CType} (h : Packed (t :: ts)) {off : ℕ}
    (hoff : 4 ∣ off) : 4 ∣ off + t.size :=
  Nat.dvd_add hoff (h t (List.mem_cons_self ..)).2.2

theorem Packed.dvd_totalSize {fields : List CType} (h : Packed fields) : 4 ∣ totalSize fields := by
  induction fields with
  | nil => exact Nat.dvd_zero 4
  | cons t ts ih =>
    rw [totalSize_cons]
    exact Nat.dvd_add (h t (List.mem_cons_self ..)).2.2 (ih h.tail)

theorem Packed.endFrom {fields : List CType} (h : Packed fields) {off : ℕ} (hoff : 4 ∣ off) :
    endFrom off fields = off + totalSize fields := by
  induction fields generalizing off with
  | nil => rfl
  | cons t ts ih =>
    rw [StructLayout.endFrom, h.alignUp hoff, ih h.tail (h.dvd_add hoff), totalSize_cons,
      Nat.add_assoc]

/-- **A field's offset** is the size of what is in front of it. -/
theorem Packed.getD_offsetsFrom {fields : List CType} (h : Packed fields) {off : ℕ}
    (hoff : 4 ∣ off) {i : ℕ} (hi : i < fields.length) :
    (offsetsFrom off fields).getD i 0 = off + totalSize (fields.take i) := by
  induction fields generalizing off i with
  | nil => exact absurd hi (Nat.not_lt_zero i)
  | cons t ts ih =>
    rw [offsetsFrom, h.alignUp hoff]
    cases i with
    | zero => rfl
    | succ i =>
      rw [List.getD_cons_succ, ih h.tail (h.dvd_add hoff) (Nat.lt_of_succ_lt_succ hi),
        List.take_succ_cons, totalSize_cons, Nat.add_assoc]

/-- **The size of the struct** is that of its fields. -/
theorem Packed.sizeof {fields : List CType} (h : Packed fields) :
    sizeof fields = totalSize fields := by
  have hmax : ∀ ts : List CType, Packed ts →
      0 < ts.foldr (fun t m ↦ max t.align m) 1 ∧ ts.foldr (fun t m ↦ max t.align m) 1 ∣ 4 := by
    intro ts hts
    induction ts with
    | nil => decide
    | cons t ts ih =>
      obtain ⟨hpos, hdvd⟩ := ih hts.tail
      obtain ⟨hpos', hdvd', -⟩ := hts t (List.mem_cons_self ..)
      rw [List.foldr_cons]
      rcases max_choice t.align (ts.foldr (fun t m ↦ max t.align m) 1) with heq | heq
      · rw [heq]
        exact ⟨hpos', hdvd'⟩
      · rw [heq]
        exact ⟨hpos, hdvd⟩
  obtain ⟨hpos, hdvd⟩ := hmax fields h
  rw [StructLayout.sizeof, h.endFrom (Nat.dvd_zero 4), Nat.zero_add,
    alignUp_of_dvd hpos (hdvd.trans h.dvd_totalSize)]

/-! ### Messages -/

/-- A value on its way into a field. -/
inductive Value
  /-- A text for a `char` array. -/
  | text (width : ℕ) (value : Bytes)
  /-- A number for a 32-bit field. -/
  | number (n : ℕ)

namespace Value

/-- The value as it is sent: a text padded with zeros to the width, or a packed number. -/
def bytes : Value → Bytes
  | text width value => Bytes.ljust width 0 value
  | number n => Bytes.le 4 n

/-- The field it is meant for. -/
def ctype : Value → CType
  | text width _ => charArray width
  | number _ => int32

/-- A text fits its field. -/
def Fits : Value → Prop
  | text width value => value.length ≤ width
  | number _ => True

/-- What the field holds is the value: a prefix of the text with zeros behind it, or the number. -/
def ReadAs : Value → Bytes → Prop
  | text width value, field => ∃ n, field = Bytes.ljust width 0 (value.take n)
  | number n, field => field = Bytes.le 4 n

theorem size_le_length (v : Value) : v.ctype.size ≤ v.bytes.length := by
  cases v with
  | text width value =>
    rw [bytes, Bytes.length_ljust]
    exact Nat.le_max_left _ _
  | number n => exact (Bytes.length_le 4 n).ge

theorem fits_iff (v : Value) : v.Fits ↔ v.bytes.length = v.ctype.size := by
  cases v with
  | text width value =>
    rw [bytes, Bytes.length_ljust]
    exact max_eq_left_iff.symm
  | number n => exact iff_of_true trivial (Bytes.length_le 4 n)

/-- A value that is sent whole can be read. -/
theorem readAs_bytes (v : Value) : v.ReadAs v.bytes := by
  cases v with
  | text width value => exact ⟨value.length, by rw [List.take_length]; rfl⟩
  | number n => exact rfl

end Value

/-- A message that fills the struct and has every value in its field. -/
structure Framed (fields : List CType) (values : List Value) (msg : Bytes) : Prop where
  /-- It has the struct's size. -/
  length : msg.length = sizeof fields
  /-- Each field holds its value, or a prefix of it. -/
  read : ∀ i (v : Value), values[i]? = some v → v.ReadAs (field fields msg i)

/-- Values that fit are as long as their fields. -/
theorem length_flatMap_bytes {values : List Value} (h : ∀ v ∈ values, v.Fits) :
    (values.flatMap Value.bytes).length = totalSize (values.map Value.ctype) := by
  induction values with
  | nil => rfl
  | cons v vs ih =>
    have hv := (Value.fits_iff v).1 (h v (List.mem_cons_self ..))
    rw [List.flatMap_cons, List.length_append, hv, ih fun u hu ↦ h u (List.mem_cons_of_mem _ hu),
      List.map_cons, totalSize_cons]

theorem totalSize_le_length (values : List Value) :
    totalSize (values.map Value.ctype) ≤ (values.flatMap Value.bytes).length := by
  induction values with
  | nil => exact Nat.zero_le _
  | cons v vs ih =>
    rw [List.flatMap_cons, List.length_append, List.map_cons, totalSize_cons]
    exact Nat.add_le_add v.size_le_length ih

/-- No value is shorter than its field, so a message of the right size has only values that fit. -/
theorem fits_of_length {values : List Value}
    (h : (values.flatMap Value.bytes).length = totalSize (values.map Value.ctype)) :
    ∀ v ∈ values, v.Fits := by
  induction values with
  | nil => exact List.forall_mem_nil _
  | cons v vs ih =>
    rw [List.flatMap_cons, List.length_append, List.map_cons, totalSize_cons] at h
    have hv := v.size_le_length
    have hvs := totalSize_le_length vs
    exact List.forall_mem_cons.2 ⟨(Value.fits_iff v).2 (by omega), ih (by omega)⟩

/-- **Values that fit are read back**, each at the offset of its field. -/
theorem field_flatMap_bytes {values : List Value} (h : Packed (values.map Value.ctype))
    (hfits : ∀ v ∈ values, v.Fits) {i : ℕ} {v : Value} (hv : values[i]? = some v) :
    field (values.map Value.ctype) (values.flatMap Value.bytes) i = v.bytes := by
  obtain ⟨hi, hget⟩ := List.getElem?_eq_some_iff.1 hv
  have hsplit : values.flatMap Value.bytes = ((values.take i).map Value.bytes ++
      v.bytes :: (values.drop (i + 1)).map Value.bytes).flatten := by
    rw [← hget, ← List.map_cons, ← List.drop_eq_getElem_cons hi, ← List.map_append,
      List.take_append_drop, List.flatMap_def]
  have hoff : (offsets (values.map Value.ctype)).getD i 0 =
      ((values.take i).map Value.bytes).flatten.length := by
    rw [offsets, h.getD_offsetsFrom (Nat.dvd_zero 4) (by rwa [List.length_map]), Nat.zero_add,
      ← List.map_take, ← List.flatMap_def,
      length_flatMap_bytes fun u hu ↦ hfits u (List.mem_of_mem_take hu)]
  have hsize : ((values.map Value.ctype).map CType.size).getD i 0 = v.bytes.length := by
    rw [v.fits_iff.1 (hfits v (List.mem_of_getElem? hv)),
      List.getD_eq_getElem _ _ (by simpa using hi)]
    simp [hget]
  rw [field, hsplit]
  exact Bytes.slice_flatten _ _ _ hoff hsize

/-- **The exact condition for a framed message.** The pieces of a struct without padding, one
behind the other, are the struct exactly if every text fits its field. -/
theorem framed_flatMap_iff {values : List Value} (h : Packed (values.map Value.ctype)) :
    Framed (values.map Value.ctype) values (values.flatMap Value.bytes) ↔
      ∀ v ∈ values, v.Fits := by
  constructor
  · intro hframed
    exact fits_of_length (hframed.length.trans h.sizeof)
  · intro hfits
    refine ⟨(length_flatMap_bytes hfits).trans h.sizeof.symm, fun i v hv ↦ ?_⟩
    rw [field_flatMap_bytes h hfits hv]
    exact v.readAs_bytes

end StructLayout
