import JuliusOS.Foundations.StructLayout

/-!
# Fingerprints

`services/julius_security/fingerprint_auth.c`. Enrolment reads the sensor three times, adds up a
third of every byte of each reading and stores the sum with its SHA-256; verification hashes one
reading as it is and compares the two hashes, byte by byte, with a tolerance.

The thirds are integer quotients. The sum of three equal readings is the reading only if each of its
bytes is a multiple of 3, and a hash function need not bring the hashes of two different inputs
close together: an enrolled finger is sure to verify exactly in that case (`verifies_iff`).
-/

open StructLayout

namespace JuliusOS.Security

/-! ### The template -/

/-- The fields of `FPTemplate`: `data`, `size`, `hash`. -/
def fpTemplateFields : List CType := [charArray 512, int32, charArray 32]

/-- An `FPTemplate` in memory, and in its file. -/
abbrev FPTemplate := Image fpTemplateFields

/-- SHA-256, of which nothing is assumed but the length of a digest. -/
abbrev Sha256 := Bytes → Buf 32

/-- What one `read` of the sensor puts into `raw`; nothing where it fails. -/
def fpReadRaw (reading : Bytes) : Bytes := reading.take 512

/-- `tpl.data[j] += raw[j] / 3`, for the bytes that were read. -/
def addSample (data : Buf 512) (raw : Bytes) : Buf 512 where
  bytes := List.zipWith (fun d b ↦ d + b / 3) data.bytes raw ++ data.bytes.drop raw.length
  length_bytes := by
    rw [List.length_append, List.length_zipWith, List.length_drop, data.length_bytes]
    omega

/-- `tpl.data` after some of the samples; `none` where a read has failed. -/
def samples (readings : ℕ → Bytes) : ℕ → Option (Buf 512)
  | 0 => some (.zero 512)
  | i + 1 => (samples readings i).bind fun data ↦
    if readings i = [] then none else some (addSample data (fpReadRaw (readings i)))

/-- The template of the summed samples. -/
def template (sha : Sha256) (data : Buf 512) : FPTemplate where
  bytes := data.bytes ++ (Bytes.le 4 512 ++ (sha data.bytes).bytes)
  length_bytes := by
    rw [List.length_append, List.length_append, data.length_bytes, Bytes.length_le,
      (sha data.bytes).length_bytes]
    rfl

/-- What becomes of the template's file: whether it can be opened, and how many of the bytes that
are written reach it. -/
structure Disk where
  opens : Bool
  kept : ℕ

/-- `fp_enroll`, from the template file on. The write is not checked. -/
def fpEnroll (sha : Sha256) (readings : ℕ → Bytes) (disk : Disk) (file : Option Bytes) :
    ℤ × Option Bytes :=
  match samples readings 3 with
  | none => (-1, file)
  | some data =>
    if disk.opens then (0, some ((template sha data).bytes.take disk.kept)) else (-1, file)

/-! ### Verification -/

/-- `fread(&stored, sizeof(stored), 1, f)`. -/
def fread (stored : FPTemplate) (content : Bytes) : FPTemplate where
  bytes := content.take (sizeof fpTemplateFields) ++ stored.bytes.drop content.length
  length_bytes := by
    rw [List.length_append, List.length_take, List.length_drop, stored.length_bytes]
    omega

/-- The sum of the differences of the hashes' bytes. -/
def diff (hash stored : Bytes) : ℕ :=
  (List.zipWith (fun a b ↦ ((a.toNat : ℤ) - b.toNat).natAbs) hash stored).foldl (· + ·) 0

/-- One try: a reading whose hash is near the stored one. -/
def accepts (sha : Sha256) (stored : FPTemplate) (reading : Bytes) : Bool :=
  let raw := fpReadRaw reading
  !raw.isEmpty && decide (diff (sha raw).bytes (stored.field 2) < 32 * 38)

/-- `fp_verify`, with what `stored` holds before it is read. The first of ten tries that is accepted
ends the loop. -/
def fpVerify (sha : Sha256) (readings : ℕ → Bytes) (stored : FPTemplate) :
    Option Bytes → ℤ
  | none => 0
  | some content =>
    if (List.range 10).any fun i ↦ accepts sha (fread stored content) (readings i) then 1 else 0

/-- A finger that reads as `r` verifies once it is enrolled, whatever the hash function is: where
the three samples are `r` and the whole template is stored, a later reading equal to `r` is accepted
by `fp_verify`. -/
def Verifies (r : Buf 512) : Prop :=
  ∀ (sha : Sha256) (samples : ℕ → Bytes) (disk : Disk) (file : Option Bytes),
    (∀ i < 3, samples i = r.bytes) → (fpEnroll sha samples disk file).1 = 0 →
    sizeof fpTemplateFields ≤ disk.kept →
      ∀ (readings : ℕ → Bytes) (stored : FPTemplate), (∃ i < 10, readings i = r.bytes) →
        fpVerify sha readings stored (fpEnroll sha samples disk file).2 = 1

/-! ### Three equal samples -/

variable {r : Buf 512} {sha : Sha256} {content : Bytes} {stored : FPTemplate}

/-- A byte of the template of three equal samples. -/
def thirds (b : UInt8) : UInt8 := b / 3 + b / 3 + b / 3

/-- The thirds of a byte add up to it exactly if it is a multiple of 3. -/
theorem thirds_eq_iff (b : UInt8) : thirds b = b ↔ b.toNat % 3 = 0 := by
  have hlt : b.toNat < 256 := b.toNat_lt
  have hsum : (thirds b).toNat = b.toNat / 3 + b.toNat / 3 + b.toNat / 3 := by
    have hdiv : (b / 3).toNat = b.toNat / 3 := UInt8.toNat_div b 3
    rw [thirds, UInt8.toNat_add, UInt8.toNat_add, hdiv]
    omega
  rw [← UInt8.toNat_inj, hsum]
  omega

theorem bytes_addSample {data : Buf 512} {g : UInt8 → UInt8} (hdata : data.bytes = r.bytes.map g) :
    (addSample data r.bytes).bytes = r.bytes.map fun b ↦ g b + b / 3 := by
  have hdrop : data.bytes.drop r.bytes.length = [] :=
    List.drop_eq_nil_of_le (by rw [data.length_bytes, r.length_bytes])
  have hbytes : (addSample data r.bytes).bytes =
      List.zipWith (fun d b ↦ d + b / 3) data.bytes r.bytes ++ data.bytes.drop r.bytes.length := rfl
  rw [hbytes, hdrop, List.append_nil, hdata, List.zipWith_map_left, List.zipWith_self]

/-- **Three equal samples add up to their bytes' thirds.** -/
theorem samples_three (readings : ℕ → Bytes) (hread : ∀ i < 3, readings i = r.bytes) :
    ∃ data, samples readings 3 = some data ∧ data.bytes = r.bytes.map thirds := by
  have hne : r.bytes ≠ [] := List.ne_nil_of_length_pos (by rw [r.length_bytes]; decide)
  have hraw : fpReadRaw r.bytes = r.bytes := List.take_of_length_le r.length_bytes.le
  have hnext : ∀ i < 3, ∀ data, samples readings i = some data →
      samples readings (i + 1) = some (addSample data r.bytes) := by
    intro i hi data hdata
    rw [samples, hdata, Option.bind_some, hread i hi, if_neg hne, hraw]
  have hzero : (Buf.zero 512).bytes = r.bytes.map fun _ ↦ 0 := by
    rw [List.map_const', r.length_bytes]
    rfl
  have h₁ := bytes_addSample hzero
  have h₂ := bytes_addSample h₁
  have h₃ := bytes_addSample h₂
  refine ⟨_, hnext 2 (by decide) _ (hnext 1 (by decide) _ (hnext 0 (by decide) _ rfl)), ?_⟩
  rw [h₃]
  refine List.map_congr_left fun b _ ↦ ?_
  rw [thirds, UInt8.zero_add]

/-! ### Verification of an enrolled reading -/

/-- The whole template is read back from its file. -/
theorem fread_template (data : Buf 512) {kept : ℕ} (hkept : sizeof fpTemplateFields ≤ kept) :
    fread stored ((template sha data).bytes.take kept) = template sha data := by
  have hlen := (template sha data).length_bytes
  have htake : (template sha data).bytes.take kept = (template sha data).bytes :=
    List.take_of_length_le (hlen.le.trans hkept)
  have hdrop : stored.bytes.drop (template sha data).bytes.length = [] :=
    List.drop_eq_nil_of_le (by rw [hlen, stored.length_bytes])
  have hbytes : (fread stored (template sha data).bytes).bytes = (template sha data).bytes := by
    show (template sha data).bytes.take (sizeof fpTemplateFields) ++
      stored.bytes.drop (template sha data).bytes.length = (template sha data).bytes
    rw [hdrop, List.append_nil]
    exact List.take_of_length_le hlen.le
  rw [htake]
  exact Image.mk.injEq _ _ _ _ |>.mpr hbytes

theorem hash_template (data : Buf 512) :
    (template sha data).field 2 = (sha data.bytes).bytes :=
  Image.field_flatten [data.bytes, Bytes.le 4 512] (sha data.bytes).bytes []
    (by simp [template]) (by simp [Buf.length_bytes]; rfl) (sha data.bytes).length_bytes.symm

theorem foldl_add_replicate_zero (n : ℕ) : (List.replicate n 0).foldl (· + ·) 0 = 0 := by
  induction n with
  | zero => rfl
  | succ n ih => exact ih

/-- A hash is at no distance from itself. -/
theorem diff_self (hash : Bytes) : diff hash hash = 0 := by
  have hzero : List.zipWith (fun a b : UInt8 ↦ ((a.toNat : ℤ) - b.toNat).natAbs) hash hash =
      List.replicate hash.length 0 := by
    rw [List.zipWith_self, ← List.map_const']
    refine List.map_congr_left fun b _ ↦ ?_
    rw [Int.sub_self]
    rfl
  rw [diff, hzero, foldl_add_replicate_zero]

/-- **What becomes of an enrolled reading**: the verification of a reading is that of its hash
against the hash of the thirds. -/
theorem accepts_enrolled (stored : FPTemplate) {samples : ℕ → Bytes} {disk : Disk}
    {file : Option Bytes} (hread : ∀ i < 3, samples i = r.bytes)
    (hok : (fpEnroll sha samples disk file).1 = 0) (hkept : sizeof fpTemplateFields ≤ disk.kept) :
    ∃ content, (fpEnroll sha samples disk file).2 = some content ∧
      (accepts sha (fread stored content) r.bytes = true ↔
        diff (sha r.bytes).bytes (sha (r.bytes.map thirds)).bytes < 32 * 38) := by
  obtain ⟨data, hdata, hthirds⟩ := samples_three samples hread
  rw [fpEnroll, hdata] at hok ⊢
  dsimp only at hok ⊢
  cases hopens : disk.opens with
  | false =>
    rw [hopens] at hok
    cases hok
  | true =>
    refine ⟨_, rfl, ?_⟩
    have hraw : fpReadRaw r.bytes = r.bytes := List.take_of_length_le r.length_bytes.le
    have hne : r.bytes.isEmpty = false := by
      rw [List.isEmpty_eq_false_iff]
      exact List.ne_nil_of_length_pos (by rw [r.length_bytes]; decide)
    rw [accepts, hraw, hne, fread_template data hkept, hash_template, hthirds]
    simp only [Bool.not_false, Bool.true_and, decide_eq_true_eq]

/-- If the thirds add up, the reading is the enrolled data. -/
theorem verifies_of_thirds (h : r.bytes.map thirds = r.bytes) : Verifies r := by
  intro sha samples disk file hread hok hkept readings stored ⟨i, hi, hreading⟩
  obtain ⟨content, hcontent, haccepts⟩ := accepts_enrolled stored hread hok hkept
  have haccept : accepts sha (fread stored content) (readings i) = true := by
    rw [hreading, haccepts, h, diff_self]
    decide
  rw [hcontent, fpVerify, if_pos]
  exact List.any_eq_true.2 ⟨i, List.mem_range.2 hi, haccept⟩

/-- A hash function that is far from everything at one input. -/
def farAt (input : Bytes) : Sha256 := fun bytes ↦
  if bytes = input then ⟨List.replicate 32 255, List.length_replicate⟩ else .zero 32

/-- If they do not, a hash function may tell the two apart. -/
theorem not_verifies_of_thirds (h : r.bytes.map thirds ≠ r.bytes) : ¬ Verifies r := by
  intro hverifies
  have hok : (fpEnroll (farAt r.bytes) (fun _ ↦ r.bytes) ⟨true, 548⟩ none).1 = 0 := by
    obtain ⟨data, hdata, -⟩ := samples_three (fun _ ↦ r.bytes) fun _ _ ↦ rfl
    rw [fpEnroll, hdata]
    rfl
  have hkept : sizeof fpTemplateFields ≤ 548 := by decide
  let stored : FPTemplate := template (farAt r.bytes) (.zero 512)
  obtain ⟨content, hcontent, haccepts⟩ := accepts_enrolled stored (fun _ _ ↦ rfl) hok hkept
  have hone := hverifies (farAt r.bytes) (fun _ ↦ r.bytes) ⟨true, 548⟩ none (fun _ _ ↦ rfl) hok
    hkept (fun _ ↦ r.bytes) stored ⟨0, by decide, rfl⟩
  rw [hcontent, fpVerify] at hone
  split at hone
  next hany =>
    obtain ⟨_, -, haccept⟩ := List.any_eq_true.1 hany
    have hdiff := haccepts.1 haccept
    have hfar : farAt r.bytes r.bytes = ⟨List.replicate 32 255, List.length_replicate⟩ := if_pos rfl
    have hnear : farAt r.bytes (r.bytes.map thirds) = .zero 32 := if_neg h
    rw [hfar, hnear] at hdiff
    exact absurd hdiff (by decide)
  next => cases hone

theorem map_thirds_eq_iff :
    r.bytes.map thirds = r.bytes ↔ ∀ b ∈ r.bytes, b.toNat % 3 = 0 := by
  have hid : r.bytes.map thirds = r.bytes ↔ ∀ b ∈ r.bytes, thirds b = b := by
    conv_lhs => rw [← List.map_id r.bytes, List.map_map]
    exact List.map_inj_left
  rw [hid]
  exact forall₂_congr fun b _ ↦ thirds_eq_iff b

/-- **An enrolled finger is sure to verify exactly if every byte of its reading is a multiple
of 3.** -/
theorem verifies_iff (r : Buf 512) : Verifies r ↔ ∀ b ∈ r.bytes, b.toNat % 3 = 0 := by
  rw [← map_thirds_eq_iff]
  refine ⟨fun hverifies ↦ ?_, verifies_of_thirds⟩
  by_contra hne
  exact not_verifies_of_thirds hne hverifies

/-- The reading of which every byte is 1. -/
def ones : Buf 512 := ⟨List.replicate 512 1, List.length_replicate⟩

/-- It need not verify: its thirds are 0. -/
theorem not_verifies_ones : ¬ Verifies ones := by
  refine not_verifies_of_thirds fun h ↦ ?_
  rw [map_thirds_eq_iff] at h
  exact absurd (h 1 (List.mem_replicate.2 ⟨by decide, rfl⟩)) (by decide)

end JuliusOS.Security
