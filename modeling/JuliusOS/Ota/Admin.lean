import JuliusOS.Ota.Header

/-!
# The admin check of the OTA client

`verify_admin` compares the header's key with the first line of `/etc/julius/admin.key`. Two
things it does not look at decide what it compares with: whether `fgets` read anything, and
whether the line fitted the buffer.

* A file that is empty leaves whatever the stack held (`storedText`).
* A first line that is empty stores the empty key, which every header with an empty key has.
* A line of 256 bytes or more is cut, so a key of 255 bytes passes for it and the key itself
  does not; a line with a NUL in it ends there.

`KeyLine` says which lines are kept as they are. For them the check is exact, and
`verifyAdmin_sound_iff` says for which headers it is right all the same in the other cases.
The header's key need not have a NUL in its field, and `strcmp` then runs on into the size;
that alone does no harm, because a stored key is always shorter than the field.
-/

open CString StructLayout Bytes

namespace JuliusOS.Ota

/-- **What the check is for**: the file has a first line, it is not empty, and it is the
header's key. -/
def AdminKeyMatches (adminKeyFile : Option Bytes) (hdr : OTAHeader) : Prop :=
  ∃ content, adminKeyFile = some content ∧ firstLine content ≠ [] ∧
    cstr hdr.adminKey = firstLine content

/-- A line that the client's buffer can hold: neither empty nor too long, and without a NUL. -/
def KeyLine (line : Bytes) : Prop := line ≠ [] ∧ line.length ≤ 255 ∧ (0 : UInt8) ∉ line

instance (line : Bytes) : Decidable (KeyLine line) := inferInstanceAs (Decidable (_ ∧ _ ∧ _))

/-- The text that is compared with: for an empty file the first line of what the stack held. -/
def storedText (stack content : Bytes) : Bytes :=
  if content = [] then firstLine (cstr stack) else cstr ((firstLine content).take 255)

variable {stack content : Bytes} {hdr : OTAHeader}

/-- **The check compares with the stored text**, whatever the file is. -/
theorem verifyAdmin_eq_true {key : Bytes} :
    verifyAdmin stack (some content) key = true ↔ cstr key = storedText stack content := by
  rw [verifyAdmin, strcmpEq_iff, cstr_cutNewline, storedText]
  split
  next h =>
    rw [h]
    exact Iff.rfl
  next h => rw [firstLine_cstr_fgets (by decide) h]

theorem storedText_of_keyLine (h : KeyLine (firstLine content)) :
    storedText stack content = firstLine content := by
  obtain ⟨hne, hlen, hfree⟩ := h
  have hcontent : content ≠ [] := by
    rintro rfl
    exact hne rfl
  rw [storedText, if_neg hcontent, List.take_of_length_le hlen, cstr_eq_self hfree]

/-! ### The key in the header -/

theorem length_adminKey (hdr : OTAHeader) : hdr.adminKey.length = 256 := by
  have hfield : hdr.adminKey = slice hdr.bytes 48 256 := rfl
  rw [hfield, length_slice]
  rw [hdr.length_bytes]
  decide

/-- `strcmp` reads the key of a terminated field, and at least 256 bytes of any other. -/
theorem cstr_memFrom_adminKey (hdr : OTAHeader) :
    (0 : UInt8) ∈ hdr.adminKey ∧ cstr (hdr.memFrom 2) = cstr hdr.adminKey ∨
      256 ≤ (cstr (hdr.memFrom 2)).length ∧ cstr hdr.adminKey = hdr.adminKey := by
  obtain ⟨rest, hrest⟩ := hdr.memFrom_eq 2
  have hmem : hdr.memFrom 2 = hdr.adminKey ++ rest := hrest
  by_cases h : (0 : UInt8) ∈ hdr.adminKey
  · rw [hmem]
    exact Or.inl ⟨h, cstr_append_of_mem h⟩
  · refine Or.inr ⟨?_, cstr_eq_self h⟩
    rw [hmem, cstr_append_of_notMem h, List.length_append, length_adminKey]
    exact Nat.le_add_right ..

/-- For a line that is kept as it is, the field and the memory behind it make no difference. -/
theorem cstr_memFrom_eq_iff {line : Bytes} (h : KeyLine line) :
    cstr (hdr.memFrom 2) = line ↔ cstr hdr.adminKey = line := by
  obtain ⟨-, hlen, -⟩ := h
  rcases cstr_memFrom_adminKey hdr with ⟨-, heq⟩ | ⟨hlong, hself⟩
  · rw [heq]
  · refine iff_of_false (fun h ↦ ?_) fun h ↦ ?_
    · rw [h] at hlong
      omega
    · have hfull := length_adminKey hdr
      rw [← hself, h] at hfull
      omega

/-- A key that is a first line is one that is kept as it is, or fills its field. -/
theorem keyLine_or_of_matches (h : AdminKeyMatches (some content) hdr) :
    KeyLine (firstLine content) ∨ hdr.adminKey = firstLine content := by
  obtain ⟨_, hfile, hne, hkey⟩ := h
  obtain rfl := Option.some.inj hfile
  by_cases hzero : (0 : UInt8) ∈ hdr.adminKey
  · have hlt := length_cstr_lt_of_mem hzero
    rw [length_adminKey, hkey] at hlt
    exact Or.inl ⟨hne, by omega, hkey ▸ zero_notMem_cstr _⟩
  · exact Or.inr ((cstr_eq_self hzero).symm.trans hkey)

/-- **A line that is the whole field** is answered wrongly: without a NUL it is too long for the
buffer, and with one it passes up to there. -/
theorem not_iff_of_adminKey_eq (h : hdr.adminKey = firstLine content) :
    ¬ (cstr (hdr.memFrom 2) = storedText stack content ↔
      AdminKeyMatches (some content) hdr) := by
  have hfull := length_adminKey hdr
  have hne : firstLine content ≠ [] := fun hnil ↦ by simp [h, hnil] at hfull
  have hcontent : content ≠ [] := by
    rintro rfl
    exact hne rfl
  have hstored : storedText stack content = (cstr hdr.adminKey).take 255 := by
    rw [storedText, if_neg hcontent, ← h, cstr_take]
  rw [hstored]
  rcases cstr_memFrom_adminKey hdr with ⟨hzero, heq⟩ | ⟨hlong, hself⟩
  · have hlt := length_cstr_lt_of_mem hzero
    rw [heq, List.take_of_length_le (by omega)]
    rintro ⟨hmatch, -⟩
    obtain ⟨_, hfile, -, hkey⟩ := hmatch rfl
    obtain rfl := Option.some.inj hfile
    rw [← h] at hkey
    exact zero_notMem_cstr _ (hkey.symm ▸ hzero)
  · rintro ⟨-, hread⟩
    have hlen := congrArg List.length (hread ⟨content, rfl, hne, hself.trans h⟩)
    rw [List.length_take] at hlen
    omega

/-- **The exact condition for a right answer.** The check accepts the header exactly if its key
is the file's first line, if and only if there is no file, or its first line is one that the
buffer can hold, or the header's key is neither the text that was stored nor the line itself. -/
theorem verifyAdmin_sound_iff (stack : Bytes) (adminKeyFile : Option Bytes) (hdr : OTAHeader) :
    (verifyAdmin stack adminKeyFile (hdr.memFrom 2) = true ↔ AdminKeyMatches adminKeyFile hdr) ↔
      ∀ content, adminKeyFile = some content → KeyLine (firstLine content) ∨
        (cstr (hdr.memFrom 2) ≠ storedText stack content ∧
          hdr.adminKey ≠ firstLine content) := by
  cases adminKeyFile with
  | none =>
    refine iff_of_true (iff_of_false Bool.false_ne_true ?_) ?_
    · rintro ⟨_, ⟨⟩, -⟩
    · rintro _ ⟨⟩
  | some content =>
    simp only [Option.some.injEq, forall_eq']
    rw [verifyAdmin_eq_true]
    by_cases hline : KeyLine (firstLine content)
    · refine iff_of_true ?_ (Or.inl hline)
      rw [storedText_of_keyLine hline, cstr_memFrom_eq_iff hline]
      refine ⟨fun h ↦ ⟨content, rfl, hline.1, h⟩, ?_⟩
      rintro ⟨_, hfile, -, h⟩
      rwa [Option.some.inj hfile]
    · rw [or_iff_right hline]
      constructor
      · intro hiff
        have hkey : hdr.adminKey ≠ firstLine content := fun h ↦ not_iff_of_adminKey_eq h hiff
        exact ⟨fun h ↦ (keyLine_or_of_matches (hiff.1 h)).elim hline hkey, hkey⟩
      · rintro ⟨hstored, hkey⟩
        exact iff_of_false hstored fun hmatch ↦ (keyLine_or_of_matches hmatch).elim hline hkey

/-- A header with an empty key. -/
def emptyKeyHeader : OTAHeader where
  bytes := ljust 16 0 otaMagic ++ ljust 324 0 []
  length_bytes := by decide +kernel

/-- The file is a single newline, and a header with an empty key passes all the gates. -/
theorem verifyAdmin_not_sound_empty_line :
    acceptHeader [] (some [10]) emptyKeyHeader.bytes = some emptyKeyHeader ∧
      ¬ (verifyAdmin [] (some [10]) (emptyKeyHeader.memFrom 2) = true ↔
        AdminKeyMatches (some [10]) emptyKeyHeader) := by
  refine ⟨by decide +kernel, fun h ↦ ?_⟩
  obtain ⟨content, hfile, hne, -⟩ := h.1 (by decide +kernel)
  obtain rfl := Option.some.inj hfile
  exact hne (by decide)

end JuliusOS.Ota
