import JuliusOS.Foundations.Bytes
import Mathlib.Data.List.TakeWhile
import Mathlib.Tactic.Set

/-!
# C strings in fixed-width fields

A C string is the bytes from an address up to the first NUL. When the field it sits in holds
no NUL the string runs on into whatever lies behind the field, so `CString.cstr` is applied
to the memory *from the field on*; `cstr_append_of_mem` says that a terminated field makes
what follows irrelevant.

`strncpy` is the standard function: it copies at most `n` bytes, stops after the source's
NUL, fills the rest of the `n` bytes with NULs and leaves every later byte of the
destination alone. The code's idiom is a copy of `width - 1` bytes into a field whose last
byte is NUL already. It keeps that last byte, so the stored string ends inside its field
whatever the source was: `lastZero_strncpy` is the invariant, and `cstr_strncpy` says which
string is stored.
-/

namespace CString

/-- The C string at the start of a stretch of memory: the bytes before the first NUL. -/
def cstr (mem : Bytes) : Bytes := mem.takeWhile (· ≠ 0)

/-- `strcmp(a, b) == 0`. -/
def strcmpEq (a b : Bytes) : Bool := cstr a == cstr b

@[simp]
theorem strcmpEq_iff {a b : Bytes} : strcmpEq a b = true ↔ cstr a = cstr b := by
  simp [strcmpEq]

/-- `strncmp(s, start, strlen(start)) == 0`. -/
def startsWith (s start : Bytes) : Bool := start.isPrefixOf (cstr s)

/-- `strstr(s, sub) != NULL`. -/
def strstr (s sub : Bytes) : Bool := (cstr s).tails.any sub.isPrefixOf

theorem zero_notMem_cstr (mem : Bytes) : (0 : UInt8) ∉ cstr mem := by
  intro h
  simpa using List.mem_takeWhile_imp h

theorem length_cstr_le (mem : Bytes) : (cstr mem).length ≤ mem.length :=
  (List.takeWhile_prefix _).length_le

/-- What follows a terminated field does not belong to its string. -/
theorem cstr_append_of_mem {a b : Bytes} (h : (0 : UInt8) ∈ a) : cstr (a ++ b) = cstr a := by
  induction a with
  | nil => simp at h
  | cons x xs ih =>
    by_cases hx : x = 0
    · simp [cstr, hx]
    · have hxs : (0 : UInt8) ∈ xs := by simpa [Ne.symm hx] using h
      simpa [cstr, hx] using ih hxs

/-- A NUL-free stretch belongs to the string that starts with it. -/
theorem cstr_append_of_notMem {a b : Bytes} (h : (0 : UInt8) ∉ a) :
    cstr (a ++ b) = a ++ cstr b := by
  rw [cstr, List.takeWhile_append_of_pos]
  · rfl
  · intro x hx
    simpa using fun h0 : x = 0 ↦ h (h0 ▸ hx)

theorem startsWith_append {start : Bytes} (h : (0 : UInt8) ∉ start) (rest : Bytes) :
    startsWith (start ++ rest) start = true := by
  rw [startsWith, List.isPrefixOf_iff_prefix, cstr_append_of_notMem h]
  exact List.prefix_append ..

/-- A NUL-free text with a NUL behind it is its own C string. -/
theorem cstr_append_zero {a b : Bytes} (h : (0 : UInt8) ∉ a) : cstr (a ++ 0 :: b) = a := by
  rw [cstr_append_of_notMem h]
  simp [cstr]

/-- A NUL-free text is its own C string. -/
theorem cstr_eq_self {a : Bytes} (h : (0 : UInt8) ∉ a) : cstr a = a := by
  simpa [cstr] using cstr_append_of_notMem (b := []) h

/-- A text with a NUL behind it has the same C string as the text. -/
theorem cstr_append_cons_zero (a b : Bytes) : cstr (a ++ 0 :: b) = cstr a := by
  by_cases h : (0 : UInt8) ∈ a
  · exact cstr_append_of_mem h
  · rw [cstr_append_zero h, cstr_eq_self h]

theorem cstr_take (a : Bytes) (n : ℕ) : cstr (a.take n) = (cstr a).take n :=
  List.take_takeWhile.symm

/-- A NUL-free text padded with NULs past its end is its own C string. -/
theorem cstr_ljust {a : Bytes} {w : ℕ} (h : (0 : UInt8) ∉ a) : cstr (Bytes.ljust w 0 a) = a := by
  rw [Bytes.ljust, cstr_append_of_notMem h]
  cases w - a.length <;> simp [cstr, List.replicate_succ]

/-- The string of a terminated field is shorter than the field. -/
theorem length_cstr_lt_of_mem {a : Bytes} (h : (0 : UInt8) ∈ a) : (cstr a).length < a.length := by
  refine lt_of_le_of_ne (length_cstr_le a) fun heq ↦ ?_
  have hself : cstr a = a := (List.takeWhile_prefix _).eq_of_length heq
  exact zero_notMem_cstr a (hself.symm ▸ h)

/-- A copy that stops before the end of a field does not look behind it. -/
theorem take_cstr_append {field : Bytes} {n : ℕ} (hlen : n ≤ field.length) (rest : Bytes) :
    (cstr (field ++ rest)).take n = (cstr field).take n := by
  -- a field without a NUL is followed by the next one
  by_cases hzero : (0 : UInt8) ∈ field
  · rw [cstr_append_of_mem hzero]
  · have hself : cstr field = field := by simpa [cstr] using cstr_append_of_notMem (b := []) hzero
    rw [cstr_append_of_notMem hzero, hself, List.take_append_of_le_length hlen]

/-! ### `strncpy` -/

/-- `strncpy(dst, src, n)`. -/
def strncpy (dst src : Bytes) (n : ℕ) : Bytes :=
  Bytes.ljust n 0 ((cstr src).take n) ++ dst.drop n

theorem length_strncpy {dst src : Bytes} {n : ℕ} (h : n ≤ dst.length) :
    (strncpy dst src n).length = dst.length := by
  rw [strncpy, List.length_append, Bytes.length_ljust_of_le (by rw [List.length_take]; omega),
    List.length_drop]
  omega

/-- The last byte of a field is NUL. -/
def LastZero (field : Bytes) : Prop := ∃ front, field = front ++ [0]

theorem LastZero.mem_zero {field : Bytes} (h : LastZero field) : (0 : UInt8) ∈ field := by
  obtain ⟨front, rfl⟩ := h
  simp

theorem lastZero_replicate {w : ℕ} (h : 0 < w) : LastZero (List.replicate w 0) := by
  obtain ⟨k, rfl⟩ := Nat.exists_eq_succ_of_ne_zero (Nat.pos_iff_ne_zero.1 h)
  exact ⟨List.replicate k 0, List.replicate_succ'⟩

/-- **A copy of all but the last byte keeps the last byte**, so a field that was terminated
stays terminated whatever is copied into it. -/
theorem lastZero_strncpy {dst src : Bytes} {n : ℕ} (hlen : dst.length = n + 1)
    (h : LastZero dst) : LastZero (strncpy dst src n) := by
  obtain ⟨front, rfl⟩ := h
  have hfront : front.length = n := by simpa using hlen
  refine ⟨Bytes.ljust n 0 ((cstr src).take n), ?_⟩
  rw [strncpy, List.drop_left' hfront]

/-- **The string stored by a copy of all but the last byte** is the source's string cut to
the width. -/
theorem cstr_strncpy {dst src : Bytes} {n : ℕ} (hlen : dst.length = n + 1)
    (h : LastZero dst) : cstr (strncpy dst src n) = (cstr src).take n := by
  obtain ⟨front, rfl⟩ := h
  have hfront : front.length = n := by simpa using hlen
  have hfree : (0 : UInt8) ∉ (cstr src).take n := fun hmem ↦
    zero_notMem_cstr src (List.mem_of_mem_take hmem)
  rw [strncpy, List.drop_left' hfront, Bytes.ljust, List.append_assoc,
    cstr_append_of_notMem hfree]
  cases n - ((cstr src).take n).length <;> simp [cstr, List.replicate_succ]

/-- A source that fits is stored whole. -/
theorem cstr_strncpy_of_le {dst src : Bytes} {n : ℕ} (hlen : dst.length = n + 1)
    (h : LastZero dst) (hsrc : (cstr src).length ≤ n) : cstr (strncpy dst src n) = cstr src := by
  rw [cstr_strncpy hlen h, List.take_of_length_le hsrc]

/-- A field holds a text: there is a NUL in it, and the text in front. -/
def Holds (field text : Bytes) : Prop := 0 ∈ field ∧ cstr field = text

/-- **What a copy of all but the last byte makes a field hold**: a text that leaves no room for a
NUL needs the one that is there. -/
theorem holds_strncpy_iff {dst src text : Bytes} {n : ℕ} (hlen : dst.length = n + 1) :
    Holds (strncpy dst src n) text ↔
      (cstr src).take n = text ∧ (text.length < n ∨ LastZero dst) := by
  obtain ⟨front, x, rfl⟩ : ∃ front x, dst = front ++ [x] :=
    ⟨_, _, (List.dropLast_append_getLast (List.ne_nil_of_length_eq_add_one hlen)).symm⟩
  have hfront : front.length = n := by simpa using hlen
  have hfree : (0 : UInt8) ∉ (cstr src).take n := fun hmem ↦
    zero_notMem_cstr src (List.mem_of_mem_take hmem)
  have hlast : LastZero (front ++ [x]) ↔ x = 0 := by
    constructor
    · rintro ⟨front', h⟩
      simpa using (List.append_inj' h rfl).2
    · rintro rfl
      exact ⟨front, rfl⟩
  have hle : ((cstr src).take n).length ≤ n := List.length_take_le ..
  rw [Holds, strncpy, List.drop_left' hfront, hlast]
  generalize (cstr src).take n = t at hfree hle ⊢
  rcases Nat.lt_or_ge t.length n with hlt | hge
  · have hzero : (0 : UInt8) ∈ Bytes.ljust n 0 t := by
      rw [Bytes.ljust]
      exact List.mem_append_right _ (List.mem_replicate.2 ⟨by omega, rfl⟩)
    rw [cstr_append_of_mem hzero, cstr_ljust hfree]
    constructor
    · rintro ⟨-, rfl⟩
      exact ⟨rfl, Or.inl hlt⟩
    · rintro ⟨rfl, -⟩
      exact ⟨List.mem_append_left _ hzero, rfl⟩
  · have hjust : Bytes.ljust n 0 t = t := by
      rw [Bytes.ljust, Nat.sub_eq_zero_of_le hge]
      exact List.append_nil t
    rw [hjust]
    constructor
    · rintro ⟨hmem, htext⟩
      obtain rfl : 0 = x := by simpa [hfree] using hmem
      rw [cstr_append_zero hfree] at htext
      exact ⟨htext, Or.inr rfl⟩
    · rintro ⟨rfl, hlt | rfl⟩
      · omega
      · exact ⟨List.mem_append_right _ List.mem_cons_self, cstr_append_zero hfree⟩

/-! ### Lines -/

/-- The text before the first newline. -/
def firstLine (content : Bytes) : Bytes := content.takeWhile (· ≠ 10)

/-- The text from the first newline on. -/
def fromNewline (content : Bytes) : Bytes := content.dropWhile (· ≠ 10)

/-- `fgets(buf, size, f)` on a stream holding `content`: the first line with its newline, cut
to `size - 1` bytes, and a NUL. At the end of the file the buffer keeps what it held. -/
def fgets (buf : Bytes) (size : ℕ) (content : Bytes) : Bytes :=
  let got := (firstLine content ++ (fromNewline content).take 1).take (size - 1)
  if got = [] then buf else got ++ 0 :: buf.drop (got.length + 1)

/-- `s[strcspn(s, "\n")] = 0`. -/
def cutNewline (s : Bytes) : Bytes := s.set (firstLine (cstr s)).length 0

theorem length_fgets {buf : Bytes} {size : ℕ} (h : size ≤ buf.length) (content : Bytes) :
    (fgets buf size content).length = buf.length := by
  rw [fgets]
  set got := (firstLine content ++ (fromNewline content).take 1).take (size - 1) with hgot
  have hle : got.length ≤ size - 1 := hgot ▸ List.length_take_le _ _
  split
  next => rfl
  next hne =>
    have hpos := List.length_pos_iff.2 hne
    rw [List.length_append, List.length_cons, List.length_drop]
    omega

theorem length_cutNewline (s : Bytes) : (cutNewline s).length = s.length := List.length_set

theorem newline_notMem_firstLine (content : Bytes) : (10 : UInt8) ∉ firstLine content := by
  intro h
  simpa using List.mem_takeWhile_imp h

theorem firstLine_append {text rest : Bytes} (h : (10 : UInt8) ∉ text) :
    firstLine (text ++ rest) = text ++ firstLine rest := by
  rw [firstLine, List.takeWhile_append_of_pos]
  · rfl
  · intro x hx
    simpa using fun h10 : x = 10 ↦ h (h10 ▸ hx)

theorem fromNewline_cases (content : Bytes) :
    fromNewline content = [] ∨ ∃ rest, fromNewline content = 10 :: rest := by
  rcases h : fromNewline content with - | ⟨x, xs⟩
  · exact Or.inl rfl
  · have hhead := List.head?_dropWhile_not (fun y : UInt8 ↦ decide (y ≠ 10)) content
    rw [show content.dropWhile (fun y ↦ decide (y ≠ 10)) = x :: xs from h] at hhead
    exact Or.inr ⟨xs, by simpa using hhead⟩

/-- A line and its newline start with the line. -/
theorem firstLine_append_take_fromNewline (content : Bytes) (n : ℕ) :
    firstLine (firstLine content ++ (fromNewline content).take n) = firstLine content := by
  rw [firstLine_append (newline_notMem_firstLine content)]
  rcases fromNewline_cases content with hrest | ⟨rest, hrest⟩
  · rw [hrest, List.take_nil]
    exact List.append_nil _
  · rw [hrest]
    cases n <;> simp [firstLine]

/-- The line of a C string is the C string of the line. -/
theorem firstLine_cstr (text : Bytes) : firstLine (cstr text) = cstr (firstLine text) := by
  rw [firstLine, cstr, cstr, firstLine, List.takeWhile_takeWhile, List.takeWhile_takeWhile]
  simp only [and_comm]

theorem firstLine_take (text : Bytes) (n : ℕ) : firstLine (text.take n) = (firstLine text).take n :=
  List.take_takeWhile.symm

/-- **The line that `fgets` leaves in a buffer** is the first line up to its first NUL, cut to
the size of the buffer. -/
theorem firstLine_cstr_fgets {buf content : Bytes} {size : ℕ} (hsize : 1 < size)
    (hne : content ≠ []) :
    firstLine (cstr (fgets buf size content)) = cstr ((firstLine content).take (size - 1)) := by
  have hgot : (firstLine content ++ (fromNewline content).take 1).take (size - 1) ≠ [] := by
    obtain ⟨k, hk⟩ : ∃ k, size - 1 = k + 1 := ⟨size - 2, by omega⟩
    obtain ⟨x, xs, rfl⟩ := List.exists_cons_of_ne_nil hne
    rw [hk]
    by_cases hx : x = 10 <;> simp [firstLine, fromNewline, hx]
  rw [fgets, if_neg hgot, cstr_append_cons_zero, firstLine_cstr, firstLine_take,
    firstLine_append_take_fromNewline]

/-- **A C string cut at its newline** is its first line. -/
theorem cstr_cutNewline (s : Bytes) : cstr (cutNewline s) = firstLine (cstr s) := by
  have hpre : firstLine (cstr s) <+: s :=
    (List.takeWhile_prefix _).trans (List.takeWhile_prefix _)
  have hfree : (0 : UInt8) ∉ firstLine (cstr s) := fun h ↦
    zero_notMem_cstr s ((List.takeWhile_prefix _).subset h)
  rw [cutNewline]
  generalize firstLine (cstr s) = line at hpre hfree ⊢
  obtain ⟨rest, rfl⟩ := hpre
  rw [List.set_append_right _ _ (Nat.le_refl _), Nat.sub_self]
  cases rest with
  | nil => rw [List.set_nil, List.append_nil, cstr_eq_self hfree]
  | cons b bs => exact cstr_append_zero hfree

/-- **A line read and cut at its newline** is stored as a C string, whatever the buffer held
before, when it is not empty and fits the buffer. -/
theorem cstr_cutNewline_fgets {buf content : Bytes} {size : ℕ}
    (hlen : (firstLine content).length < size) (hne : firstLine content ≠ [])
    (hfree : (0 : UInt8) ∉ firstLine content) :
    cstr (cutNewline (fgets buf size content)) = firstLine content := by
  have hpos := List.length_pos_iff.2 hne
  have hcontent : content ≠ [] := by
    rintro rfl
    exact hne rfl
  rw [cstr_cutNewline, firstLine_cstr_fgets (by omega) hcontent, List.take_of_length_le (by omega),
    cstr_eq_self hfree]

end CString

/-- `strncpy(dst, src, k)` into a buffer that has at least `k` bytes. -/
def Buf.strncpy {n : ℕ} (dst : Buf n) (src : Bytes) (k : ℕ) (h : k ≤ n) : Buf n where
  bytes := CString.strncpy dst.bytes src k
  length_bytes := by
    rw [CString.length_strncpy (by rw [dst.length_bytes]; exact h), dst.length_bytes]

/-- `fgets(buf, sizeof buf, f)` and the cut at the newline. -/
def Buf.fgetsLine {n : ℕ} (buf : Buf n) (content : Bytes) : Buf n where
  bytes := CString.cutNewline (CString.fgets buf.bytes n content)
  length_bytes := by
    rw [CString.length_cutNewline, CString.length_fgets buf.length_bytes.ge, buf.length_bytes]

theorem Bytes.length_terminate_le {s : Bytes} {n : ℕ} (h : s.length < n) :
    0 + (s ++ [0]).length ≤ n := by
  rw [List.length_append, List.length_singleton]
  omega

/-! A copy of `sizeof(field) - 1` bytes fits the field. -/

theorem Buf.le_16 : 15 ≤ 16 := by decide

theorem Buf.le_64 : 63 ≤ 64 := by decide

theorem Buf.le_128 : 127 ≤ 128 := by decide

theorem Buf.le_256 : 255 ≤ 256 := by decide

theorem Buf.le_8192 : 8191 ≤ 8192 := by decide

/-- `strcpy(dst, text)` of a text that fits. -/
def Buf.strcpy {n : ℕ} (dst : Buf n) (text : Bytes) (h : text.length < n) : Buf n :=
  dst.write 0 (text ++ [0]) (Bytes.length_terminate_le h)

/-- `snprintf(buf + pos, sizeof buf - pos, "%s", text)` for a position inside the buffer or at
its end: as much of the text as leaves room for a NUL. -/
def Buf.snprintf {n : ℕ} (buf : Buf n) (pos : ℕ) (text : Bytes) : Buf n :=
  if h : pos < n then buf.write pos (text.take (n - pos - 1) ++ [0]) (by simp; omega) else buf

namespace Buf

open CString

variable {n : ℕ}

/-- The last byte of a terminated buffer stays NUL, however much is printed. -/
theorem lastZero_snprintf {buf : Buf n} (h : LastZero buf.bytes) (pos : ℕ) (text : Bytes) :
    LastZero (buf.snprintf pos text).bytes := by
  rw [snprintf]
  split
  next hpos =>
    rw [bytes_write]
    rcases Nat.lt_or_ge (pos + (text.take (n - pos - 1) ++ [0]).length) n with hlt | hge
    · obtain ⟨front, hfront⟩ := h
      have hlen : front.length + 1 = n := by simpa [hfront] using buf.length_bytes
      refine ⟨buf.bytes.take pos ++ (text.take (n - pos - 1) ++ [0]) ++
        front.drop (pos + (text.take (n - pos - 1) ++ [0]).length), ?_⟩
      rw [hfront, List.drop_append_of_le_length (by omega), ← List.append_assoc]
    · refine ⟨buf.bytes.take pos ++ text.take (n - pos - 1), ?_⟩
      rw [List.drop_of_length_le (by rw [buf.length_bytes]; exact hge), List.append_nil,
        List.append_assoc]
  next => exact h

end Buf
