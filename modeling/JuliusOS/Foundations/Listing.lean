import JuliusOS.Foundations.CString

/-!
# Lines printed into a buffer

The loop `pos += snprintf(buf + pos, sizeof buf - pos, ...)`. What `snprintf` returns is the length
of the whole line, printed or not, and the size that is left is computed without a sign; so `pos` is
the length of all the lines, and once it has passed the end of the buffer, the size that is left is
enormous and the next line goes behind the buffer.

`safe_iff` says that all is well exactly as long as the lines are no longer than the buffer.
-/

open CString

namespace Listing

variable {n : ℕ}

/-- The loop from position `pos` on. It is `none` where a line goes behind the buffer. -/
def print : List Bytes → ℕ → Buf n → Option (ℕ × Buf n)
  | [], pos, buf => some (pos, buf)
  | line :: lines, pos, buf =>
    if pos ≤ n then print lines (pos + line.length) (buf.snprintf pos line) else none

/-- The loop stays in its buffer, after any number of lines; and there is an answer, which is
terminated and the beginning of the whole text. -/
structure Safe (lines : List Bytes) (Answer : Buf n → Prop) : Prop where
  /-- The position never exceeds the size. -/
  pos_le : ∀ k, ∃ pos buf, print (lines.take k) 0 (.zero n) = some (pos, buf) ∧ pos ≤ n
  /-- The text that is left in the buffer. -/
  sent : ∃ buf, Answer buf ∧ LastZero buf.bytes ∧ cstr buf.bytes <+: lines.flatten

variable {buf buf' : Buf n} {front line : Bytes} {lines : List Bytes} {pos : ℕ}

/-- The beginning of a text, as far as it leaves room for a NUL, with zeros behind it. -/
def cut (n : ℕ) (text : Bytes) : Bytes := Bytes.ljust n 0 (text.take (n - 1))

/-- A line printed behind a text. -/
theorem snprintf_cut (hbuf : buf.bytes = cut n front) :
    (buf.snprintf front.length line).bytes = cut n (front ++ line) := by
  rcases Nat.lt_or_ge front.length n with hlt | hge
  · have hfront : front.take (n - 1) = front := List.take_of_length_le (by omega)
    have htext : (front ++ line).take (n - 1) = front ++ line.take (n - front.length - 1) := by
      rw [List.take_append, hfront]
      congr 2
      omega
    set shown := line.take (n - front.length - 1) with hshown
    have hlen : front.length + shown.length + 1 ≤ n := by
      rw [hshown, List.length_take]
      omega
    rw [cut, hfront, Bytes.ljust] at hbuf
    rw [Buf.snprintf, dif_pos hlt, Buf.bytes_write, hbuf, ← hshown, List.take_left, cut, htext,
      Bytes.ljust, List.drop_append, List.drop_of_length_le (by simp), List.drop_replicate,
      List.nil_append]
    simp only [List.length_append, List.length_singleton, List.append_assoc]
    congr 2
    rw [← List.replicate_one, List.replicate_append_replicate]
    congr 1
    omega
  · rw [Buf.snprintf, dif_neg (by omega), hbuf, cut, cut,
      List.take_append_of_le_length (by omega)]

/-- **The loop** over lines that are no longer than the buffer. -/
theorem print_of_le (hbuf : buf.bytes = cut n front)
    (h : front.length + lines.flatten.length ≤ n) :
    ∃ buf', print lines front.length buf = some (front.length + lines.flatten.length, buf') ∧
      buf'.bytes = cut n (front ++ lines.flatten) := by
  induction lines generalizing front buf with
  | nil => exact ⟨buf, rfl, by rw [hbuf, List.flatten_nil, List.append_nil]⟩
  | cons line lines ih =>
    rw [List.flatten_cons, List.length_append] at h
    have hline : (buf.snprintf front.length line).bytes = cut n (front ++ line) :=
      snprintf_cut hbuf
    obtain ⟨buf', hprint, hbuf'⟩ := ih hline (by rw [List.length_append]; omega)
    rw [List.length_append] at hprint
    refine ⟨buf', ?_, ?_⟩
    · rw [print, if_pos (by omega), hprint, List.flatten_cons, List.length_append, Nat.add_assoc]
    · rw [hbuf', List.flatten_cons, List.append_assoc]

/-- Where the loop ends, its position is the length of the lines. -/
theorem eq_of_print {pos' : ℕ} (h : print lines pos buf = some (pos', buf')) :
    pos' = pos + lines.flatten.length := by
  induction lines generalizing pos buf with
  | nil => exact (Prod.ext_iff.1 (Option.some.inj h)).1.symm
  | cons line lines ih =>
    rw [print] at h
    split at h
    next => rw [ih h, List.flatten_cons, List.length_append, Nat.add_assoc]
    next => cases h

/-- The last byte of the buffer stays NUL. -/
theorem lastZero_of_print {pos' : ℕ} (hbuf : LastZero buf.bytes)
    (h : print lines pos buf = some (pos', buf')) : LastZero buf'.bytes := by
  induction lines generalizing pos buf with
  | nil =>
    obtain ⟨-, rfl⟩ := Prod.ext_iff.1 (Option.some.inj h)
    exact hbuf
  | cons line lines ih =>
    rw [print] at h
    split at h
    next => exact ih (Buf.lastZero_snprintf hbuf _ _) h
    next => cases h

theorem zero_eq_cut (n : ℕ) : (Buf.zero n).bytes = cut n [] := by
  rw [cut, List.take_nil, Bytes.ljust]
  rfl

/-- The loop from the beginning of an empty buffer. -/
theorem print_of_le_zero (h : lines.flatten.length ≤ n) :
    ∃ buf, print lines 0 (.zero n) = some (lines.flatten.length, buf) ∧
      buf.bytes = cut n lines.flatten := by
  have hlen : ([] : Bytes).length + lines.flatten.length ≤ n := by
    rwa [List.length_nil, Nat.zero_add]
  obtain ⟨buf, hbuf, hbytes⟩ := print_of_le (zero_eq_cut n) hlen
  rw [List.length_nil, Nat.zero_add] at hbuf
  exact ⟨buf, hbuf, hbytes⟩

/-- A buffer that is not empty ends with a NUL. -/
theorem lastZero_cut (hn : 0 < n) (text : Bytes) : LastZero (cut n text) := by
  have hlen : (text.take (n - 1)).length ≤ n - 1 := List.length_take_le _ _
  obtain ⟨k, hk⟩ := Nat.exists_eq_succ_of_ne_zero
    (show n - (text.take (n - 1)).length ≠ 0 by omega)
  refine ⟨text.take (n - 1) ++ List.replicate k 0, ?_⟩
  rw [cut, Bytes.ljust, hk, List.replicate_succ', List.append_assoc]

/-- The string that is left is the beginning of the text. -/
theorem cstr_cut {text : Bytes} (h : (0 : UInt8) ∉ text) : cstr (cut n text) = text.take (n - 1) :=
  cstr_ljust fun hmem ↦ h (List.mem_of_mem_take hmem)

/-- **The loop is safe** exactly if the lines are no longer than the buffer, where the answer is
what the loop leaves. -/
theorem safe_iff (hn : 0 < n) (hlines : (0 : UInt8) ∉ lines.flatten) {Answer : Buf n → Prop}
    (hanswer : ∀ buf, Answer buf ↔ ∃ pos, print lines 0 (.zero n) = some (pos, buf)) :
    Safe lines Answer ↔ lines.flatten.length ≤ n := by
  constructor
  · intro h
    obtain ⟨pos, buf, hprint, hpos⟩ := h.pos_le lines.length
    rw [List.take_length] at hprint
    rwa [eq_of_print hprint, Nat.zero_add] at hpos
  · intro h
    refine ⟨fun k ↦ ?_, ?_⟩
    · have hsplit : lines.flatten = (lines.take k).flatten ++ (lines.drop k).flatten := by
        rw [← List.flatten_append, List.take_append_drop]
      have hle : (lines.take k).flatten.length ≤ lines.flatten.length := by
        rw [hsplit, List.length_append]
        exact Nat.le_add_right _ _
      obtain ⟨buf, hbuf, -⟩ := print_of_le_zero (hle.trans h)
      exact ⟨_, buf, hbuf, hle.trans h⟩
    · obtain ⟨buf, hbuf, hbytes⟩ := print_of_le_zero h
      refine ⟨buf, (hanswer buf).2 ⟨_, hbuf⟩, hbytes ▸ lastZero_cut hn _, ?_⟩
      rw [hbytes, cstr_cut hlines]
      exact List.take_prefix _ _

end Listing
