import JuliusOS.Ota.Client

/-!
# The receive counter of the OTA client

The loop that stores an update is bounded by `received < hdr.size`, and every `read` may return
a whole chunk however little is still expected. So the last read can go past `hdr.size`; and
since `received` has 32 bits like `hdr.size`, near the top of the range it can go past `2 ^ 32`
as well, whereupon the loop starts anew with a small counter.

* `CounterExact` is what the counter is for: it is the number of bytes written, after every
  iteration, and no more than `hdr.size` bytes are written;
* `counterExact_iff` says when it is: some prefix of the reads adds up to `hdr.size`, or all of
  them together fall short of it;
* `receiveLoop_replicate` follows the counter over reads of one size, past the wrap.
-/

open Bytes

namespace JuliusOS.Ota

/-- **What the counter is for.** After any number of iterations it is the number of bytes
written, and at most `size` bytes are written. -/
def CounterExact (size : ℕ) (reads : Reads) : Prop :=
  (∀ k, (receiveLoop size 0 (reads.chunks.take k)).2 =
    (receiveLoop size 0 (reads.chunks.take k)).1.length) ∧
  (receiveLoop size 0 reads.chunks).1.length ≤ size

variable {size r : ℕ} {chunks : List Bytes}

/-- **The counter** is the number of bytes written, as 32 bits hold it. -/
theorem receiveLoop_counter (hr : r < 2 ^ 32) :
    (receiveLoop size r chunks).2 = wrap32 (r + (receiveLoop size r chunks).1.length) := by
  induction chunks generalizing r with
  | nil => exact (wrap32_of_lt hr).symm
  | cons c cs ih =>
    rw [receiveLoop]
    split
    next h =>
      show (receiveLoop size _ cs).2 = wrap32 (r + (c ++ (receiveLoop size _ cs).1).length)
      rw [ih (wrap32_lt _), wrap32_add_wrap32, List.length_append, Nat.add_assoc]
    next h => exact (wrap32_of_lt hr).symm

/-- The loop ends with the reads or with a counter that has reached the announced size. -/
theorem receiveLoop_stops (hr : r < 2 ^ 32) :
    (receiveLoop size r chunks).1 = chunks.flatten ∨ size ≤ (receiveLoop size r chunks).2 := by
  induction chunks generalizing r with
  | nil => exact Or.inl rfl
  | cons c cs ih =>
    rw [receiveLoop]
    split
    next h => exact (ih (wrap32_lt (r + c.length))).imp_left fun hcs ↦ congrArg (c ++ ·) hcs
    next h => exact Or.inr (Nat.le_of_not_lt h)

/-- Reads that add up to the announced size, or fall short of it, never take the counter past
it. -/
theorem receiveLoop_exact (hsize : size < 2 ^ 32) (hr : r ≤ size)
    (h : (∃ k, r + prefixLength chunks k = size) ∨ r + chunks.flatten.length < size) (k : ℕ) :
    (receiveLoop size r (chunks.take k)).2 =
        r + (receiveLoop size r (chunks.take k)).1.length ∧
      r + (receiveLoop size r (chunks.take k)).1.length ≤ size := by
  induction chunks generalizing r k with
  | nil => simpa [receiveLoop] using hr
  | cons c cs ih =>
    cases k with
    | zero => simpa [receiveLoop] using hr
    | succ k =>
      rw [List.take_succ_cons, receiveLoop]
      split
      next hlt =>
        have hnext : (∃ k, r + c.length + prefixLength cs k = size) ∨
            r + c.length + cs.flatten.length < size := by
          rcases h with ⟨j, hj⟩ | h
          · cases j with
            | zero =>
              rw [prefixLength_zero] at hj
              omega
            | succ j =>
              rw [prefixLength_cons_succ] at hj
              exact Or.inl ⟨j, by omega⟩
          · rw [List.flatten_cons, List.length_append] at h
            exact Or.inr (by omega)
        have hle : r + c.length ≤ size := by
          rcases hnext with ⟨j, hj⟩ | h <;> omega
        rw [wrap32_of_lt (by omega)]
        have hih := ih hle hnext k
        simp only [List.length_append]
        omega
      next hge => simpa using hr

/-- **The exact condition for an exact counter.** The counter is the number of bytes written
after every iteration, and at most `hdr.size` bytes are written, if and only if some prefix of
the reads adds up to `hdr.size` or all of them together fall short of it. -/
theorem counterExact_iff (size : ℕ) (reads : Reads) (hsize : size < 2 ^ 32) :
    CounterExact size reads ↔
      HitsSize size reads.chunks ∨ reads.chunks.flatten.length < size := by
  constructor
  · rintro ⟨hcounter, hle⟩
    have hcount := hcounter reads.chunks.length
    rw [List.take_length] at hcount
    rcases Nat.lt_or_ge (receiveLoop size 0 reads.chunks).1.length size with hlt | hge
    · have hstops : (receiveLoop size 0 reads.chunks).1 = reads.chunks.flatten ∨
          size ≤ (receiveLoop size 0 reads.chunks).2 := receiveLoop_stops (Nat.two_pow_pos 32)
      rcases hstops with hall | hreached
      · rw [hall] at hlt
        exact Or.inr hlt
      · omega
    · refine Or.inl ((length_payload_iff hsize).1 ?_)
      have hfile : (receiveLoop size 0 reads.chunks).1 =
          (reads.chunks.take (readsMade size 0 reads.chunks)).flatten :=
        receiveLoop_file (Nat.two_pow_pos 32)
      rw [payload, ← hfile]
      omega
  · intro h
    have hreads : (∃ k, 0 + prefixLength reads.chunks k = size) ∨
        0 + reads.chunks.flatten.length < size := by
      rw [HitsSize] at h
      simpa only [Nat.zero_add] using h
    have hexact := receiveLoop_exact hsize (Nat.zero_le size) hreads
    simp only [Nat.zero_add] at hexact
    refine ⟨fun k ↦ (hexact k).1, ?_⟩
    have hlast := (hexact reads.chunks.length).2
    rwa [List.take_length] at hlast

theorem counterExact_two_reads : CounterExact 3 ⟨[[1], [2, 3]], by decide⟩ :=
  (counterExact_iff 3 _ (by decide)).2 (Or.inl ⟨2, by decide⟩)

/-- Reads of one size, as long as the counter is below the announced size before each. -/
theorem receiveLoop_replicate (size n : ℕ) {c : Bytes} (hr : r < 2 ^ 32)
    (hbelow : r + n * c.length < size + c.length) (hsize : size < 2 ^ 32) (hc : c ≠ []) :
    (receiveLoop size r (List.replicate n c)).1.length = n * c.length ∧
      (receiveLoop size r (List.replicate n c)).2 = wrap32 (r + n * c.length) := by
  have hlength : (receiveLoop size r (List.replicate n c)).1.length = n * c.length := by
    induction n generalizing r with
    | zero => simp [receiveLoop]
    | succ n ih =>
      rw [Nat.succ_mul] at hbelow ⊢
      rw [List.replicate_succ, receiveLoop, if_pos (by omega)]
      show (c ++ _).length = _
      cases n with
      | zero => simp [receiveLoop]
      | succ n =>
        rw [Nat.succ_mul] at hbelow
        have hpos := List.length_pos_iff.2 hc
        rw [wrap32_of_lt (by omega), List.length_append,
          ih (by omega) (by rw [Nat.succ_mul]; omega), Nat.add_comm]
  exact ⟨hlength, by rw [receiveLoop_counter hr, hlength]⟩

theorem fullChunks_bounded (n : ℕ) :
    ∀ c ∈ List.replicate n (List.replicate 4096 (0 : UInt8)), c ≠ [] ∧ c.length ≤ 4096 := by
  intro c hc
  rw [List.eq_of_mem_replicate hc, List.length_replicate]
  exact ⟨List.cons_ne_nil _ _, le_rfl⟩

/-- So many reads that each fill the buffer. -/
def fullChunks (n : ℕ) : Reads := ⟨List.replicate n (List.replicate 4096 0), fullChunks_bounded n⟩

/-- A full chunk for an announced size of one; and `2 ^ 20` of them for the largest size, which
leave the counter at zero. -/
theorem not_counterExact :
    ¬ CounterExact 1 (fullChunks 1) ∧ ¬ CounterExact (2 ^ 32 - 1) (fullChunks (2 ^ 20)) := by
  have hne : List.replicate 4096 (0 : UInt8) ≠ [] := List.cons_ne_nil _ _
  constructor
  · rintro ⟨-, hle⟩
    obtain ⟨hlength, -⟩ := receiveLoop_replicate 1 1 (Nat.two_pow_pos 32)
      (by rw [List.length_replicate]; norm_num) (by norm_num) hne
    rw [fullChunks, hlength, List.length_replicate] at hle
    omega
  · rintro ⟨hcounter, -⟩
    obtain ⟨hlength, hwrap⟩ := receiveLoop_replicate (2 ^ 32 - 1) (2 ^ 20)
      (Nat.two_pow_pos 32) (by rw [List.length_replicate]; norm_num) (by norm_num) hne
    have hlast := hcounter (2 ^ 20)
    rw [fullChunks, List.take_replicate, Nat.min_self, hlength, hwrap, List.length_replicate,
      Nat.zero_add] at hlast
    norm_num [wrap32] at hlast

end JuliusOS.Ota
