import Mathlib.Data.List.Basic
import Mathlib.Data.List.Flatten

/-!
# Streams and how they are read

A stream socket delivers the bytes that were written, in order, and nothing else: where one `write`
ended is lost. A reader that asks for at most `limit` bytes gets the stream in pieces, none empty
and none longer than `limit`, and which pieces is up to the kernel. `Cuts` is that relation.

The rules are about readers that take a piece for a record. Records of one size come out of a cut
whole exactly if the cut is where the records end (`Cuts.filter_length_eq_iff`).
-/

/-- The results of successive reads of at most `limit` items that use a stream up. -/
structure Cuts {α : Type*} (limit : ℕ) (stream : List α) (reads : List (List α)) : Prop where
  /-- Together they are the stream. -/
  flatten_eq : reads.flatten = stream
  /-- No read returns nothing. -/
  ne_nil : ∀ r ∈ reads, r ≠ []
  /-- No read returns more than it asked for. -/
  length_le : ∀ r ∈ reads, r.length ≤ limit

namespace Cuts

variable {α : Type*} {size limit : ℕ} {records reads : List (List α)} {stream : List α}

/-- Pieces of one length are known from what they make together. -/
theorem eq_of_flatten_eq {xs ys : List (List α)} (hsize : 0 < size)
    (hxs : ∀ x ∈ xs, x.length = size) (hys : ∀ y ∈ ys, y.length = size)
    (h : xs.flatten = ys.flatten) : xs = ys := by
  have hlengths : ∀ {zs : List (List α)}, (∀ z ∈ zs, z.length = size) →
      zs.map List.length = List.replicate zs.length size := fun hzs ↦
    List.eq_replicate_iff.2 ⟨List.length_map _, by simpa using hzs⟩
  have htotal : xs.length * size = ys.length * size := by
    have hlen := congrArg List.length h
    rwa [List.length_flatten, List.length_flatten, hlengths hxs, hlengths hys,
      List.sum_replicate_nat, List.sum_replicate_nat] at hlen
  refine List.eq_iff_flatten_eq.2 ⟨h, ?_⟩
  rw [hlengths hxs, hlengths hys, Nat.eq_of_mul_eq_mul_right hsize htotal]

/-- To leave non-empty pieces out shows in the length. -/
theorem length_flatten_filter_lt {p : List α → Bool} {xs : List (List α)}
    (hne : ∀ x ∈ xs, x ≠ []) {x : List α} (hx : x ∈ xs) (hp : p x = false) :
    (xs.filter p).flatten.length < xs.flatten.length := by
  induction xs with
  | nil => cases hx
  | cons y ys ih =>
    have hys : (ys.filter p).flatten.length ≤ ys.flatten.length :=
      (List.filter_sublist.flatten).length_le
    have hne' : ∀ z ∈ ys, z ≠ [] := fun z hz ↦ hne z (List.mem_cons_of_mem y hz)
    rw [List.flatten_cons, List.length_append]
    rcases List.mem_cons.1 hx with rfl | hx
    · have hpos : 0 < x.length := List.length_pos_iff.2 (hne x (List.mem_cons_self ..))
      rw [List.filter_cons_of_neg (by rw [hp]; exact Bool.false_ne_true)]
      omega
    · have hlt := ih hne' hx
      cases hpy : p y with
      | false =>
        rw [List.filter_cons_of_neg (by rw [hpy]; exact Bool.false_ne_true)]
        omega
      | true =>
        rw [List.filter_cons_of_pos hpy, List.flatten_cons, List.length_append]
        omega

/-- Records that are the pieces of a cut. -/
theorem eq_of_forall_length (h : Cuts limit records.flatten reads) (hsize : 0 < size)
    (hrecords : ∀ r ∈ records, r.length = size) (hreads : ∀ r ∈ reads, r.length = size) :
    reads = records := eq_of_flatten_eq hsize hreads hrecords h.flatten_eq

/-- **The pieces of the records' size are the records** exactly if all pieces have that size. -/
theorem filter_length_eq_iff (h : Cuts limit records.flatten reads) (hsize : 0 < size)
    (hrecords : ∀ r ∈ records, r.length = size) :
    reads.filter (fun r ↦ r.length = size) = records ↔ ∀ r ∈ reads, r.length = size := by
  constructor
  · intro hfilter r hr
    by_contra hlen
    have hlt := length_flatten_filter_lt h.ne_nil hr (p := fun r ↦ decide (r.length = size))
      (decide_eq_false hlen)
    rw [hfilter, h.flatten_eq] at hlt
    exact absurd hlt (Nat.lt_irrefl _)
  · intro hall
    rw [List.filter_eq_self.2 fun r hr ↦ decide_eq_true (hall r hr)]
    exact h.eq_of_forall_length hsize hrecords hall

/-- **Records too long for a read** never come out of it whole. -/
theorem eq_records_iff_of_lt (h : Cuts limit records.flatten reads) (hlimit : limit < size)
    (hrecords : ∀ r ∈ records, r.length = size) : reads = records ↔ records = [] := by
  constructor
  · rintro rfl
    refine List.eq_nil_iff_forall_not_mem.2 fun r hr ↦ ?_
    have hle := h.length_le r hr
    rw [hrecords r hr] at hle
    omega
  · rintro rfl
    refine List.eq_nil_iff_forall_not_mem.2 fun r hr ↦ h.ne_nil r hr ?_
    exact List.flatten_eq_nil_iff.1 h.flatten_eq r hr

end Cuts
