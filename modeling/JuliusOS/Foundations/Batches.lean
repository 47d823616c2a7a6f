import Mathlib.Data.List.Nodup
import Mathlib.Data.List.Perm.Subperm

/-!
# Jobs in batches

A coordinator starts its jobs one after the other. Once `k` have been started, and once none is
left, it waits until all that it has started are finished, and goes on with an empty batch.

Whatever the jobs do in between, no job is started twice, at most `k` are under way at any time
(`Follows.length_le`), and when the last batch was joined all of them are finished
(`Follows.finished_of_nil`).
-/

/-- The jobs that were not started, and those that were started and not joined. -/
structure Batches (ι : Type*) where
  pending : List ι
  batch : List ι

namespace Batches

variable {ι : Type*} (k : ℕ) (b : Batches ι)

/-- Nothing was started. -/
def ofJobs (jobs : List ι) : Batches ι := ⟨jobs, []⟩

/-- The next job is started. -/
def start : Option (ι × Batches ι) :=
  match b.pending with
  | [] => none
  | i :: rest => if b.batch.length < k then some (i, ⟨rest, b.batch ++ [i]⟩) else none

/-- The batch is joined, when its jobs are finished. -/
def join : Option (Batches ι) :=
  if k ≤ b.batch.length ∨ b.pending = [] then some ⟨b.pending, []⟩ else none

/-- What is known of the jobs. -/
structure Follows (jobs : List ι) (started finished : ι → Prop) : Prop where
  /-- The jobs that were joined come first, then the batch. -/
  split : ∃ joined, joined ++ b.batch ++ b.pending = jobs ∧ ∀ i ∈ joined, finished i
  started : ∀ i, started i ↔ i ∈ jobs ∧ i ∉ b.pending
  le : b.batch.length ≤ k

variable {k b} {b' : Batches ι} {jobs : List ι} {started started' finished finished' : ι → Prop}

theorem follows_ofJobs (h : ∀ i, ¬ started i) : (ofJobs jobs).Follows k jobs started finished where
  split := ⟨[], rfl, fun _ hi ↦ absurd hi List.not_mem_nil⟩
  started i := iff_of_false (h i) fun hi ↦ hi.2 hi.1
  le := Nat.zero_le k

theorem start_cases {i : ι} (h : b.start k = some (i, b')) :
    ∃ rest, b.pending = i :: rest ∧ b.batch.length < k ∧ b' = ⟨rest, b.batch ++ [i]⟩ := by
  rw [start] at h
  split at h
  · cases h
  next j rest hpending =>
    obtain ⟨hlt, hsome⟩ := Option.ite_none_right_eq_some.1 h
    cases hsome
    exact ⟨rest, hpending, hlt, rfl⟩

theorem join_cases (h : b.join k = some b') :
    (k ≤ b.batch.length ∨ b.pending = []) ∧ b' = ⟨b.pending, []⟩ := by
  obtain ⟨hfull, hsome⟩ := Option.ite_none_right_eq_some.1 h
  exact ⟨hfull, (Option.some.inj hsome).symm⟩

namespace Follows

/-- Jobs that finish. -/
theorem mono (h : b.Follows k jobs started finished) (hstarted : ∀ i, started' i ↔ started i)
    (hfinished : ∀ i, finished i → finished' i) : b.Follows k jobs started' finished' where
  split := by
    obtain ⟨joined, hsplit, hjoined⟩ := h.split
    exact ⟨joined, hsplit, fun i hi ↦ hfinished i (hjoined i hi)⟩
  started i := (hstarted i).trans (h.started i)
  le := h.le

/-- **A job that is started** was not started before. -/
theorem start (h : b.Follows k jobs started finished) (hnodup : jobs.Nodup) {i : ι}
    (hstart : b.start k = some (i, b')) :
    ¬ started i ∧ b'.Follows k jobs (fun j ↦ j = i ∨ started j) finished := by
  obtain ⟨rest, hpending, hlt, rfl⟩ := start_cases hstart
  obtain ⟨joined, rfl, hjoined⟩ := h.split
  rw [hpending] at hnodup
  have hrest : i ∉ rest := (List.nodup_cons.1 hnodup.of_append_right).1
  have hmem : i ∈ joined ++ b.batch ++ b.pending :=
    List.mem_append_right _ (hpending ▸ List.mem_cons_self)
  refine ⟨fun hi ↦ ((h.started i).1 hi).2 (hpending ▸ List.mem_cons_self), ⟨joined, ?_, hjoined⟩,
    fun j ↦ ?_, ?_⟩
  · rw [hpending]
    simp only [List.append_assoc, List.singleton_append]
  · rw [h.started, hpending]
    constructor
    · rintro (rfl | ⟨hj, hnot⟩)
      · exact ⟨hpending ▸ hmem, hrest⟩
      · exact ⟨hj, fun hj' ↦ hnot (List.mem_cons_of_mem _ hj')⟩
    · intro hj
      rcases eq_or_ne j i with heq | hne
      · exact Or.inl heq
      · refine Or.inr ⟨hj.1, fun hj' ↦ ?_⟩
        exact (List.mem_cons.1 hj').elim hne hj.2
  · rw [List.length_append, List.length_singleton]
    exact hlt

/-- **A batch that is joined.** -/
theorem join (h : b.Follows k jobs started finished) (hjoin : b.join k = some b')
    (hbatch : ∀ i ∈ b.batch, finished i) : b'.Follows k jobs started finished := by
  obtain ⟨-, rfl⟩ := join_cases hjoin
  obtain ⟨joined, hsplit, hjoined⟩ := h.split
  refine ⟨⟨joined ++ b.batch, ?_, List.forall_mem_append.2 ⟨hjoined, hbatch⟩⟩, h.started,
    Nat.zero_le k⟩
  rw [List.append_nil]
  exact hsplit

/-- **At the end** all jobs are finished. -/
theorem finished_of_nil (h : b.Follows k jobs started finished) (hpending : b.pending = [])
    (hbatch : b.batch = []) {i : ι} (hi : i ∈ jobs) : finished i := by
  obtain ⟨joined, hsplit, hjoined⟩ := h.split
  rw [hpending, hbatch, List.append_nil, List.append_nil] at hsplit
  exact hjoined i (hsplit ▸ hi)

/-- **At most `k` jobs are under way.** -/
theorem length_le (h : b.Follows k jobs started finished) {l : List ι} (hnodup : l.Nodup)
    (hl : ∀ i ∈ l, started i ∧ ¬ finished i) : l.length ≤ k := by
  obtain ⟨joined, rfl, hjoined⟩ := h.split
  have hsub : l ⊆ b.batch := by
    intro i hi
    obtain ⟨hstarted, hunfinished⟩ := hl i hi
    obtain ⟨hmem, hpending⟩ := (h.started i).1 hstarted
    rcases List.mem_append.1 hmem with hmem | hmem
    · rcases List.mem_append.1 hmem with hmem | hmem
      · exact absurd (hjoined i hmem) hunfinished
      · exact hmem
    · exact absurd hmem hpending
  exact Nat.le_trans (hnodup.subperm hsub).length_le h.le

end Follows

end Batches
