import Mathlib.Algebra.GroupWithZero.Nat
import Mathlib.Data.List.DropRight

/-!
# Failures counted up to a threshold

A counter goes up by one with every failure; when it reaches a threshold it fires and starts again,
and a success resets it without firing. Over a whole sequence of results it fires once for every
`k` failures in a row: `fires_eq` sums this over the maximal runs of failures, and `count_eq` says
that the counter is the length of the run that is not over, modulo the threshold.
-/

namespace Threshold

/-- The counter after a result, and whether it fires, for the threshold `k`. -/
def step (k c : ℕ) (up : Bool) : ℕ × Bool :=
  if up then (0, false) else if k ≤ c + 1 then (0, true) else (c + 1, false)

/-- The counter after some results. -/
def count (k : ℕ) : ℕ → List Bool → ℕ
  | c, [] => c
  | c, up :: results => count k (step k c up).1 results

/-- How often the counter fires during some results. -/
def fires (k : ℕ) : ℕ → List Bool → ℕ
  | _, [] => 0
  | c, up :: results => (if (step k c up).2 then 1 else 0) + fires k (step k c up).1 results

/-- The lengths of the runs of failures: what stands between the successes. -/
def failingRuns (results : List Bool) : List ℕ := (results.splitOn true).map List.length

/-- The length of the run of failures at the end. -/
def currentRun (results : List Bool) : ℕ := (results.rtakeWhile fun up ↦ !up).length

variable {k c : ℕ}

theorem step_true : step k c true = (0, false) := rfl

theorem step_false_of_lt (h : c + 1 < k) : step k c false = (c + 1, false) :=
  if_neg (Nat.not_le.2 h)

theorem step_false_of_le (h : k ≤ c + 1) : step k c false = (0, true) := if_pos h

/-! ### How often it fires -/

/-- A success ends a run. -/
theorem failingRuns_true (results : List Bool) :
    failingRuns (true :: results) = 0 :: failingRuns results := by
  rw [failingRuns, List.splitOn_cons_eq_if_modifyHead]
  rfl

/-- A failure belongs to the run that follows it. -/
theorem failingRuns_false {results : List Bool} {n : ℕ} {ns : List ℕ}
    (h : failingRuns results = n :: ns) : failingRuns (false :: results) = (n + 1) :: ns := by
  rw [failingRuns] at h ⊢
  rw [List.splitOn_cons_eq_if_modifyHead]
  obtain ⟨run, runs, hruns, rfl, rfl⟩ := List.map_eq_cons_iff.1 h
  rw [hruns]
  rfl

theorem exists_failingRuns_eq (results : List Bool) :
    ∃ n ns, failingRuns results = n :: ns := by
  refine List.exists_cons_of_ne_nil fun hnil ↦ ?_
  exact List.splitOn_ne_nil _ results (List.map_eq_nil_iff.1 hnil)

/-- A counter that is at `c` already fires as if the first run were longer by `c`. -/
theorem fires_eq_of_lt {results : List Bool} {n : ℕ} {ns : List ℕ}
    (hruns : failingRuns results = n :: ns) (hc : c < k) :
    fires k c results = (c + n) / k + (ns.map (· / k)).sum := by
  have hk : 0 < k := Nat.zero_lt_of_lt hc
  induction results generalizing c n ns with
  | nil =>
    obtain ⟨rfl, rfl⟩ := List.cons.inj (show [0] = n :: ns from hruns)
    exact (Nat.div_eq_of_lt hc).symm
  | cons up results ih =>
    obtain ⟨m, ms, hms⟩ := exists_failingRuns_eq results
    cases up with
    | true =>
      rw [failingRuns_true, hms] at hruns
      obtain ⟨rfl, rfl⟩ := List.cons.inj hruns
      rw [fires, step_true, ih hms hk, List.map_cons, List.sum_cons, Nat.add_zero, Nat.zero_add,
        Nat.div_eq_of_lt hc]
      rfl
    | false =>
      rw [failingRuns_false hms] at hruns
      obtain ⟨rfl, rfl⟩ := List.cons.inj hruns
      rcases Nat.lt_or_ge (c + 1) k with hlt | hge
      · rw [fires, step_false_of_lt hlt, ih hms hlt, Nat.add_right_comm c 1 m, Nat.add_assoc c m 1]
        exact Nat.zero_add _
      · have hfull : c + (m + 1) = m + k := by omega
        rw [fires, step_false_of_le hge, ih hms hk, hfull, Nat.add_div_right _ hk, Nat.zero_add]
        show 1 + (m / k + _) = m / k + 1 + _
        omega

/-- **A reset counter fires once for every `k` failures in a row.** -/
theorem fires_eq (hk : 0 < k) (results : List Bool) :
    fires k 0 results = ((failingRuns results).map (· / k)).sum := by
  obtain ⟨n, ns, hruns⟩ := exists_failingRuns_eq results
  rw [fires_eq_of_lt hruns hk, hruns, List.map_cons, List.sum_cons, Nat.zero_add]

/-! ### Where the counter is -/

theorem count_append_singleton (results : List Bool) (up : Bool) :
    count k c (results ++ [up]) = (step k (count k c results) up).1 := by
  induction results generalizing c with
  | nil => rfl
  | cons up' results ih => exact ih

/-- **The counter is the length of the last run** of failures modulo the threshold. -/
theorem count_eq (hk : 0 < k) (results : List Bool) :
    count k 0 results = currentRun results % k := by
  induction results using List.reverseRecOn with
  | nil => exact (Nat.zero_mod k).symm
  | append_singleton results up ih =>
    rw [count_append_singleton, ih]
    cases up with
    | true =>
      have hrun : currentRun (results ++ [true]) = 0 := by
        rw [currentRun, List.rtakeWhile_concat_neg _ _ _ (by decide)]
        rfl
      rw [hrun, Nat.zero_mod]
      rfl
    | false =>
      have hrun : currentRun (results ++ [false]) = currentRun results + 1 := by
        rw [currentRun, List.rtakeWhile_concat_pos _ _ _ (by decide), List.length_append]
        rfl
      have hlt : currentRun results % k < k := Nat.mod_lt _ hk
      rw [hrun, ← Nat.mod_add_mod]
      rcases Nat.lt_or_ge (currentRun results % k + 1) k with hlow | hhigh
      · rw [step_false_of_lt hlow, Nat.mod_eq_of_lt hlow]
      · have hfull : currentRun results % k + 1 = k := by omega
        rw [step_false_of_le hhigh, hfull, Nat.mod_self]

end Threshold
