import Mathlib.Algebra.Order.Group.Defs
import Mathlib.Data.List.DropRight
import Mathlib.Tactic.Abel

/-!
# How long a clock has been running

A clock is started and stopped in turn. The marks are the times at which that was done, and
`ranFor marks t` is for how long it has been running up to `t`: the lengths of the intervals from a
start to a stop, and from the last start to `t` where it is running still.

A stopwatch is given commands: it is started or stopped, it records a lap, or it is reset.
`History.total` and `History.laps` are what it should show, by what it was told since the last
reset.
-/

namespace RunningTime

variable {T : Type*} [AddCommGroup T]

/-- For how long a clock has been running that was started and stopped in turn. -/
def ranFor : List T → T → T
  | [], _ => 0
  | [start], t => t - start
  | start :: stop :: marks, t => (stop - start) + ranFor marks t

omit [AddCommGroup T] in
/-- Whether the clock is running. -/
def running (marks : List T) : Bool := marks.length % 2 == 1

variable {a t t' : T}

omit [AddCommGroup T] in
@[simp] theorem running_nil : running ([] : List T) = false := rfl

omit [AddCommGroup T] in
@[simp] theorem running_concat (marks : List T) (a : T) :
    running (marks ++ [a]) = !running marks := by
  rw [running, running, List.length_append, List.length_singleton]
  rcases Nat.mod_two_eq_zero_or_one marks.length with h | h
  · rw [h, Nat.add_mod, h]
    rfl
  · rw [h, Nat.add_mod, h]
    rfl

omit [AddCommGroup T] in
theorem running_cons_cons (a b : T) (marks : List T) :
    running (a :: b :: marks) = running marks := by
  rw [running, running, List.length_cons, List.length_cons, Nat.add_assoc, Nat.add_mod_right]

/-- The time goes by while the clock is running. -/
theorem ranFor_add (marks : List T) (t t' : T) :
    ranFor marks t' = ranFor marks t + if running marks then t' - t else 0 := by
  induction marks, t using ranFor.induct with
  | case1 t => simp [ranFor]
  | case2 start t =>
    show t' - start = t - start + (t' - t)
    abel
  | case3 t start stop marks ih =>
    rw [ranFor, ranFor, ih, running_cons_cons, add_assoc]

/-- **One more mark.** -/
theorem ranFor_concat (marks : List T) (a t : T) :
    ranFor (marks ++ [a]) t = ranFor marks a + if running marks then 0 else t - a := by
  induction marks, a using ranFor.induct with
  | case1 a => simp [ranFor]
  | case2 start a =>
    show a - start + 0 = a - start + 0
    rfl
  | case3 a start stop marks ih =>
    rw [List.cons_append, List.cons_append, ranFor, ranFor, ih, running_cons_cons, add_assoc]

/-- A mark takes no time. -/
theorem ranFor_concat_self (marks : List T) (t : T) :
    ranFor (marks ++ [t]) t = ranFor marks t := by
  rw [ranFor_concat, sub_self, ite_self, add_zero]

theorem ranFor_of_running {marks : List T} (h : running marks = true) (t t' : T) :
    ranFor marks t' = ranFor marks t + (t' - t) := by
  rw [ranFor_add marks t t', h, if_pos rfl]

theorem ranFor_of_not_running {marks : List T} (h : running marks = false) (t t' : T) :
    ranFor marks t' = ranFor marks t := by
  rw [ranFor_add marks t t', h, if_neg Bool.false_ne_true, add_zero]

theorem ranFor_le [PartialOrder T] [IsOrderedAddMonoid T] (marks : List T) (h : t ≤ t') :
    ranFor marks t ≤ ranFor marks t' := by
  rw [ranFor_add marks t t']
  refine le_add_of_nonneg_right ?_
  split
  · exact sub_nonneg.2 h
  · exact le_rfl

/-! ### Stopwatches -/

/-- What a stopwatch can be told. -/
inductive Command
  /-- To run, or to stop. -/
  | toggle
  /-- To record a lap. -/
  | lap
  /-- To stop, and to forget. -/
  | reset
deriving DecidableEq

/-- What a stopwatch was told, and when. -/
abbrev History (T : Type*) := List (T × Command)

namespace History

/-- What it was told since the last reset. -/
def sinceReset (h : History T) : History T := h.rtakeWhile fun e ↦ e.2 ≠ .reset

/-- When it was started and stopped since the last reset. -/
def marks (h : History T) : List T :=
  h.sinceReset.filterMap fun e ↦ if e.2 = .toggle then some e.1 else none

/-- For how long it has been running since the last reset, up to `t`. -/
def total (h : History T) (t : T) : T := ranFor h.marks t

/-- The laps of a history without a reset, which goes on after some marks: what the total was
whenever a lap was to be recorded while the clock was running. -/
def lapsFrom : List T → History T → List T
  | _, [] => []
  | marks, (t, .toggle) :: h => lapsFrom (marks ++ [t]) h
  | marks, (t, .lap) :: h =>
    if running marks then ranFor marks t :: lapsFrom marks h else lapsFrom marks h
  | marks, (_, .reset) :: h => lapsFrom marks h

/-- The laps since the last reset. -/
def laps (h : History T) : List T := lapsFrom [] h.sinceReset

variable {h : History T} {c : Command}

omit [AddCommGroup T] in
theorem sinceReset_concat (hc : c ≠ .reset) :
    sinceReset (h ++ [(t, c)]) = h.sinceReset ++ [(t, c)] :=
  List.rtakeWhile_concat_pos _ _ _ (decide_eq_true hc)

omit [AddCommGroup T] in
theorem sinceReset_concat_reset : sinceReset (h ++ [(t, .reset)]) = [] :=
  List.rtakeWhile_concat_neg _ _ _ (by simp)

omit [AddCommGroup T] in
@[simp] theorem marks_concat_toggle : marks (h ++ [(t, .toggle)]) = h.marks ++ [t] := by
  rw [marks, sinceReset_concat (by decide), List.filterMap_append]
  rfl

omit [AddCommGroup T] in
@[simp] theorem marks_concat_lap : marks (h ++ [(t, .lap)]) = h.marks := by
  rw [marks, sinceReset_concat (by decide), List.filterMap_append]
  exact List.append_nil _

omit [AddCommGroup T] in
@[simp] theorem marks_concat_reset : marks (h ++ [(t, .reset)]) = [] := by
  rw [marks, sinceReset_concat_reset]
  rfl

/-- One command more, at the end. -/
theorem lapsFrom_concat (marks : List T) (h : History T) (t : T) (c : Command) :
    lapsFrom marks (h ++ [(t, c)]) = lapsFrom marks h ++
      lapsFrom (marks ++ h.filterMap fun e ↦ if e.2 = .toggle then some e.1 else none)
        [(t, c)] := by
  induction marks, h using lapsFrom.induct with
  | case1 marks => simp [lapsFrom]
  | case2 marks s h ih =>
    rw [List.cons_append, lapsFrom, ih, lapsFrom, List.filterMap_cons, if_pos rfl]
    simp
  | case3 marks s h hrun ih =>
    rw [List.cons_append, lapsFrom, if_pos hrun, ih, lapsFrom, if_pos hrun]
    rfl
  | case4 marks s h hrun ih =>
    rw [List.cons_append, lapsFrom, if_neg hrun, ih, lapsFrom, if_neg hrun]
    rfl
  | case5 marks s h ih =>
    rw [List.cons_append, lapsFrom, ih, lapsFrom]
    rfl

theorem laps_concat (hc : c ≠ .reset) :
    laps (h ++ [(t, c)]) = h.laps ++ lapsFrom h.marks [(t, c)] := by
  rw [laps, sinceReset_concat hc, lapsFrom_concat]
  rfl

@[simp] theorem laps_concat_toggle : laps (h ++ [(t, .toggle)]) = h.laps := by
  rw [laps_concat (by decide)]
  exact List.append_nil _

@[simp] theorem laps_concat_lap :
    laps (h ++ [(t, .lap)]) = h.laps ++ if running h.marks then [h.total t] else [] := by
  rw [laps_concat (by decide)]
  rfl

@[simp] theorem laps_concat_reset : laps (h ++ [(t, .reset)]) = [] := by
  rw [laps, sinceReset_concat_reset]
  rfl

end History

end RunningTime
