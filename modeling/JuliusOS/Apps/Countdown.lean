import JuliusOS.Apps.Timer
import Mathlib.Data.Nat.Cast.Order.Basic
import Mathlib.Tactic.Linarith

/-!
# The countdown and its pauses

A `Countdown` is what the countdown of `JuliusOS.Apps.Timer` is for: it is started and stopped, a
frame shows what is left of the seconds after the time it has been running, and the first frame at
which none is left shows `DONE!` and stops it.

The program keeps only the time of the last start. While it is stopped it shows all the seconds
again, and so it does after `DONE!`; after a pause it counts from the beginning.

`Fair` says at which times a frame shows what it should, and `countdown_iff` that a run shows what
it should at every frame exactly if all of its frames are drawn at such times.
-/

open RunningTime

namespace JuliusOS.Apps.Timer

/-! ### What a countdown is for -/

/-- A countdown: when it was started and stopped, and whether it has been seen to be over. -/
structure Countdown where
  seconds : ℕ
  marks : List ℚ
  reached : Bool
deriving DecidableEq

namespace Countdown

variable (c : Countdown) (t : ℚ)

/-- It is started. -/
def start (n : ℕ) (t : ℚ) : Countdown := ⟨n, [t], false⟩

/-- For how long it has been running. -/
def total : ℚ := ranFor c.marks t

/-- It is stopped, or goes on. -/
def toggle : Countdown := { c with marks := c.marks ++ [t] }

/-- It is over, and has not been seen to be over before. -/
def Ends : Prop := c.seconds ≤ c.total t ∧ c.reached = false

instance : Decidable (c.Ends t) := inferInstanceAs (Decidable (_ ∧ _))

/-- What a frame should show. -/
def shows : Frame := .countdown (decide (c.Ends t)) (max 0 (c.seconds - c.total t))

/-- The countdown after a frame. -/
def drawn : Countdown :=
  if c.Ends t then
    { c with marks := if running c.marks then c.marks ++ [t] else c.marks, reached := true }
  else c

/-- When it was started or stopped last. -/
def last : ℚ := c.marks.getLastD 0

/-- A time at which the program shows what it should. Where it is running, it was not running
before the last start, or has been running for all of its seconds since, and it is not seen to be
over for a second time. Where it is stopped, it has not been running yet, or was over at once. -/
def Fair : Prop :=
  if running c.marks then
    (c.total c.last = 0 ∨ c.seconds ≤ t - c.last) ∧ ¬ (c.reached = true ∧ c.seconds ≤ t - c.last)
  else c.seconds = 0 ∧ c.reached = true ∨ 0 < c.seconds ∧ c.total t = 0

end Countdown

/-! ### The countdown of the program -/

/-- The program beside the countdown that it should show. -/
structure Watched where
  app : Timer
  ideal : Countdown
  now : ℚ
  /-- All the frames so far were right. -/
  right : Bool
deriving DecidableEq

/-- What happens to a countdown. -/
inductive CountdownEvent
  /-- `K_s` is pressed. -/
  | startStop
  /-- A frame is drawn. -/
  | frame
deriving DecidableEq

/-- The key that starts and stops. -/
def keyS : KeyDown := .ofKey (.letter 's')

/-- The app, where ENTER has started a countdown of the seconds that were entered. -/
def Started (D : Digits) (w : Watched) : Prop :=
  ∃ (s : Timer) (n : ℕ), s.mode = .timerInput ∧ s.tmInput ≠ [] ∧ D.int s.tmInput = some n ∧
    w = ⟨(s.handleInput D (.ofKey .ret) w.now).1, .start n w.now, w.now, true⟩

/-- The countdown as a machine, with a clock that does not go back. -/
def countdown (D : Digits) : Machine Watched (ℚ × CountdownEvent) where
  Init := Started D
  step w
    | (t, .startStop) =>
      if w.now ≤ t then
        some ⟨(w.app.handleInput D keyS t).1, w.ideal.toggle t, t, w.right⟩
      else none
    | (t, .frame) =>
      if w.now ≤ t then
        some ⟨(w.app.draw t).1, w.ideal.drawn t, t,
          w.right && decide ((w.app.draw t).2 = w.ideal.shows t)⟩
      else none

/-- A step that goes right. -/
def FairStep (w : Watched) : ℚ × CountdownEvent → Prop
  | (_, .startStop) => True
  | (t, .frame) => w.ideal.Fair t

/-- The program and the countdown are in the same state. -/
structure Sync (w : Watched) : Prop where
  mode : w.app.mode = .timerRun
  seconds : w.app.tmSeconds = w.ideal.seconds
  running : w.app.tmRunning = RunningTime.running w.ideal.marks
  start : RunningTime.running w.ideal.marks = true → w.app.tmStart = w.ideal.last
  before : RunningTime.running w.ideal.marks = true → 0 ≤ w.ideal.total w.ideal.last
  total : 0 ≤ w.ideal.total w.now

variable {D : Digits} {w : Watched} {t : ℚ}

theorem sync_of_started (h : Started D w) : Sync w := by
  obtain ⟨s, n, hmode, hinput, hint, hw⟩ := h
  have happ : (s.handleInput D (.ofKey .ret) w.now).1 =
      { s with tmSeconds := n, tmStart := w.now, tmRunning := true, mode := .timerRun } := by
    rw [handleInput, hmode]
    show (s.handleTimerInput D (.ofKey .ret) w.now).1 = _
    rw [handleTimerInput, if_pos ⟨rfl, hinput⟩, hint]
    rfl
  rw [happ] at hw
  have htotal : ∀ t, (Countdown.start n w.now).total t = t - w.now := fun t ↦ rfl
  rw [hw]
  refine ⟨rfl, rfl, rfl, fun _ ↦ rfl, fun _ ↦ ?_, ?_⟩
  · rw [htotal]
    exact (sub_self w.now).ge
  · rw [htotal]
    exact (sub_self w.now).ge

theorem Countdown.total_of_running {c : Countdown} (h : running c.marks = true) (t : ℚ) :
    c.total t = c.total c.last + (t - c.last) := ranFor_of_running h c.last t

/-- What is left after a pause is the same only if there was no time before the pause, or is none
left after it. -/
theorem max_sub_eq_iff {n b e : ℚ} (hb : 0 ≤ b) :
    max 0 (n - e) = max 0 (n - (b + e)) ↔ b = 0 ∨ n ≤ e := by
  constructor
  · intro heq
    by_contra! hnot
    obtain ⟨hb0, hlt⟩ := hnot
    have hpos : 0 < b := lt_of_le_of_ne hb (Ne.symm hb0)
    rw [max_eq_right (sub_nonneg.2 hlt.le)] at heq
    rcases max_cases 0 (n - (b + e)) with ⟨hmax, -⟩ | ⟨hmax, -⟩ <;> linarith
  · rintro (rfl | hle)
    · rw [zero_add]
    · rw [max_eq_left (by linarith), max_eq_left (by linarith)]

theorem snd_drawTimerRun (s : Timer) (t : ℚ) : (s.drawTimerRun t).2 =
    .countdown (decide (s.remaining t ≤ 0 ∧ s.tmRunning = true)) (s.remaining t) := by
  rw [drawTimerRun]
  split
  next h => rw [decide_eq_true h]
  next h => rw [decide_eq_false h]

/-- **What the program shows is right** exactly at fair times. -/
theorem draw_eq_shows_iff (h : Sync w) : (w.app.draw t).2 = w.ideal.shows t ↔ w.ideal.Fair t := by
  have hseconds : (0 : ℚ) ≤ w.ideal.seconds := Nat.cast_nonneg _
  have hframe : (w.app.draw t).2 = (w.app.drawTimerRun t).2 := by
    rw [draw, h.mode]
  rw [hframe, snd_drawTimerRun, Countdown.shows, Frame.countdown.injEq, decide_eq_decide,
    Countdown.Fair, Countdown.Ends, remaining, h.seconds, h.running]
  cases hrun : RunningTime.running w.ideal.marks with
  | true =>
    rw [h.start hrun, if_pos rfl, if_pos rfl, Countdown.total_of_running hrun t,
      max_sub_eq_iff (h.before hrun), max_le_iff, sub_nonpos]
    have hbefore := h.before hrun
    constructor
    · rintro ⟨hends, hsame⟩
      refine ⟨hsame, ?_⟩
      rintro ⟨hreached, hle⟩
      have hnot := (hends.1 ⟨⟨le_rfl, hle⟩, rfl⟩).2
      rw [hreached] at hnot
      cases hnot
    · rintro ⟨hsame, hnot⟩
      refine ⟨⟨fun hle ↦ ⟨by linarith [hle.1.2], ?_⟩, fun hle ↦ ⟨⟨le_rfl, ?_⟩, rfl⟩⟩, hsame⟩
      · exact eq_false_of_ne_true fun hreached ↦ hnot ⟨hreached, hle.1.2⟩
      · rcases hsame with hzero | hlong
        · linarith [hle.1]
        · exact hlong
  | false =>
    rw [if_neg Bool.false_ne_true, if_neg Bool.false_ne_true, sub_zero, max_eq_right hseconds]
    have htotal : 0 ≤ w.ideal.total t := by
      rw [Countdown.total, ranFor_of_not_running hrun w.now t]
      exact h.total
    constructor
    · rintro ⟨hends, hsame⟩
      have hnot : ¬ ((w.ideal.seconds : ℚ) ≤ w.ideal.total t ∧ w.ideal.reached = false) :=
        fun h ↦ Bool.false_ne_true (hends.2 h).2
      rcases max_cases 0 ((w.ideal.seconds : ℚ) - w.ideal.total t) with ⟨hmax, hle⟩ | ⟨hmax, hlt⟩
      · have hzero : (w.ideal.seconds : ℚ) = 0 := hsame.trans hmax
        refine Or.inl ⟨by exact_mod_cast hzero, ?_⟩
        by_contra hreached
        exact hnot ⟨by linarith, eq_false_of_ne_true hreached⟩
      · refine Or.inr ⟨?_, by linarith⟩
        have : (0 : ℚ) < w.ideal.seconds := by linarith
        exact_mod_cast this
    · rintro (⟨hzero, hreached⟩ | ⟨hpos, hzero⟩)
      · rw [hzero, hreached, Nat.cast_zero, zero_sub, max_eq_left (by linarith)]
        exact ⟨iff_of_false (fun h ↦ Bool.false_ne_true h.2) fun h ↦ Bool.false_ne_true h.2.symm,
          rfl⟩
      · have hlt : (0 : ℚ) < w.ideal.seconds := by exact_mod_cast hpos
        rw [hzero, sub_zero, max_eq_right hseconds]
        exact ⟨iff_of_false (fun h ↦ Bool.false_ne_true h.2) fun h ↦ absurd h.1 (not_le.2 hlt), rfl⟩

/-! ### Runs -/

theorem last_concat {c : Countdown} (marks : List ℚ) (t : ℚ) :
    ({ c with marks := marks ++ [t] } : Countdown).last = t := by
  rw [Countdown.last, List.getLastD_concat]

/-- A mark that is set at the time of a step. -/
theorem total_mark {c : Countdown} (h : 0 ≤ c.total w.now) (hnow : w.now ≤ t) :
    0 ≤ ({ c with marks := c.marks ++ [t] } : Countdown).total t := by
  rw [Countdown.total, ranFor_concat_self]
  exact h.trans (ranFor_le _ hnow)

/-- The key keeps the two together. -/
theorem Sync.startStop (h : Sync w) (hnow : w.now ≤ t) (right : Bool) :
    Sync ⟨(w.app.handleInput D keyS t).1, w.ideal.toggle t, t, right⟩ := by
  have happ : (w.app.handleInput D keyS t).1 = w.app.handleTimerRun keyS t := by
    rw [handleInput, h.mode]
    rfl
  have hnext : (w.app.handleInput D keyS t).1 =
      if w.app.tmRunning then { w.app with tmRunning := false }
      else { w.app with tmStart := t, tmRunning := true } := happ
  have htotal := total_mark h.total hnow
  have hlast : (w.ideal.toggle t).last = t := last_concat w.ideal.marks t
  have hrunning := running_concat w.ideal.marks t
  rw [hnext]
  cases hrun : w.app.tmRunning with
  | true =>
    rw [← h.running, hrun] at hrunning
    refine ⟨h.mode, h.seconds, hrunning.symm, fun hon ↦ ?_, fun hon ↦ ?_, htotal⟩
    · exact absurd (hrunning.symm.trans hon) Bool.false_ne_true
    · exact absurd (hrunning.symm.trans hon) Bool.false_ne_true
  | false =>
    rw [← h.running, hrun] at hrunning
    refine ⟨h.mode, h.seconds, hrunning.symm, fun _ ↦ hlast.symm, fun _ ↦ ?_, htotal⟩
    show 0 ≤ (w.ideal.toggle t).total (w.ideal.toggle t).last
    rw [hlast]
    exact htotal

/-- A frame at a fair time does. -/
theorem Sync.frame (h : Sync w) (hnow : w.now ≤ t) (hfair : w.ideal.Fair t) (right : Bool) :
    Sync ⟨(w.app.draw t).1, w.ideal.drawn t, t, right⟩ := by
  have hshows := (draw_eq_shows_iff h).2 hfair
  have hdraw : w.app.draw t = w.app.drawTimerRun t := by
    rw [draw, h.mode]
  rw [hdraw, snd_drawTimerRun, Countdown.shows, Frame.countdown.injEq, decide_eq_decide] at hshows
  have htotal : 0 ≤ w.ideal.total t := h.total.trans (ranFor_le _ hnow)
  rw [hdraw, drawTimerRun, Countdown.drawn]
  by_cases hends : w.ideal.Ends t
  · -- it is over: both are stopped
    have hdone := hshows.1.2 hends
    have hrun : RunningTime.running w.ideal.marks = true := h.running.symm.trans hdone.2
    have hstopped : RunningTime.running (w.ideal.marks ++ [t]) = false := by
      rw [running_concat, hrun]
      rfl
    rw [if_pos hends, if_pos hdone, hrun, if_pos rfl]
    refine ⟨h.mode, h.seconds, hstopped.symm, fun hon ↦ ?_, fun hon ↦ ?_, ?_⟩
    · exact absurd (hstopped.symm.trans hon) Bool.false_ne_true
    · exact absurd (hstopped.symm.trans hon) Bool.false_ne_true
    · exact total_mark h.total hnow
  · have hdone := fun hd ↦ hends (hshows.1.1 hd)
    rw [if_neg hends, if_neg hdone]
    exact ⟨h.mode, h.seconds, h.running, h.start, h.before, htotal⟩

/-- **The exact condition for a countdown.** Every frame of a run shows the seconds that are left
after the time it has been running, and `DONE!` when there are first none left, if and only if every
frame is drawn at a fair time. -/
theorem countdown_iff (D : Digits) {w w' : Watched} {es : List (ℚ × CountdownEvent)}
    (hinit : (countdown D).Init w) (hrun : (countdown D).run w es = some w') :
    (countdown D).Guarded FairStep w es ↔
      ∀ n u, (countdown D).run w (es.take n) = some u → u.right = true := by
  have hright : w.right = true := by
    obtain ⟨s, n, -, -, -, hw⟩ := hinit
    rw [hw]
  refine Machine.guarded_iff_of_invariant (I := fun w ↦ w.right = true)
    (K := fun w ↦ w.right = true ∧ Sync w) (fun w h ↦ h.1) ?_ ?_
    ⟨hright, sync_of_started hinit⟩ hrun
  · rintro w ⟨t, e⟩ w' ⟨hright, hsync⟩ hfair hstep
    cases e with
    | startStop =>
      obtain ⟨hnow, heq⟩ := Option.ite_none_right_eq_some.1 hstep
      rw [← Option.some.inj heq]
      exact ⟨hright, hsync.startStop hnow _⟩
    | frame =>
      obtain ⟨hnow, heq⟩ := Option.ite_none_right_eq_some.1 hstep
      rw [← Option.some.inj heq]
      refine ⟨?_, hsync.frame hnow hfair _⟩
      show (w.right && _) = true
      rw [hright, decide_eq_true ((draw_eq_shows_iff hsync).2 hfair)]
      rfl
  · rintro w ⟨t, e⟩ w' ⟨-, hsync⟩ hunfair hstep
    cases e with
    | startStop => exact absurd trivial hunfair
    | frame =>
      obtain ⟨hnow, heq⟩ := Option.ite_none_right_eq_some.1 hstep
      rw [← Option.some.inj heq]
      show ¬ (w.right && _) = true
      rw [decide_eq_false fun hsame ↦ hunfair ((draw_eq_shows_iff hsync).1 hsame), Bool.and_false]
      exact Bool.false_ne_true

/-- `10` is entered. -/
def tenEntered : Timer := { init with mode := .timerInput, tmInput := [49, 48] }

/-- ENTER is pressed at 0. -/
def tenStarted : Watched :=
  ⟨(tenEntered.handleInput .ascii (.ofKey .ret) 0).1, .start 10 0, 0, true⟩

/-- It is stopped at 4, and a frame is drawn at 5. -/
def stoppedAtFour : List (ℚ × CountdownEvent) := [(4, .startStop), (5, .frame)]

theorem init_tenStarted : (countdown .ascii).Init tenStarted :=
  ⟨tenEntered, 10, rfl, List.cons_ne_nil _ _, rfl, rfl⟩

/-- Six seconds are left, and ten are shown. -/
def tenShown : Watched :=
  ⟨{ tenStarted.app with tmRunning := false }, ⟨10, [0, 4], false⟩, 5, false⟩

theorem run_stoppedAtFour : (countdown .ascii).run tenStarted stoppedAtFour = some tenShown := by
  decide +kernel

theorem countdown_iff_stoppedAtFour :
    ¬ (countdown .ascii).Guarded FairStep tenStarted stoppedAtFour := by
  intro hguard
  have hright := (countdown_iff .ascii init_tenStarted run_stoppedAtFour).1 hguard 2 tenShown
    run_stoppedAtFour
  cases hright

/-- A countdown that is stopped shows all its seconds again. -/
theorem countdown_forgets :
    (countdown .ascii).Init tenStarted ∧
      (countdown .ascii).run tenStarted stoppedAtFour = some tenShown ∧ tenShown.right = false ∧
        (tenShown.app.draw 5).2 = .countdown false 10 ∧
          tenShown.ideal.shows 5 = .countdown false 6 :=
  ⟨init_tenStarted, run_stoppedAtFour, rfl, by decide +kernel, by decide +kernel⟩

end JuliusOS.Apps.Timer
