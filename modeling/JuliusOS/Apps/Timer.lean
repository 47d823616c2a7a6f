import JuliusOS.Apps.Keys
import JuliusOS.Foundations.RunningTime
import Mathlib.Algebra.Order.Ring.Rat

/-!
# Timer and stopwatch

`src/apps/timer/timer.py`: a menu, a stopwatch, and a countdown. Times are rational, so that nothing
is rounded, and the clock does not go back. What is drawn is a value that `fmt_time` then prints.

The stopwatch keeps what it has counted and when it was started last. It goes on while another
screen is shown. `stopwatch_shows` says that at any time, after any keys, it shows for how long it
has been running since the last reset, and so do its laps.
-/

open RunningTime

namespace JuliusOS.Apps

namespace Timer

/-- The values of `mode`. -/
inductive Mode
  | menu
  | stopwatch
  | timerInput
  | timerRun
deriving DecidableEq

/-- `str.isdigit` and `int`, as Python has them. Some texts of digits, such as `"²"`, are not read
as a number. -/
structure Digits where
  isdigit : List ℕ → Bool
  int : List ℕ → Option ℕ

/-- They are read so if they are ASCII. -/
def Digits.ascii : Digits where
  isdigit s := !s.isEmpty && s.all fun c ↦ 48 ≤ c && c ≤ 57
  int s :=
    if s.all fun c ↦ 48 ≤ c && c ≤ 57 then some (s.foldl (fun n c ↦ 10 * n + (c - 48)) 0) else none

/-- What is drawn. -/
inductive Frame
  | menu
  | stopwatch (elapsed : ℚ) (laps : List ℚ)
  | input (text : List ℕ)
  /-- The remaining time, or `DONE!`. -/
  | countdown (done : Bool) (remaining : ℚ)
deriving DecidableEq

end Timer

/-- A `Timer`. -/
structure Timer where
  mode : Timer.Mode
  swRunning : Bool
  swStart : ℚ
  swElapsed : ℚ
  swLaps : List ℚ
  tmInput : List ℕ
  tmSeconds : ℕ
  tmStart : ℚ
  tmRunning : Bool
deriving DecidableEq

namespace Timer

/-- `__init__`. -/
def init : Timer := ⟨.menu, false, 0, 0, [], [], 0, 0, false⟩

variable (D : Digits) (s : Timer) (k : KeyDown) (t : ℚ)

/-! ### Drawing -/

/-- `elapsed` in `draw_stopwatch`. -/
def elapsed : ℚ := if s.swRunning then s.swElapsed + (t - s.swStart) else s.swElapsed

/-- `draw_stopwatch`. -/
def drawStopwatch : Frame := .stopwatch (s.elapsed t) (s.swLaps.drop (s.swLaps.length - 6))

/-- `remaining` in `draw_timer_run`. -/
def remaining : ℚ := max 0 (s.tmSeconds - if s.tmRunning then t - s.tmStart else 0)

/-- `draw_timer_run`. -/
def drawTimerRun : Timer × Frame :=
  if s.remaining t ≤ 0 ∧ s.tmRunning then
    ({ s with tmRunning := false }, .countdown true (s.remaining t))
  else (s, .countdown false (s.remaining t))

/-- `draw`. -/
def draw : Timer × Frame :=
  match s.mode with
  | .menu => (s, .menu)
  | .stopwatch => (s, s.drawStopwatch t)
  | .timerInput => (s, .input s.tmInput)
  | .timerRun => s.drawTimerRun t

/-! ### Keys -/

/-- `handle_input` in the menu. -/
def handleMenu : Timer :=
  match k.key with
  | .letter '1' => { s with mode := .stopwatch }
  | .letter '2' => { s with mode := .timerInput, tmInput := [] }
  | _ => s

/-- The stopwatch is started or stopped. -/
def startStop : Timer :=
  if s.swRunning then { s with swElapsed := s.swElapsed + (t - s.swStart), swRunning := false }
  else { s with swStart := t, swRunning := true }

/-- It records a lap. -/
def lap : Timer :=
  if s.swRunning then { s with swLaps := s.swLaps ++ [s.swElapsed + (t - s.swStart)] } else s

/-- It is reset. -/
def reset : Timer := { s with swRunning := false, swElapsed := 0, swLaps := [] }

/-- `handle_input` of the stopwatch. -/
def handleStopwatch : Timer :=
  match k.key with
  | .letter 's' => s.startStop t
  | .letter 'l' => s.lap t
  | .letter 'r' => s.reset
  | .escape => { s with mode := .menu }
  | _ => s

/-- `handle_input` where the seconds are entered. -/
def handleTimerInput : Timer × Bool :=
  if k.key = .ret ∧ s.tmInput ≠ [] then
    match D.int s.tmInput with
    | some n => done { s with tmSeconds := n, tmStart := t, tmRunning := true, mode := .timerRun }
    | none => (s, true)
  else
    match k.key with
    | .backspace => done { s with tmInput := s.tmInput.dropLast }
    | .escape => done { s with mode := .menu }
    | _ => if D.isdigit k.unicode then done { s with tmInput := s.tmInput ++ k.unicode } else done s

/-- `handle_input` of the countdown. -/
def handleTimerRun : Timer :=
  match k.key with
  | .letter 's' =>
    if s.tmRunning then { s with tmRunning := false }
    else { s with tmStart := t, tmRunning := true }
  | .letter 'r' => { s with tmRunning := false, tmStart := 0, mode := .timerInput, tmInput := [] }
  | .escape => { s with tmRunning := false, mode := .menu }
  | _ => s

/-- `handle_input` of a `KEYDOWN`. -/
def handleInput : Timer × Bool :=
  match s.mode with
  | .menu => done (s.handleMenu k)
  | .stopwatch => done (s.handleStopwatch k t)
  | .timerInput => s.handleTimerInput D k t
  | .timerRun => done (s.handleTimerRun k t)

/-! ### The clock -/

/-- What the app is asked to do. -/
inductive Act
  | press (k : KeyDown)
  | draw
deriving DecidableEq

/-- The app, and the time of what it was asked last. -/
structure Clocked where
  app : Timer
  now : ℚ
deriving DecidableEq

/-- The app after it was asked something. -/
def act : Act → Timer
  | .press k => (s.handleInput D k t).1
  | .draw => (s.draw t).1

/-- The app beside a clock that does not go back. -/
def machine : Machine Clocked (ℚ × Act) where
  Init c := c.app = init
  step c e := if c.now ≤ e.1 then some ⟨c.app.act D e.1 e.2, e.1⟩ else none

/-- What the stopwatch is told by a key. -/
def told : KeyName → History ℚ
  | .letter 's' => [(t, .toggle)]
  | .letter 'l' => [(t, .lap)]
  | .letter 'r' => [(t, .reset)]
  | _ => []

/-- What the stopwatch is told, if it is shown. -/
def command (c : Clocked) : ℚ × Act → History ℚ
  | (t, .press k) => if c.app.mode = .stopwatch then told t k.key else []
  | (_, .draw) => []

/-- What the stopwatch was told. -/
def history (c : Clocked) (es : List (ℚ × Act)) : History ℚ := (machine D).outputs command c es

/-! ### The stopwatch -/

/-- The stopwatch shows what it should by a history, at any time from now on. -/
structure Agrees (s : Timer) (now : ℚ) (h : History ℚ) : Prop where
  running : s.swRunning = RunningTime.running h.marks
  elapsed : ∀ t, s.elapsed t = h.total t
  laps : s.swLaps = h.laps
  sorted : s.swLaps.Pairwise (· ≤ ·)
  laps_le : ∀ l ∈ s.swLaps, l ≤ h.total now

/-- The fields of the stopwatch. -/
def sw : Bool × ℚ × ℚ × List ℚ := (s.swRunning, s.swStart, s.swElapsed, s.swLaps)

variable {D s k t} {s' : Timer} {now : ℚ} {h : History ℚ}

theorem total_le (h : History ℚ) (hnow : now ≤ t) : h.total now ≤ h.total t := ranFor_le _ hnow

/-- What does not concern the stopwatch. -/
theorem Agrees.of_sw (ha : Agrees s now h) (hsw : s'.sw = s.sw) (hnow : now ≤ t) :
    Agrees s' t h := by
  simp only [sw, Prod.mk.injEq] at hsw
  obtain ⟨hrun, hstart, hel, hlaps⟩ := hsw
  refine ⟨hrun.trans ha.running, fun t' ↦ ?_, hlaps.trans ha.laps, hlaps ▸ ha.sorted, ?_⟩
  · rw [← ha.elapsed t', Timer.elapsed, Timer.elapsed, hrun, hstart, hel]
  · rw [hlaps]
    exact fun l hl ↦ (ha.laps_le l hl).trans (total_le h hnow)

theorem Agrees.startStop (ha : Agrees s now h) (hnow : now ≤ t) :
    Agrees (s.startStop t) t (h ++ [(t, .toggle)]) := by
  have htotal : ∀ t', History.total (h ++ [(t, .toggle)]) t' =
      h.total t + if RunningTime.running h.marks then 0 else t' - t := by
    intro t'
    rw [History.total, History.marks_concat_toggle, ranFor_concat, History.total]
  have hle : ∀ l ∈ s.swLaps, l ≤ History.total (h ++ [(t, .toggle)]) t := by
    intro l hl
    rw [htotal, sub_self, ite_self, add_zero]
    exact (ha.laps_le l hl).trans (total_le h hnow)
  have hshown := ha.elapsed t
  cases hrun : s.swRunning with
  | true =>
    rw [Timer.elapsed, hrun, if_pos rfl] at hshown
    rw [Timer.startStop, hrun]
    refine ⟨?_, fun t' ↦ ?_, ?_, ha.sorted, hle⟩
    · rw [History.marks_concat_toggle, running_concat, ← ha.running, hrun]
      rfl
    · rw [htotal, ← ha.running, hrun, ← hshown]
      exact (add_zero _).symm
    · rw [History.laps_concat_toggle]
      exact ha.laps
  | false =>
    rw [Timer.elapsed, hrun, if_neg Bool.false_ne_true] at hshown
    rw [Timer.startStop, hrun]
    refine ⟨?_, fun t' ↦ ?_, ?_, ha.sorted, hle⟩
    · rw [History.marks_concat_toggle, running_concat, ← ha.running, hrun]
      rfl
    · rw [htotal, ← ha.running, hrun, ← hshown]
      rfl
    · rw [History.laps_concat_toggle]
      exact ha.laps

theorem Agrees.lap (ha : Agrees s now h) (hnow : now ≤ t) :
    Agrees (s.lap t) t (h ++ [(t, .lap)]) := by
  have htotal : ∀ t', History.total (h ++ [(t, .lap)]) t' = h.total t' := by
    intro t'
    rw [History.total, History.marks_concat_lap, History.total]
  have hle : ∀ l ∈ s.swLaps, l ≤ h.total t :=
    fun l hl ↦ (ha.laps_le l hl).trans (total_le h hnow)
  have hshown := ha.elapsed t
  cases hrun : s.swRunning with
  | true =>
    rw [Timer.elapsed, hrun, if_pos rfl] at hshown
    rw [Timer.lap, if_pos hrun]
    refine ⟨?_, fun t' ↦ ?_, ?_, ?_, ?_⟩
    · rw [History.marks_concat_lap]
      exact ha.running
    · rw [htotal]
      exact ha.elapsed t'
    · rw [History.laps_concat_lap, ← ha.running, hrun, ← ha.laps, ← hshown]
      rfl
    · show (s.swLaps ++ [s.swElapsed + (t - s.swStart)]).Pairwise (· ≤ ·)
      rw [hshown]
      refine List.pairwise_append.2 ⟨ha.sorted, List.pairwise_singleton _ _, fun l hl l' hl' ↦ ?_⟩
      rw [List.mem_singleton.1 hl']
      exact hle l hl
    · show ∀ l ∈ s.swLaps ++ [s.swElapsed + (t - s.swStart)], _
      rw [htotal, hshown]
      intro l hl
      rcases List.mem_append.1 hl with hl | hl
      · exact hle l hl
      · exact (List.mem_singleton.1 hl).le
  | false =>
    rw [Timer.lap, hrun]
    refine ⟨?_, fun t' ↦ ?_, ?_, ha.sorted, ?_⟩
    · rw [History.marks_concat_lap]
      exact ha.running
    · rw [htotal]
      exact ha.elapsed t'
    · rw [History.laps_concat_lap, ← ha.running, hrun, ← ha.laps]
      exact (List.append_nil _).symm
    · rw [htotal]
      exact hle

theorem agrees_reset (s : Timer) (t : ℚ) (h : History ℚ) :
    Agrees s.reset t (h ++ [(t, .reset)]) := by
  refine ⟨?_, fun t' ↦ ?_, ?_, .nil, List.forall_mem_nil _⟩
  · rw [History.marks_concat_reset]
    rfl
  · rw [History.total, History.marks_concat_reset]
    rfl
  · rw [History.laps_concat_reset]
    rfl

theorem Agrees.handleStopwatch (ha : Agrees s now h) (hnow : now ≤ t) :
    Agrees (s.handleStopwatch k t) t (h ++ told t k.key) := by
  rw [Timer.handleStopwatch]
  split
  next hk =>
    rw [hk]
    exact ha.startStop hnow
  next hk =>
    rw [hk]
    exact ha.lap hnow
  next hk =>
    rw [hk]
    exact agrees_reset s t h
  next hk =>
    rw [hk, told, List.append_nil]
    · exact ha.of_sw rfl hnow
    all_goals exact fun h ↦ KeyName.noConfusion h
  next hs hl hr _ =>
    rw [told.eq_4 t k.key hs hl hr, List.append_nil]
    exact ha.of_sw rfl hnow

/-- The keys of the other screens leave the stopwatch as it is. -/
theorem sw_handleInput (hmode : s.mode ≠ .stopwatch) (k : KeyDown) :
    (s.handleInput D k t).1.sw = s.sw := by
  rw [handleInput]
  split
  · show (s.handleMenu k).sw = s.sw
    rw [handleMenu]
    split <;> rfl
  next h => exact absurd h hmode
  · rw [handleTimerInput]
    split
    · split <;> rfl
    · split
      · rfl
      · rfl
      · split <;> rfl
  · show (s.handleTimerRun k t).sw = s.sw
    rw [handleTimerRun]
    split
    · split <;> rfl
    · rfl
    · rfl
    · rfl

/-- So does drawing. -/
theorem sw_draw (s : Timer) (t : ℚ) : (s.draw t).1.sw = s.sw := by
  rw [draw]
  split
  · rfl
  · rfl
  · rfl
  · rw [drawTimerRun]
    split <;> rfl

/-- **One step** keeps the stopwatch and the history together. -/
theorem Agrees.step {c : Clocked} {e : ℚ × Act} (ha : Agrees c.app c.now h) (hnow : c.now ≤ e.1) :
    Agrees (c.app.act D e.1 e.2) e.1 (h ++ command c e) := by
  obtain ⟨t, a⟩ := e
  cases a with
  | press k =>
    by_cases hmode : c.app.mode = .stopwatch
    · have hact : c.app.act D t (.press k) = c.app.handleStopwatch k t := by
        rw [act, handleInput, hmode]
        rfl
      rw [hact, command, if_pos hmode]
      exact ha.handleStopwatch hnow
    · rw [command, if_neg hmode, List.append_nil]
      exact ha.of_sw (sw_handleInput hmode k) hnow
  | draw =>
    rw [command, List.append_nil]
    exact ha.of_sw (sw_draw c.app t) hnow

/-- **A stopwatch shows for how long it has been running.** After any keys on any of the screens, at
any time from the last of them on, it is the time since the last reset in which it was running, up
to then. The laps are what that was whenever one was recorded, and they do not decrease. -/
theorem stopwatch_shows (D : Digits) {c c' : Clocked} {es : List (ℚ × Act)} (hinit : c.app = init)
    (hrun : (machine D).run c es = some c') :
    (∀ t, c'.now ≤ t → c'.app.drawStopwatch t = .stopwatch ((history D c es).total t)
        ((history D c es).laps.drop ((history D c es).laps.length - 6))) ∧
      c'.app.swLaps = (history D c es).laps ∧ c'.app.swLaps.Pairwise (· ≤ ·) := by
  have ha : Agrees c'.app c'.now (history D c es) := by
    refine Machine.invariant_of_past (I := fun es c' ↦ Agrees c'.app c'.now (history D c es))
      ?_ ?_ hrun
    · intro es' c₁ e c₂ hpast ha hstep
      rw [history, Machine.outputs_append_singleton _ hpast hstep]
      obtain ⟨hnow, heq⟩ := Option.ite_none_right_eq_some.1 hstep
      rw [← Option.some.inj heq]
      exact ha.step hnow
    · rw [hinit]
      exact ⟨rfl, fun _ ↦ rfl, rfl, .nil, List.forall_mem_nil _⟩
  exact ⟨fun t _ ↦ by rw [drawStopwatch, ha.elapsed, ha.laps], ha.laps, ha.sorted⟩

/-- The stopwatch is started at 1, records a lap at 3, goes on in the menu, and is stopped at 6. -/
def lapThenMenu : List (ℚ × Act) :=
  [(0, .press (.ofKey (.letter '1'))), (1, .press (.ofKey (.letter 's'))),
    (3, .press (.ofKey (.letter 'l'))), (4, .press (.ofKey .escape)),
    (5, .press (.ofKey (.letter '1'))), (6, .press (.ofKey (.letter 's')))]

theorem stopwatch_shows_lapThenMenu :
    ({ init with mode := .stopwatch, swStart := 1, swElapsed := 5, swLaps := [2] } :
        Timer).drawStopwatch 8 = .stopwatch 5 [2] := by
  have hrun : (machine .ascii).run ⟨init, 0⟩ lapThenMenu = some
      ⟨{ init with mode := .stopwatch, swStart := 1, swElapsed := 5, swLaps := [2] }, 6⟩ := by
    decide +kernel
  have hshows := (stopwatch_shows .ascii rfl hrun).1 8 (by decide +kernel)
  have htotal : (history .ascii ⟨init, 0⟩ lapThenMenu).total 8 = 5 := by decide +kernel
  have hlaps : (history .ascii ⟨init, 0⟩ lapThenMenu).laps = [2] := by decide +kernel
  rw [hshows, htotal, hlaps]
  rfl

end Timer

end JuliusOS.Apps
