import JuliusOS.Foundations.Machine
import JuliusOS.Foundations.MostRecent
import JuliusOS.Launcher.Cards

/-!
# The launcher's main loop

The loop of `src/run.py`: it takes the events of a frame, hands keys and presses to the app that is
open, and then draws. What the apps do is a parameter: any of them may raise. In the event loop
that ends the launcher, in `draw` it closes the app.

The recent apps are the last six that were opened, in order, the app that is open first; they are
shown only where none is open; and the launcher never scrolls out of its cards (`recents_of_run`).
-/

namespace JuliusOS.Launcher

/-- What an app is given. -/
inductive Input (ε : Type*)
  /-- A `KEYDOWN` event. -/
  | key (e : ε)
  /-- A `MOUSEBUTTONDOWN` event. -/
  | button (pos : Pos)

/-- The apps, in one state: what comes of a call, and whether it raises. -/
structure Instances (σ ε : Type*) where
  handleInput : AppName → Input ε → σ → σ × Bool
  draw : AppName → σ → σ × Bool

/-- An event of `pygame.event.get()`. -/
inductive Event (ε : Type*)
  | quit
  | mouseButtonDown (pos : Pos)
  /-- `pressed` is `pygame.mouse.get_pressed()[0]`. -/
  | mouseMotion (pos : Pos) (pressed : Bool)
  /-- `fast` is what the clock makes of `speed > 100`. -/
  | mouseButtonUp (pos : Pos) (fast : Bool)
  | keyDown (e : ε)

/-- What the loop does next. -/
inductive Label (ε : Type*)
  /-- An event is handled. -/
  | event (e : Event ε)
  /-- The events of the frame are handled, and it is drawn. -/
  | draw

/-- The globals of `run.py`. -/
structure Globals (σ : Type*) where
  currentApp : Option AppName
  scrollOffset : ℤ
  recentApps : List AppName
  showRecent : Bool
  dragStartX : ℤ
  dragStartY : ℤ
  dragging : Bool
  dragStartScroll : ℤ
  /-- The states of `app_instances`. -/
  instances : σ
  /-- The loop is left, by `sys.exit` or by an exception. -/
  ended : Bool

namespace Globals

variable {σ ε : Type*}

/-- The globals at the start. -/
def init (instances : σ) : Globals σ := ⟨none, 0, [], false, 0, 0, false, 0, instances, false⟩

/-- `open_app`. -/
def openApp (name : AppName) (s : Globals σ) : Globals σ :=
  let recentApps := name :: s.recentApps.erase name
  { s with
    currentApp := some name
    showRecent := false
    recentApps := if 6 < recentApps.length then recentApps.take 6 else recentApps }

/-- The app that a tap opens. -/
def tapTarget (s : Globals σ) (pos : Pos) : Option AppName :=
  if s.showRecent then getTappedRecent s.recentApps pos
  else if s.currentApp = none then getTappedApp s.scrollOffset pos
  else none

/-- The gestures that a release is tested for, in order. -/
inductive Gesture
  | recent
  | home
  | back
  | close
  | closeRecent
  | tap
  | none
deriving DecidableEq

/-- What a release amounts to. -/
def gesture (s : Globals σ) (pos : Pos) (fast : Bool) : Gesture :=
  let dx := pos.x - s.dragStartX
  let dy := pos.y - s.dragStartY
  if 200 < s.dragStartY ∧ dy < -40 ∧ fast = true then .recent
  else if s.dragStartY < 50 ∧ 40 < dy then .home
  else if 60 < dx ∧ dy.natAbs < 40 ∧ s.currentApp ≠ Option.none then .back
  else if 80 < dy ∧ dx.natAbs < 40 ∧ s.currentApp ≠ Option.none then .close
  else if 40 < dy ∧ s.showRecent = true then .closeRecent
  else if s.dragging = false ∨ dx.natAbs < 10 ∧ dy.natAbs < 10 then .tap
  else .none

/-- The button is released. -/
def mouseButtonUp (s : Globals σ) (pos : Pos) (fast : Bool) : Globals σ :=
  match s.gesture pos fast with
  | .recent => { s with showRecent := true, currentApp := none }
  | .home | .back | .close => { s with currentApp := none, showRecent := false }
  | .closeRecent => { s with showRecent := false }
  | .tap => (s.tapTarget pos).elim s fun name ↦ s.openApp name
  | .none => s

/-- The mouse is moved. -/
def mouseMotion (s : Globals σ) (pos : Pos) (pressed : Bool) : Globals σ :=
  if pressed = true then
    let dx := pos.x - s.dragStartX
    let dy := pos.y - s.dragStartY
    let s := { s with dragging := s.dragging || decide (5 < dy.natAbs ∨ 5 < dx.natAbs) }
    if s.currentApp = none ∧ s.showRecent = false then
      { s with scrollOffset := max 0 (min (s.dragStartScroll - dy) getMaxScroll) }
    else s
  else s

/-- The app that is open, if there is one, is given an event. -/
def passInput (A : Instances σ ε) (i : Input ε) (s : Globals σ) : Globals σ :=
  s.currentApp.elim s fun app ↦
    { s with
      instances := (A.handleInput app i s.instances).1
      ended := (A.handleInput app i s.instances).2 }

/-- A press is remembered. -/
def startDrag (s : Globals σ) (pos : Pos) : Globals σ :=
  { s with
    dragStartX := pos.x
    dragStartY := pos.y
    dragStartScroll := s.scrollOffset
    dragging := false }

/-- The body of the event loop. -/
def handle (A : Instances σ ε) (s : Globals σ) : Event ε → Globals σ
  | .quit => { s with ended := true }
  | .mouseButtonDown pos =>
    passInput A (.button pos) (s.startDrag pos)
  | .mouseMotion pos pressed => s.mouseMotion pos pressed
  | .mouseButtonUp pos fast => s.mouseButtonUp pos fast
  | .keyDown e => passInput A (.key e) s

/-- What is drawn after the events. -/
def draw (A : Instances σ ε) (s : Globals σ) : Globals σ :=
  if s.showRecent = true then s
  else s.currentApp.elim s fun app ↦
    { s with
      instances := (A.draw app s.instances).1
      currentApp := if (A.draw app s.instances).2 then none else some app }

/-- One step of the loop. -/
def step (A : Instances σ ε) (s : Globals σ) : Label ε → Option (Globals σ)
  | .event e => if s.ended then none else some (s.handle A e)
  | .draw => if s.ended then none else some (s.draw A)

/-- The app that a step opens. -/
def opened (s : Globals σ) : Label ε → List AppName
  | .event (.mouseButtonUp pos fast) =>
    if s.gesture pos fast = .tap then (s.tapTarget pos).toList else []
  | _ => []

end Globals

open Globals

variable {σ ε : Type*} {A : Instances σ ε} {s t : Globals σ}

/-- The launcher. -/
def launcher (A : Instances σ ε) : Machine (Globals σ) (Label ε) where
  Init s := ∃ instances, s = init instances
  step := step A

theorem step_event (e : Event ε) : (launcher A).step s (.event e) =
    if s.ended then none else some (s.handle A e) := rfl

theorem step_draw : (launcher A).step s .draw = if s.ended then none else some (s.draw A) := rfl

/-! ### What a step can do -/

namespace Globals

@[simp] theorem openApp_recentApps (name : AppName) (s : Globals σ) :
    (s.openApp name).recentApps = MostRecent.use 6 name s.recentApps := by
  show (if _ then _ else _) = _
  rw [MostRecent.use]
  split
  case isTrue h => rfl
  case isFalse h => exact (List.take_of_length_le (by omega)).symm

/-- The part of the state that says what is shown. -/
structure Shown where
  currentApp : Option AppName
  recentApps : List AppName
  showRecent : Bool
  scrollOffset : ℤ

/-- What of the state says what is shown. -/
def shown (s : Globals σ) : Shown := ⟨s.currentApp, s.recentApps, s.showRecent, s.scrollOffset⟩

theorem passInput_of_none (h : s.currentApp = none) (i : Input ε) : s.passInput A i = s := by
  rw [passInput, h, Option.elim_none]

theorem passInput_of_some {app : AppName} (h : s.currentApp = some app) (i : Input ε) :
    s.passInput A i = { s with
      instances := (A.handleInput app i s.instances).1
      ended := (A.handleInput app i s.instances).2 } := by
  simp only [passInput, h, Option.elim_some]

@[simp] theorem shown_passInput (i : Input ε) : (s.passInput A i).shown = s.shown := by
  cases happ : s.currentApp with
  | none => rw [passInput_of_none happ]
  | some app =>
    rw [passInput_of_some happ]
    rfl

end Globals

/-- **What a step can do to what is shown.** An app is opened, what is shown is closed, the recent
apps are shown, the cards are scrolled, or nothing. -/
theorem step_cases {l : Label ε} (h : (launcher A).step s l = some t) :
    (∃ name, s.opened l = [name] ∧ t.shown = (s.openApp name).shown) ∨
      s.opened l = [] ∧
        (t.shown = s.shown ∨ t.shown = { s.shown with currentApp := none } ∨
          t.shown = { s.shown with showRecent := false } ∨
          t.shown = { s.shown with currentApp := none, showRecent := false } ∨
          t.shown = { s.shown with currentApp := none, showRecent := true } ∨
          ∃ offset, 0 ≤ offset ∧ offset ≤ getMaxScroll ∧
            t.shown = { s.shown with scrollOffset := offset }) := by
  cases hended : s.ended with
  | true =>
    cases l with
    | event e =>
      rw [step_event, hended, if_pos rfl] at h
      cases h
    | draw =>
      rw [step_draw, hended, if_pos rfl] at h
      cases h
  | false =>
    cases l with
    | draw =>
      rw [step_draw, hended, if_neg (by decide), Option.some.injEq] at h
      subst h
      refine Or.inr ⟨rfl, ?_⟩
      by_cases hrecent : s.showRecent = true
      · left
        rw [Globals.draw, if_pos hrecent]
      · rw [Globals.draw, if_neg hrecent]
        cases happ : s.currentApp with
        | none => exact Or.inl rfl
        | some app =>
          show _ ∨ _
          cases hraise : (A.draw app s.instances).2 with
          | true =>
            right
            left
            simp only [Globals.shown, Option.elim_some, hraise, if_true]
          | false =>
            left
            simp only [Globals.shown, Option.elim_some, hraise, happ, Bool.false_eq_true, if_false]
    | event e =>
      rw [step_event, hended, if_neg (by decide), Option.some.injEq] at h
      subst h
      cases e with
      | quit => exact Or.inr ⟨rfl, Or.inl rfl⟩
      | mouseButtonDown pos => exact Or.inr ⟨rfl, Or.inl (shown_passInput _)⟩
      | keyDown e => exact Or.inr ⟨rfl, Or.inl (shown_passInput _)⟩
      | mouseMotion pos pressed =>
        refine Or.inr ⟨rfl, ?_⟩
        rw [Globals.handle, Globals.mouseMotion]
        by_cases hpressed : pressed = true
        · rw [if_pos hpressed]
          by_cases hhome : s.currentApp = none ∧ s.showRecent = false
          · rw [if_pos hhome]
            refine Or.inr (Or.inr (Or.inr (Or.inr (Or.inr ⟨_, le_max_left _ _, ?_, rfl⟩))))
            rw [getMaxScroll_eq]
            omega
          · rw [if_neg hhome]
            exact Or.inl rfl
        · rw [if_neg hpressed]
          exact Or.inl rfl
      | mouseButtonUp pos fast =>
        show (∃ name,
            (if s.gesture pos fast = .tap then (s.tapTarget pos).toList else []) = [name] ∧
              (s.mouseButtonUp pos fast).shown = _) ∨
          (if s.gesture pos fast = .tap then (s.tapTarget pos).toList else []) = [] ∧ _
        rw [Globals.handle, Globals.mouseButtonUp]
        cases hgesture : s.gesture pos fast with
        | recent => exact Or.inr ⟨rfl, by right; right; right; right; left; rfl⟩
        | home => exact Or.inr ⟨rfl, by right; right; right; left; rfl⟩
        | back => exact Or.inr ⟨rfl, by right; right; right; left; rfl⟩
        | close => exact Or.inr ⟨rfl, by right; right; right; left; rfl⟩
        | closeRecent => exact Or.inr ⟨rfl, by right; right; left; rfl⟩
        | none => exact Or.inr ⟨rfl, Or.inl rfl⟩
        | tap =>
          cases htarget : s.tapTarget pos with
          | none => exact Or.inr ⟨rfl, Or.inl rfl⟩
          | some name => exact Or.inl ⟨name, rfl, rfl⟩

/-! ### The invariant -/

/-- What is shown fits what was opened, the last first. -/
structure Fits (history : List AppName) (v : Shown) : Prop where
  recent : v.recentApps = (MostRecent.distinct history).take 6
  first : ∀ app, v.currentApp = some app → v.recentApps.head? = some app
  alone : v.showRecent = true → v.currentApp = none
  low : 0 ≤ v.scrollOffset
  high : v.scrollOffset ≤ getMaxScroll

/-- Opening an app puts it before all others. -/
theorem Fits.openApp {history : List AppName} (h : Fits history s.shown) (name : AppName) :
    Fits (name :: history) (s.openApp name).shown where
  recent := by
    show (s.openApp name).recentApps = _
    have hrecent : s.recentApps = _ := h.recent
    rw [openApp_recentApps, hrecent, MostRecent.use_take_distinct]
  first := by
    intro app happ
    obtain rfl : name = app := Option.some.inj happ
    show (s.openApp name).recentApps.head? = _
    rw [openApp_recentApps]
    rfl
  alone := by
    intro hrecent
    exact absurd hrecent Bool.false_ne_true
  low := h.low
  high := h.high

/-- What a step keeps. -/
theorem Fits.step {history : List AppName} (h : Fits history s.shown) {l : Label ε}
    (hstep : (launcher A).step s l = some t) : Fits ((s.opened l).reverse ++ history) t.shown := by
  rcases step_cases hstep with ⟨name, hname, ht⟩ | ⟨hnone, ht⟩
  · rw [hname, ht]
    exact h.openApp name
  · rw [hnone]
    rcases ht with ht | ht | ht | ht | ht | ⟨offset, hlow, hhigh, ht⟩
    · rw [ht]
      exact h
    · rw [ht]
      exact ⟨h.recent, fun app happ ↦ absurd happ (Option.some_ne_none app).symm, fun _ ↦ rfl,
        h.low, h.high⟩
    · rw [ht]
      exact ⟨h.recent, h.first, fun hrecent ↦ absurd hrecent Bool.false_ne_true, h.low, h.high⟩
    · rw [ht]
      exact ⟨h.recent, fun app happ ↦ absurd happ (Option.some_ne_none app).symm, fun _ ↦ rfl,
        h.low, h.high⟩
    · rw [ht]
      exact ⟨h.recent, fun app happ ↦ absurd happ (Option.some_ne_none app).symm, fun _ ↦ rfl,
        h.low, h.high⟩
    · rw [ht]
      exact ⟨h.recent, h.first, h.alone, hlow, hhigh⟩

theorem fits_init (instances : σ) : Fits [] (init instances).shown :=
  ⟨rfl, fun app happ ↦ absurd happ (Option.some_ne_none app).symm,
    fun hrecent ↦ absurd hrecent Bool.false_ne_true, le_refl (0 : ℤ), by
      rw [getMaxScroll_eq]
      exact Int.le.intro 944 rfl⟩

theorem fits_of_run (instances : σ) {ls : List (Label ε)}
    (hrun : (launcher A).run (init instances) ls = some t) :
    Fits ((launcher A).outputs Globals.opened (init instances) ls).reverse t.shown := by
  refine Machine.invariant_of_past
    (I := fun hist (u : Globals σ) ↦
      Fits ((launcher A).outputs opened (init instances) hist).reverse u.shown)
    ?_ (fits_init instances) hrun
  intro hist u l u' hpast hfits hstep
  rw [(launcher A).outputs_append_singleton hpast hstep, List.reverse_append]
  exact hfits.step hstep

/-- **What is shown fits what was opened**, in every run of every set of apps: the recent apps are
the first six of those that were opened, the last first and each once, and the app that is open is
the first of them; where they are shown no app is open; and the cards stay within their bounds. -/
theorem recents_of_run (instances : σ) {ls : List (Label ε)}
    (hrun : (launcher A).run (init instances) ls = some t) :
    t.recentApps = (MostRecent.distinct
        ((launcher A).outputs Globals.opened (init instances) ls).reverse).take 6 ∧
      (∀ app, t.currentApp = some app → t.recentApps.head? = some app) ∧
      (t.showRecent = true → t.currentApp = none) ∧
      0 ≤ t.scrollOffset ∧ t.scrollOffset ≤ getMaxScroll := by
  have h := fits_of_run instances hrun
  exact ⟨h.recent, h.first, h.alone, h.low, h.high⟩

/-- Apps that do nothing. -/
def idle {ε : Type*} : Instances Unit ε := ⟨fun _ _ _ ↦ ((), false), fun _ _ ↦ ((), false)⟩

theorem recents_of_run_tap :
    let tap : List (Label Unit) :=
      [.event (.mouseButtonDown ⟨20, 50⟩), .event (.mouseButtonUp ⟨20, 50⟩ false), .draw]
    ∃ t, (launcher idle).run (init ()) tap = some t ∧
      t.recentApps = (MostRecent.distinct
        ((launcher idle).outputs Globals.opened (init ()) tap).reverse).take 6 ∧
      (∀ app, t.currentApp = some app → t.recentApps.head? = some app) ∧
      (t.showRecent = true → t.currentApp = none) ∧
      0 ≤ t.scrollOffset ∧ t.scrollOffset ≤ getMaxScroll :=
  ⟨_, rfl, recents_of_run () rfl⟩

end JuliusOS.Launcher
