import JuliusOS.Launcher.Gestures

/-!
# Taps and drags in the launcher

A press that is released where it was is a tap: on the cards of all apps it opens the app that is
found there, which below the status bar is the one that is seen (`tap_home`), on those of the recent
apps the one that is seen (`tap_recent`). A press that is moved by ten pixels or more scrolls the
cards and opens nothing. From every state that can be reached a swipe, some drags and a tap open any
app (`exists_run_open`), if presses do not make an app raise.
-/

namespace JuliusOS.Launcher

open Globals

variable {σ ε : Type*} {A : Instances σ ε} {s t u : Globals σ}

/-- A label whose position is on the display. -/
def Label.OnScreen : Label ε → Prop
  | .event (.mouseButtonDown pos) => pos.OnScreen
  | .event (.mouseMotion pos _) => pos.OnScreen
  | .event (.mouseButtonUp pos _) => pos.OnScreen
  | _ => True

/-- A press. -/
def down (pos : Pos) : Label ε := .event (.mouseButtonDown pos)

/-- A movement with the button pressed. -/
def move (pos : Pos) : Label ε := .event (.mouseMotion pos true)

/-- A release. -/
def up (pos : Pos) (fast : Bool) : Label ε := .event (.mouseButtonUp pos fast)

/-! ### Taps -/

/-- The state after a press, where the app that is open did not raise. -/
structure Pressed (s : Globals σ) (pos : Pos) (t : Globals σ) : Prop where
  shown : t.shown = s.shown
  startX : t.dragStartX = pos.x
  startY : t.dragStartY = pos.y
  startScroll : t.dragStartScroll = s.scrollOffset
  dragging : t.dragging = false
  ended : t.ended = false

/-- A press while no app is open. -/
theorem pressed_of_none (hended : s.ended = false) (happ : s.currentApp = none) (pos : Pos) :
    ∃ t, (launcher A).step s (down pos) = some t ∧ Pressed s pos t := by
  refine ⟨_, (step_event _).trans (if_neg (by rw [hended]; decide)), ?_⟩
  rw [Globals.handle, passInput_of_none (s := s.startDrag pos) happ]
  exact ⟨rfl, rfl, rfl, rfl, rfl, hended⟩

/-- A press that does not make an app raise. -/
theorem pressed_of_quiet (hbutton : ∀ app pos x, (A.handleInput app (.button pos) x).2 = false)
    (hended : s.ended = false) (pos : Pos) :
    ∃ t, (launcher A).step s (down pos) = some t ∧ Pressed s pos t := by
  cases happ : s.currentApp with
  | none => exact pressed_of_none hended happ pos
  | some app =>
    refine ⟨_, (step_event _).trans (if_neg (by rw [hended]; decide)), ?_⟩
    rw [Globals.handle, passInput_of_some (s := s.startDrag pos) happ]
    exact ⟨rfl, rfl, rfl, rfl, rfl, hbutton app pos s.instances⟩

/-- **A release where the press was is a tap.** -/
theorem gesture_of_pressed {pos : Pos} (h : Pressed s pos t) (fast : Bool) :
    t.gesture pos fast = .tap := by
  have hx : pos.x - t.dragStartX = 0 := by rw [h.startX, Int.sub_self]
  have hy : pos.y - t.dragStartY = 0 := by rw [h.startY, Int.sub_self]
  simp only [Globals.gesture, hx, hy, h.dragging]
  rw [if_neg (by omega), if_neg (by omega), if_neg (by omega), if_neg (by omega),
    if_neg (by omega), if_pos (Or.inl trivial)]

/-- A tap does what its target says. -/
theorem run_tap (hended : s.ended = false) (happ : s.currentApp = none) (pos : Pos) (fast : Bool) :
    ∃ t, (launcher A).run s [down pos, up pos fast] = some t ∧
      t.currentApp = s.tapTarget pos ∧ t.ended = false := by
  obtain ⟨u, hu, hpress⟩ := pressed_of_none (A := A) hended happ pos
  have hshown := hpress.shown
  have happ' : u.currentApp = none := (congrArg Shown.currentApp hshown).trans happ
  have htarget : u.tapTarget pos = s.tapTarget pos := by
    have hrecent : u.showRecent = s.showRecent := congrArg Shown.showRecent hshown
    have hrecents : u.recentApps = s.recentApps := congrArg Shown.recentApps hshown
    have hoffset : u.scrollOffset = s.scrollOffset := congrArg Shown.scrollOffset hshown
    rw [tapTarget, tapTarget, hrecent, hrecents, hoffset, happ, happ']
  have hup : (launcher A).step u (up pos fast) = some (u.mouseButtonUp pos fast) :=
    (step_event _).trans (if_neg (by rw [hpress.ended]; decide))
  refine ⟨u.mouseButtonUp pos fast, ?_, ?_⟩
  · rw [(launcher A).run_cons_eq_some]
    exact ⟨u, hu, (launcher A).run_cons_eq_some.2 ⟨_, hup, rfl⟩⟩
  · rw [mouseButtonUp, gesture_of_pressed hpress fast, ← htarget]
    cases u.tapTarget pos with
    | none => exact ⟨happ', hpress.ended⟩
    | some name => exact ⟨rfl, hpress.ended⟩

/-- **A tap on the cards of all apps** opens the app whose card is seen there, below the status bar
always, and on it exactly if no card that has scrolled out above it is there. -/
theorem tap_home (hended : s.ended = false) (happ : s.currentApp = none)
    (hrecent : s.showRecent = false) {pos : Pos} (hpos : pos.OnScreen) (fast : Bool) :
    ∃ t, (launcher A).run s [down pos, up pos fast] = some t ∧
      (28 ≤ pos.y → t.currentApp =
        Layers.topmost Rect.collidepoint (drawLauncher s.scrollOffset) pos) ∧
      (t.currentApp = Layers.topmost Rect.collidepoint (drawLauncher s.scrollOffset) pos ↔
        ∀ i < apps.length, (card s.scrollOffset i).collidepoint pos = true →
          28 ≤ (card s.scrollOffset i).y + (card s.scrollOffset i).h) := by
  obtain ⟨t, hrun, ht, -⟩ := run_tap (A := A) hended happ pos fast
  have htarget : s.tapTarget pos = getTappedApp s.scrollOffset pos := by
    rw [tapTarget, hrecent, if_neg (by decide), if_pos happ]
  rw [htarget] at ht
  refine ⟨t, hrun, fun hy ↦ ?_, ?_⟩
  · rw [ht, getTappedApp_eq_topmost s.scrollOffset hpos hy]
  · rw [ht, getTappedApp_eq_topmost_iff s.scrollOffset hpos]

theorem tap_home_clock :
    ∃ t, (launcher (idle (ε := Unit))).run (init ()) [down ⟨20, 50⟩, up ⟨20, 50⟩ false] = some t ∧
      ((28 : ℤ) ≤ 50 → t.currentApp =
        Layers.topmost Rect.collidepoint (drawLauncher 0) ⟨20, 50⟩) ∧
      (t.currentApp = Layers.topmost Rect.collidepoint (drawLauncher 0) ⟨20, 50⟩ ↔
        ∀ i < apps.length, (card 0 i).collidepoint ⟨20, 50⟩ = true →
          28 ≤ (card 0 i).y + (card 0 i).h) :=
  tap_home rfl rfl rfl (by decide) false

/-- **A tap on the recent apps** opens the one that is seen. -/
theorem tap_recent (hended : s.ended = false) (happ : s.currentApp = none)
    (hrecent : s.showRecent = true) (pos : Pos) (fast : Bool) :
    ∃ t, (launcher A).run s [down pos, up pos fast] = some t ∧
      t.currentApp = Layers.topmost Rect.collidepoint (drawRecent s.recentApps) pos := by
  obtain ⟨t, hrun, ht, -⟩ := run_tap (A := A) hended happ pos fast
  rw [tapTarget, hrecent, if_pos rfl, getTappedRecent_eq_topmost] at ht
  exact ⟨t, hrun, ht⟩

/-! ### Drags -/

/-- Labels on the display lead from a state to another. -/
def Reaches (A : Instances σ ε) (s t : Globals σ) : Prop :=
  ∃ ls, (∀ l ∈ ls, l.OnScreen) ∧ (launcher A).run s ls = some t

namespace Reaches

theorem refl (s : Globals σ) : Reaches A s s := ⟨[], List.forall_mem_nil _, rfl⟩

theorem trans (h : Reaches A s t) (h' : Reaches A t u) : Reaches A s u := by
  obtain ⟨ls, hls, hrun⟩ := h
  obtain ⟨ls', hls', hrun'⟩ := h'
  exact ⟨ls ++ ls', List.forall_mem_append.2 ⟨hls, hls'⟩,
    (launcher A).run_append_eq_some.2 ⟨t, hrun, hrun'⟩⟩

theorem single {l : Label ε} (hl : l.OnScreen) (h : (launcher A).step s l = some t) :
    Reaches A s t :=
  ⟨[l], List.forall_mem_singleton.2 hl, (launcher A).run_cons_eq_some.2 ⟨t, h, rfl⟩⟩

end Reaches

/-- The cards of all apps are shown, moved up by `offset`. -/
structure Home (offset : ℤ) (s : Globals σ) : Prop where
  app : s.currentApp = none
  recent : s.showRecent = false
  scroll : s.scrollOffset = offset
  ended : s.ended = false

/-- **A swipe down from the top** leads home from everywhere. -/
theorem reaches_home (hbutton : ∀ app pos x, (A.handleInput app (.button pos) x).2 = false)
    (hended : s.ended = false) : ∃ t, Reaches A s t ∧ Home s.scrollOffset t := by
  obtain ⟨u, hu, hpress⟩ := pressed_of_quiet hbutton hended ⟨120, 10⟩
  have hgesture : u.gesture ⟨120, 100⟩ false = .home := by
    simp only [Globals.gesture, hpress.startX, hpress.startY]
    rw [if_neg (by decide), if_pos (by decide)]
  have hup : (launcher A).step u (up ⟨120, 100⟩ false) =
      some (u.mouseButtonUp ⟨120, 100⟩ false) :=
    (step_event _).trans (if_neg (by rw [hpress.ended]; decide))
  refine ⟨_, (Reaches.single (l := down ⟨120, 10⟩) (by decide : (Pos.mk 120 10).OnScreen) hu).trans
    (Reaches.single (l := up ⟨120, 100⟩ false) (by decide : (Pos.mk 120 100).OnScreen) hup), ?_⟩
  rw [mouseButtonUp, hgesture]
  exact ⟨rfl, rfl, congrArg Shown.scrollOffset hpress.shown, hpress.ended⟩

/-- A position in the middle of the display. -/
theorem onScreen_middle {y : ℤ} (hlow : 0 ≤ y) (hhigh : y < 240) : (Pos.mk 120 y).OnScreen := by
  show (0 : ℤ) ≤ 120 ∧ (120 : ℤ) < 240 ∧ 0 ≤ y ∧ y < 240
  omega

/-- **A drag scrolls**, within the cards, and opens nothing. -/
theorem reaches_drag {offset y k : ℤ} (h : Home offset s) (hy : 50 ≤ y ∧ y ≤ 200)
    (hk : 10 ≤ k.natAbs) (hend : 0 ≤ y - k ∧ y - k < 240) :
    ∃ t, Reaches A s t ∧ Home (max 0 (min (offset + k) 944)) t := by
  obtain ⟨u, hu, hpress⟩ := pressed_of_none (A := A) h.ended h.app ⟨120, y⟩
  have happ : u.currentApp = none := (congrArg Shown.currentApp hpress.shown).trans h.app
  have hrecent : u.showRecent = false := (congrArg Shown.showRecent hpress.shown).trans h.recent
  have hmotion : u.mouseMotion ⟨120, y - k⟩ true =
      { u with dragging := true, scrollOffset := max 0 (min (offset + k) 944) } := by
    have hdy : y - k - y = -k := by omega
    have hstart : offset - -k = offset + k := by omega
    rw [mouseMotion, if_pos rfl]
    simp only [hpress.startX, hpress.startY, hpress.startScroll, h.scroll, happ, hrecent, hdy,
      hstart, getMaxScroll_eq, hpress.dragging]
    rw [if_pos ⟨trivial, trivial⟩, Bool.false_or, decide_eq_true (by omega)]
  set v := u.mouseMotion ⟨120, y - k⟩ true with hv
  have hmove : (launcher A).step u (move ⟨120, y - k⟩) = some v :=
    (step_event _).trans (if_neg (by rw [hpress.ended]; decide))
  have hended : v.ended = false := by rw [hmotion]; exact hpress.ended
  have hup : (launcher A).step v (up ⟨120, y - k⟩ false) =
      some (v.mouseButtonUp ⟨120, y - k⟩ false) :=
    (step_event _).trans (if_neg (by rw [hended]; decide))
  have hgesture : v.gesture ⟨120, y - k⟩ false = .none := by
    have hdy : y - k - y = -k := by omega
    rw [hmotion]
    simp only [Globals.gesture, hpress.startX, hpress.startY, happ, hrecent, hdy]
    rw [if_neg fun hc ↦ Bool.false_ne_true hc.2.2, if_neg (by omega), if_neg fun hc ↦ hc.2.2 rfl,
      if_neg fun hc ↦ hc.2.2 rfl, if_neg fun hc ↦ Bool.false_ne_true hc.2, if_neg]
    rintro (hc | ⟨-, hc⟩)
    · exact Bool.false_ne_true hc.symm
    · omega
  have hon := onScreen_middle hend.1 hend.2
  refine ⟨_, ((Reaches.single (l := down ⟨120, y⟩) ?_ hu).trans
    (Reaches.single (l := move ⟨120, y - k⟩) hon hmove)).trans
      (Reaches.single (l := up ⟨120, y - k⟩ false) hon hup), ?_⟩
  · exact onScreen_middle (by omega) (by omega)
  · rw [mouseButtonUp, hgesture, hmotion]
    exact ⟨happ, hrecent, rfl, hpress.ended⟩

/-- Drags down lead to the first row. -/
theorem reaches_top (n : ℕ) {offset : ℤ} (h : Home offset s) (hoffset : offset ≤ 100 * n)
    (hlow : 0 ≤ offset) (hhigh : offset ≤ 944) : ∃ t, Reaches A s t ∧ Home 0 t := by
  induction n generalizing s offset with
  | zero =>
    obtain rfl : offset = 0 := by omega
    exact ⟨s, Reaches.refl s, h⟩
  | succ n ih =>
    obtain ⟨t, ht, hhome⟩ := reaches_drag (A := A) (y := 100) (k := -100) h (by omega) (by omega)
      (by omega)
    obtain ⟨u, hu, htop⟩ := ih hhome (by push_cast at hoffset; omega) (by omega) (by omega)
    exact ⟨u, ht.trans hu, htop⟩

/-- Drags up lead to any row, or to the last ones. -/
theorem reaches_row (n : ℕ) (h : Home 0 s) :
    ∃ t, Reaches A s t ∧ Home (min (68 * (n : ℤ)) 944) t := by
  induction n with
  | zero => exact ⟨s, Reaches.refl s, h⟩
  | succ n ih =>
    obtain ⟨t, ht, hhome⟩ := ih
    obtain ⟨u, hu, hrow⟩ := reaches_drag (A := A) (y := 150) (k := 68) hhome (by omega) (by omega)
      (by omega)
    refine ⟨u, ht.trans hu, ?_⟩
    have heq : max 0 (min (min (68 * (n : ℤ)) 944 + 68) 944) =
        min (68 * ((n + 1 : ℕ) : ℤ)) 944 := by
      push_cast
      omega
    rw [← heq]
    exact hrow

theorem exists_index (app : AppName) : ∃ i, ∃ hi : i < apps.length, apps.get ⟨i, hi⟩ = app := by
  have hall : ∀ app : AppName, app ∈ apps := by
    intro app
    cases app <;> decide
  obtain ⟨⟨i, hi⟩, h⟩ := List.get_of_mem (hall app)
  exact ⟨i, hi, h⟩

/-- **Every app can be opened** from every state that can be reached, on the display, if presses do
not make an app raise. -/
theorem exists_run_open (hbutton : ∀ app pos x, (A.handleInput app (.button pos) x).2 = false)
    (hs : (launcher A).Reachable s) (hended : s.ended = false) (app : AppName) :
    ∃ ls t, (∀ l ∈ ls, l.OnScreen) ∧ (launcher A).run s ls = some t ∧ t.currentApp = some app := by
  obtain ⟨x, ls, ⟨instances, rfl⟩, hrun⟩ := hs
  have hfits := fits_of_run instances hrun
  have hhigh : s.scrollOffset ≤ 944 := getMaxScroll_eq ▸ hfits.high
  obtain ⟨i, hi, rfl⟩ := exists_index app
  have hi' : i < 34 := hi
  obtain ⟨t, hst, hhome⟩ := reaches_home hbutton hended
  obtain ⟨u, htu, htop⟩ := reaches_top 10 hhome (by push_cast; omega) hfits.low hhigh
  obtain ⟨v, huv, hrow⟩ := reaches_row (i / 2) htop
  -- the row of the app is on the display now, and the tap is five pixels inside its card
  set pos : Pos := ⟨13 + (i % 2 : ℕ) * 116,
    41 + (i / 2 : ℕ) * 68 - min (68 * ((i / 2 : ℕ) : ℤ)) 944⟩ with hpos
  have hon : pos.OnScreen := by
    rw [hpos]
    refine ⟨?_, ?_, ?_, ?_⟩ <;> simp only [width, height] <;> omega
  have hhit : (card v.scrollOffset i).collidepoint pos = true := by
    rw [hrow.scroll, card_eq, Rect.collidepoint_iff, hpos]
    simp only
    omega
  obtain ⟨w, hvw, hw, -⟩ := run_tap (A := A) hrow.ended hrow.app pos false
  have hdown : (down (ε := ε) pos).OnScreen := hon
  have hup : (up (ε := ε) pos false).OnScreen := hon
  have hreach : Reaches A v w :=
    ⟨_, List.forall_mem_cons.2 ⟨hdown, List.forall_mem_singleton.2 hup⟩, hvw⟩
  obtain ⟨ls', hls', hrun'⟩ := ((hst.trans htu).trans huv).trans hreach
  refine ⟨ls', w, hls', hrun', ?_⟩
  rw [hw, tapTarget, hrow.recent, if_neg (by decide), if_pos hrow.app, getTappedApp_card hi hhit]

theorem exists_run_open_encoder :
    ∃ ls t, (∀ l ∈ ls, l.OnScreen) ∧ (launcher (idle (ε := Unit))).run (init ()) ls = some t ∧
      t.currentApp = some .encoder :=
  exists_run_open (fun _ _ _ ↦ rfl) ⟨init (), [], ⟨(), rfl⟩, rfl⟩ rfl .encoder

end JuliusOS.Launcher
