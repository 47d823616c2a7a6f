import JuliusOS.Ui.PanelMoves

/-!
# The notification panel's arithmetic

With more than four entries the panel draws a scroll bar, whose place is a quotient by what does
not fit in the panel. The panel is at most 360 high and an entry is 72, so five entries fit exactly
and the frame ends in a division by zero; with any other number the bar is drawn inside the panel,
below its header (`panelSound_iff`). Nothing in the program scrolls the panel
(`scroll_of_reachable`), so this is so in every state of every run (`panelSound_iff_of_reachable`).
-/

namespace JuliusOS.Ui

namespace NotificationCenter

variable {s t : NotificationCenter} {clearWidth : Int}

/-- The scroll bar of a panel that is drawn at `py`: its upper end `sb_y` and its height `sb_h`. -/
def scrollBar (s : NotificationCenter) (py : Int) : Int × Int :=
  let sbH := s.panelH * s.panelH / (s.notifs.length * 72)
  (py + 40 + (s.scroll * (s.panelH - sbH)).tdiv (s.notifs.length * 72 - s.panelH), sbH)

/-- The bar lies within the panel, below the line under the header. -/
def BarInside (s : NotificationCenter) (py : Int) : Prop :=
  py + 40 ≤ (s.scrollBar py).1 ∧ (s.scrollBar py).1 + (s.scrollBar py).2 ≤ py + s.panelH

/-- A frame of the panel divides by no zero, and the scroll bar it draws is inside. -/
def PanelSound (s : NotificationCenter) : Prop :=
  ∀ clearWidth, ∃ t, s.draw clearWidth = some t ∧
    (s.visible = true → s.notifs.length > 4 → s.BarInside (t.yOffset + 36))

/-! ### Heights -/

theorem panelH_of_four_lt (hlen : 4 < s.notifs.length) : s.panelH = 360 :=
  min_eq_left (by omega)

/-- With more than four entries the list is higher than the panel, unless there are five. -/
theorem divisor_eq_zero_iff (hlen : 4 < s.notifs.length) :
    (s.notifs.length * 72 - s.panelH : Int) = 0 ↔ s.notifs.length = 5 := by
  rw [panelH_of_four_lt hlen]
  omega

/-- A panel that is not scrolled has its bar at the top, and the bar is not higher than what is
below the header. -/
theorem barInside_of_scroll (hscroll : s.scroll = 0) (hlen : 5 < s.notifs.length) (py : Int) :
    s.BarInside py := by
  have hpanel : s.panelH = 360 := panelH_of_four_lt (Nat.lt_of_succ_lt hlen)
  have hheight : (360 * 360 : Int) / (s.notifs.length * 72) ≤ 300 :=
    Int.ediv_le_of_le_mul (by omega) (by omega)
  have hplace : (s.scrollBar py).1 = py + 40 := by
    rw [scrollBar, hscroll]
    dsimp only
    rw [Int.zero_mul, Int.zero_tdiv, Int.add_zero]
  have hsize : (s.scrollBar py).2 = 360 * 360 / (s.notifs.length * 72) := by
    rw [scrollBar, hpanel]
  refine ⟨hplace.ge, ?_⟩
  rw [hplace, hsize, hpanel]
  omega

/-! ### Frames of the panel -/

/-- **A frame fails exactly on five entries.** -/
theorem draw_eq_none_iff :
    s.draw clearWidth = none ↔ s.visible = true ∧ s.notifs.length = 5 := by
  unfold draw
  cases hvis : s.visible with
  | false => simp
  | true =>
    by_cases hlen : 4 < s.notifs.length
    · have hne : s.notifs.isEmpty = false := by
        rw [List.isEmpty_eq_false_iff, ← List.length_pos_iff]
        exact Nat.zero_lt_of_lt hlen
      simp [hne, hlen, divisor_eq_zero_iff hlen]
    · have hne : s.notifs.length ≠ 5 := by omega
      simp only [Bool.not_true, Bool.false_eq_true, if_false, hlen, decide_false, Bool.false_and,
        hne, and_false, iff_false]
      split_ifs <;> simp

/-- A frame changes nothing that the next frames are drawn from but the animation. -/
theorem draw_frame (h : s.draw clearWidth = some t) :
    t.visible = s.visible ∧ t.notifs = s.notifs ∧ t.scroll = s.scroll := by
  unfold draw at h
  split at h
  · cases h
    exact ⟨rfl, rfl, rfl⟩
  · dsimp only at h
    split_ifs at h <;> cases h <;> exact ⟨rfl, rfl, rfl⟩

/-- **The frames of a panel that is not scrolled are sound unless it has five entries.** -/
theorem panelSound_iff (hscroll : s.scroll = 0) :
    s.PanelSound ↔ s.visible = false ∨ s.notifs.length ≠ 5 := by
  have hfails (w : Int) : s.draw w ≠ none ↔ s.visible = false ∨ s.notifs.length ≠ 5 := by
    rw [Ne, draw_eq_none_iff, not_and_or, Bool.not_eq_true]
  constructor
  · intro hsound
    obtain ⟨t, hdraw, -⟩ := hsound 0
    exact (hfails 0).1 (by rw [hdraw]; exact Option.some_ne_none t)
  · intro hok clearWidth
    obtain ⟨t, hdraw⟩ := Option.ne_none_iff_exists'.1 ((hfails clearWidth).2 hok)
    refine ⟨t, hdraw, fun hvis hlen ↦ barInside_of_scroll hscroll ?_ _⟩
    have hfive : s.notifs.length ≠ 5 := hok.resolve_left (by rw [hvis]; decide)
    omega

theorem handleTouch_scroll (pos : Pos) : (s.handleTouch pos).scroll = s.scroll := by
  unfold handleTouch
  split_ifs <;> first | rfl | (split <;> rfl)

end NotificationCenter

/-! ### Nothing scrolls the panel -/

/-- **No step of the panels scrolls the Notification Center.** -/
theorem Panels.step_scroll {w w' : Panels} {e : PanelEvent} (h : w.step e = some w') :
    w'.notifCenter.scroll = w.notifCenter.scroll := by
  cases e with
  | settings e =>
    obtain ⟨t, -, rfl⟩ := Option.map_eq_some_iff.1 h
    rfl
  | frameNotif clearWidth =>
    obtain ⟨n, hdraw, rfl⟩ := Option.map_eq_some_iff.1 h
    exact (NotificationCenter.draw_frame hdraw).2.2
  | touchNotif pos =>
    cases h
    exact NotificationCenter.handleTouch_scroll pos
  | showNotif | hideNotif =>
    cases h
    rfl

theorem scroll_of_reachable {P : PyText} {s : UI} (h : (ui P).Reachable s) :
    s.notifCenter.scroll = 0 := by
  have hzero : s.panels.notifCenter.scroll = 0 := by
    refine (UI.panels_reachable h).induction (I := fun w ↦ w.notifCenter.scroll = 0) ?_ ?_
    · rintro w ⟨cfg, notifs, rfl⟩
      rfl
    · intro w e w' hw hstep
      exact (Panels.step_scroll hstep).trans hw
  exact hzero

/-! ### Every run -/

/-- **In every state of every run the panel's next frame is sound exactly if the panel is hidden or
does not have five entries.** -/
theorem panelSound_iff_of_reachable (P : PyText) {s : UI} (h : (ui P).Reachable s) :
    s.notifCenter.PanelSound ↔
      s.notifCenter.visible = false ∨ s.notifCenter.notifs.length ≠ 5 :=
  NotificationCenter.panelSound_iff (scroll_of_reachable h)

/-- Unlocked, the panel is swiped down. -/
def swipeDownPanel : List Input := swipeLeft ++ swipeLeft ++ swipe ⟨160, 20⟩ ⟨160, 200⟩

/-- The UI with `n` entries, after the panel is swiped down. -/
def openedPanel (n : Nat) : Option UI :=
  (ui asciiText).run
    (boot DEFAULT_SETTINGS (List.replicate n ⟨"WiFi", "Connected", "Connected to home", false⟩))
    swipeDownPanel

/-- Six entries are drawn with a bar inside. -/
theorem panelSound_six : ∃ s, (ui asciiText).Reachable s ∧ s.notifCenter.visible = true ∧
    s.notifCenter.notifs.length = 6 ∧ s.notifCenter.PanelSound := by
  have hend : (openedPanel 6).map (fun s ↦ (s.notifCenter.visible, s.notifCenter.notifs.length)) =
      some (true, 6) := by
    decide +kernel
  obtain ⟨s, hrun, hend⟩ := Option.map_eq_some_iff.1 hend
  obtain ⟨hvis, hlen⟩ := Prod.mk.inj hend
  have hreach : (ui asciiText).Reachable s := ⟨_, _, ⟨_, _, rfl⟩, hrun⟩
  exact ⟨s, hreach, hvis, hlen,
    (panelSound_iff_of_reachable asciiText hreach).2 (.inr (by rw [hlen]; decide))⟩

/-- Of five entries the next frame does not draw the bar: the loop ends there. -/
theorem not_panelSound_five : ∃ s, (ui asciiText).Reachable s ∧ ¬ s.notifCenter.PanelSound ∧
    ∀ v, (ui asciiText).step s (.frame v) = none := by
  have hend : (openedPanel 5).map (fun s ↦
      (s.notifCenter.visible, s.notifCenter.notifs.length, s.state, s.drawn)) =
      some (true, 5, .home, [.notif]) := by
    decide +kernel
  obtain ⟨s, hrun, hend⟩ := Option.map_eq_some_iff.1 hend
  obtain ⟨hvis, hend⟩ := Prod.mk.inj hend
  obtain ⟨hlen, hend⟩ := Prod.mk.inj hend
  obtain ⟨hstate, hdrawn⟩ := Prod.mk.inj hend
  have hfails (w : Int) : s.notifCenter.draw w = none :=
    NotificationCenter.draw_eq_none_iff.2 ⟨hvis, hlen⟩
  refine ⟨s, ⟨_, _, ⟨_, _, rfl⟩, hrun⟩, fun hsound ↦ ?_, fun v ↦ ?_⟩
  · obtain ⟨t, hdraw, -⟩ := hsound 0
    rw [hfails] at hdraw
    cases hdraw
  · show s.frame v = none
    have hscreen : s.drawScreen = some s := by rw [UI.drawScreen, hstate]
    rw [UI.frame, hscreen, Option.bind_some, hdrawn, List.foldlM_cons, UI.drawOverlay, hfails]
    rfl

end JuliusOS.Ui
