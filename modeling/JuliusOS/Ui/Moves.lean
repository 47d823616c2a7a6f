import JuliusOS.Ui.Loop

/-!
# What one input can do to the screens

Of the forty branches of the main loop, those that matter to which screen is shown and who is
handed the next input do one of ten things. `Control` is the part of the UI they do it to, and
`Moves` lists them with the guards under which the loop takes them (`step_moves`); every result
about screens and overlays is a case analysis of `Moves` and none unfolds the loop again.
-/

namespace JuliusOS.Ui

/-- The variables that decide which screen is shown and who is handed the input. -/
@[ext] structure Control where
  state : ScreenState
  swipeCount : Nat
  currentApp : Option String
  shown : Overlay → Bool
  spotlightVisible : Bool

namespace Control

variable (c : Control)

def setShown (o : Overlay) (b : Bool) : Control :=
  { c with shown := Function.update c.shown o b }

/-- The overlay that an app is, for the three apps that are one. -/
def overlayOf (name : String) : Option Overlay :=
  if name = "AI" then some .ai
  else if name = "Drop" then some .drop
  else if name = "Cloud" then some .cloud
  else none

/-- Opening an app: a screen, an overlay or an app of its own. -/
def openApp (name : String) : Control :=
  if name = "Settings" then { c with state := .settings }
  else
    match overlayOf name with
    | some o => c.setShown o true
    | none => if name ∈ appInstances then { c with currentApp := some name, state := .app } else c

@[simp] theorem setShown_state (o : Overlay) (b : Bool) : (c.setShown o b).state = c.state := rfl

@[simp] theorem setShown_swipeCount (o : Overlay) (b : Bool) :
    (c.setShown o b).swipeCount = c.swipeCount := rfl

@[simp] theorem setShown_currentApp (o : Overlay) (b : Bool) :
    (c.setShown o b).currentApp = c.currentApp := rfl

@[simp] theorem setShown_spotlightVisible (o : Overlay) (b : Bool) :
    (c.setShown o b).spotlightVisible = c.spotlightVisible := rfl

@[simp] theorem setShown_shown (o : Overlay) (b : Bool) :
    (c.setShown o b).shown = Function.update c.shown o b := rfl

/-- Clearing a flag sets none. -/
theorem shown_of_setShown_false {o o' : Overlay} (h : (c.setShown o false).shown o' = true) :
    o' ≠ o ∧ c.shown o' = true := by
  rcases eq_or_ne o' o with rfl | hne
  · rw [setShown_shown, Function.update_self] at h
    exact absurd h (by decide)
  · rw [setShown_shown, Function.update_of_ne hne] at h
    exact ⟨hne, h⟩

/-- Setting a flag sets no other. -/
theorem shown_of_setShown_true {o o' : Overlay} (h : (c.setShown o true).shown o' = true) :
    o' = o ∨ c.shown o' = true := by
  rcases eq_or_ne o' o with rfl | hne
  · exact Or.inl rfl
  · rw [setShown_shown, Function.update_of_ne hne] at h
    exact Or.inr h

/-- What opening an app can do. -/
theorem openApp_cases (name : String) :
    c.openApp name = c ∨ c.openApp name = { c with state := .settings } ∨
      (∃ o, overlayOf name = some o ∧ c.openApp name = c.setShown o true) ∨
      (name ∈ appInstances ∧
        c.openApp name = { c with currentApp := some name, state := .app }) := by
  unfold openApp
  split
  · exact Or.inr (Or.inl rfl)
  · rcases ho : overlayOf name with - | o
    · by_cases hmem : name ∈ appInstances
      · exact Or.inr (Or.inr (Or.inr ⟨hmem, if_pos hmem⟩))
      · exact Or.inl (if_neg hmem)
    · exact Or.inr (Or.inr (Or.inl ⟨o, rfl, rfl⟩))

/-- The apps that are overlays are none of those that open apps. -/
theorem overlayOf_not_mem {name : String} {o : Overlay} (h : overlayOf name = some o) :
    o ∉ [Overlay.switcher, .folder, .spotlight] := by
  unfold overlayOf at h
  split at h
  · cases h
    decide
  · split at h
    · cases h
      decide
    · split at h
      · cases h
        decide
      · cases h

/-- An overlay that opens an app may as well close first. -/
theorem openApp_setShown {o : Overlay} (ho : o ∈ [Overlay.switcher, .folder, .spotlight])
    (b : Bool) (name : String) :
    (c.openApp name).setShown o b = (c.setShown o b).openApp name := by
  unfold openApp
  split
  · rfl
  · rcases hover : overlayOf name with - | o'
    · dsimp only
      split <;> rfl
    · have hne : o' ≠ o := fun he ↦ overlayOf_not_mem hover (he ▸ ho)
      exact congrArg (fun f ↦ { c with shown := f }) (Function.update_comm hne true b c.shown)

end Control

namespace UI

variable {P : PyText} {s s' : UI} {l : Input}

/-- The screens and overlays of the UI. -/
def control (s : UI) : Control :=
  ⟨s.state, s.swipeCount, s.currentApp, s.shown, s.spotlightSys.visible⟩

/-! ### The inputs the guards speak of -/

/-- The gesture that a release ends, where one was begun. -/
def gestureOf (s : UI) : Input → Option Gesture
  | .mouseUp pos now _ => s.touchStart.map fun start ↦ gesture start s.touchTime pos now
  | _ => none

/-- The input is a left swipe that the lock screen handles. -/
def SwipesLock (s : UI) (l : Input) : Prop :=
  s.state = .lock ∧ s.touchTarget = none ∧ (s.gestureOf l).map Gesture.isSwipeLeft = some true

instance (s : UI) (l : Input) : Decidable (s.SwipesLock l) :=
  inferInstanceAs (Decidable (_ ∧ _ ∧ _))

/-- The input is the escape key, and the loop's escape chain falls through to the home screen,
which it locks: Spotlight, the assistant and the overlays of `escapeOrder` are not open. -/
def EscapesHome (s : UI) (l : Input) : Prop :=
  s.state = .home ∧ s.shown .spotlight = false ∧ s.shown .ai = false ∧
    escapeOrder.find? s.shown = none ∧ ∃ u, l = .keyDown ⟨.escape, u⟩

/-- The input is a release that is handed to a visible Spotlight, hits no result that it drew and
lies outside its box and results. -/
def DismissesSpotlight (s : UI) (l : Input) : Prop :=
  s.touchTarget = some .spotlight ∧ s.spotlightSys.visible = true ∧
    ∃ pos now spawns, l = .mouseUp pos now spawns ∧ s.touchStart.isSome = true ∧
      s.spotlightSys.touched pos = none ∧ s.spotlightSys.outside pos = true

/-- **What an input can do to the screens.** -/
inductive Moves (s : UI) (l : Input) : Control → Prop
  /-- Nothing. -/
  | stays : Moves s l s.control
  /-- An open overlay closes. -/
  | hides (o : Overlay) (v : Bool) (ho : s.shown o = true)
      (hvis : o = .spotlight → s.spotlightSys.visible = true)
      (hv : o ≠ .spotlight → v = s.spotlightSys.visible) :
      Moves s l { s.control.setShown o false with spotlightVisible := v }
  /-- A tap on the home screen opens an app. -/
  | opens (name : String) (hstate : s.state = .home) (hnone : s.touchTarget = none) :
      Moves s l (s.control.openApp name)
  /-- The switcher, a folder or Spotlight opens an app and closes. -/
  | launches (o : Overlay) (name : String) (ho : s.shown o = true)
      (hmem : o ∈ [Overlay.switcher, .folder, .spotlight])
      (hvis : o = .spotlight → s.spotlightSys.visible = true) :
      Moves s l ((s.control.openApp name).setShown o false)
  /-- Spotlight hides itself, its flag stays. -/
  | dismisses (h : DismissesSpotlight s l) : Moves s l { s.control with spotlightVisible := false }
  /-- A first left swipe on the lock screen. -/
  | swipes (h : SwipesLock s l) (hcount : s.swipeCount + 1 < 2) :
      Moves s l { s.control with swipeCount := s.swipeCount + 1 }
  /-- A further one. -/
  | unlocks (h : SwipesLock s l) (hcount : 2 ≤ s.swipeCount + 1) :
      Moves s l { s.control with state := .home, swipeCount := 0 }
  /-- A swipe on the home screen opens an overlay. -/
  | shows (o : Overlay) (v : Bool) (hstate : s.state = .home) (hnone : s.touchTarget = none)
      (hmem : o ∈ [Overlay.notif, .cc, .switcher, .spotlight])
      (hv : v = true ∨ o ≠ .spotlight ∧ v = s.spotlightSys.visible) :
      Moves s l { s.control.setShown o true with spotlightVisible := v }
  /-- A swipe or the escape key locks the home screen. -/
  | locks (hstate : s.state = .home) (h : s.touchTarget = none ∨ EscapesHome s l) :
      Moves s l { s.control with state := .lock, swipeCount := 0 }
  /-- An app is left for the home screen. -/
  | leavesApp (hstate : s.state = .app) :
      Moves s l { s.control with state := .home, currentApp := none }
  /-- The settings are left for the home screen. -/
  | leavesSettings (hstate : s.state = .settings) : Moves s l { s.control with state := .home }

/-! ### The functions of the loop, one by one -/

theorem openApp_control (s : UI) (name : String) :
    (s.openApp name).control = s.control.openApp name := by
  unfold openApp Control.openApp Control.overlayOf
  split
  · rfl
  · split
    · rfl
    · split
      · rfl
      · split
        · rfl
        · split <;> rfl

theorem shown_of_touchTarget {o : Overlay} (h : s.touchTarget = some o) : s.shown o = true :=
  List.find?_some h

theorem mem_touchOrder (o : Overlay) : o ∈ touchOrder := by
  cases o <;> decide

/-- A release reaches the screen only if no overlay is open. -/
theorem touchTarget_eq_none_iff : s.touchTarget = none ↔ ∀ o, s.shown o = false := by
  unfold touchTarget
  rw [List.find?_eq_none]
  constructor
  · intro h o
    exact Bool.eq_false_iff.2 (h o (mem_touchOrder o))
  · intro h o _
    rw [h o]
    decide

@[simp] theorem setShown_control (s : UI) (o : Overlay) (b : Bool) :
    (s.setShown o b).control = s.control.setShown o b := rfl

/-- The move of an overlay other than Spotlight that closes. -/
theorem hides_of_ne {o : Overlay} (ho : s.shown o = true) (hne : o ≠ .spotlight) :
    Moves s l (s.control.setShown o false) :=
  .hides o s.spotlightSys.visible ho (fun h ↦ absurd h hne) fun _ ↦ rfl

/-- The move of an overlay that has opened an app, whatever else its handler has changed. -/
theorem launches_of_control_eq {t : UI} {o : Overlay} (ho : s.shown o = true)
    (hmem : o ∈ [Overlay.switcher, .folder, .spotlight])
    (hvis : o = .spotlight → s.spotlightSys.visible = true) (ht : t.control = s.control)
    (name : String) : Moves s l ((t.openApp name).setShown o false).control := by
  rw [setShown_control, openApp_control, ht]
  exact .launches o name ho hmem hvis

/-- With nothing open, a release is the screen's. -/
theorem release_of_flags (h : ∀ o, s.shown o = false) (g : Gesture) (pos : Pos)
    (spawns : Bool) : s.release P g pos spawns = some (s.releaseScreen g pos) := by
  rw [release, touchTarget_eq_none_iff.2 h]

/-- With nothing open, the escape key is the screen's. -/
theorem keyDown_escape_of_flags (h : ∀ o, s.shown o = false) (u : String) :
    s.keyDown P ⟨.escape, u⟩ = some s.escapeScreen := by
  have hchain : escapeOrder.find? s.shown = none :=
    List.find?_eq_none.2 fun o _ ↦ Bool.eq_false_iff.1 (h o)
  rw [keyDown, if_neg (Bool.eq_false_iff.1 (h .spotlight)), if_neg (Bool.eq_false_iff.1 (h .ai)),
    if_pos rfl, hchain]

theorem releaseSwitcher_moves {g : Gesture} {pos : Pos} (ht : s.touchTarget = some .switcher)
    (h : s.releaseSwitcher g pos = some s') : Moves s l s'.control := by
  have ho := shown_of_touchTarget ht
  obtain ⟨⟨sw, res⟩, -, rfl⟩ := Option.map_eq_some_iff.1 h
  dsimp only
  split
  · exact hides_of_ne ho (by decide)
  · split
    · exact launches_of_control_eq (t := { s with appSwitcher := sw }) ho (by decide) (by simp)
        rfl _
    · exact .stays

theorem releaseFolder_moves {g : Gesture} {pos : Pos} (ht : s.touchTarget = some .folder) :
    Moves s l (s.releaseFolder g pos).control := by
  have ho := shown_of_touchTarget ht
  unfold releaseFolder
  dsimp only
  split
  · exact hides_of_ne ho (by decide)
  · exact launches_of_control_eq
      (t := { s with folderMgr := (s.folderMgr.handleTouch pos g.isSwipeDown).1 })
      ho (by decide) (by simp) rfl _
  · exact .stays

theorem releaseCc_moves {g : Gesture} {pos : Pos} {spawns : Bool}
    (ht : s.touchTarget = some .cc) (h : s.releaseCc g pos spawns = some s') :
    Moves s l s'.control := by
  obtain ⟨r, -, rfl⟩ := Option.map_eq_some_iff.1 h
  dsimp only
  split
  · exact hides_of_ne (shown_of_touchTarget ht) (by decide)
  · exact .stays

theorem releaseNotif_moves {g : Gesture} {pos : Pos} (ht : s.touchTarget = some .notif) :
    Moves s l (s.releaseNotif g pos).control := by
  unfold releaseNotif
  dsimp only
  split
  · exact hides_of_ne (shown_of_touchTarget ht) (by decide)
  · exact .stays

theorem releaseAi_moves {g : Gesture} {pos : Pos} (ht : s.touchTarget = some .ai) :
    Moves s l (s.releaseAi P g pos).control := by
  unfold releaseAi
  dsimp only
  split
  · exact hides_of_ne (shown_of_touchTarget ht) (by decide)
  · exact .stays

theorem releaseDrop_moves {g : Gesture} (ht : s.touchTarget = some .drop) :
    Moves s l (s.releaseDrop g).control := by
  unfold releaseDrop
  split
  · exact hides_of_ne (shown_of_touchTarget ht) (by decide)
  · exact .stays

theorem releaseCloud_moves {g : Gesture} (ht : s.touchTarget = some .cloud) :
    Moves s l (s.releaseCloud g).control := by
  unfold releaseCloud
  split
  · exact hides_of_ne (shown_of_touchTarget ht) (by decide)
  · exact .stays

/-- A reply of Spotlight that does not hide it opens an app or nothing. -/
theorem spotlightReplied_moves {sp : Spotlight} {res : Option SpotlightReply}
    (ho : s.shown .spotlight = true) (hv : sp.visible = s.spotlightSys.visible)
    (hres : res ≠ some .hide) (hvis : res ≠ none → s.spotlightSys.visible = true) :
    Moves s l (UI.spotlightReplied { s with spotlightSys := sp } res).control := by
  have hctl : UI.control { s with spotlightSys := sp } = s.control := by
    unfold control
    rw [hv]
  unfold spotlightReplied
  rcases res with - | - | res
  · exact hctl ▸ .stays
  · exact absurd rfl hres
  · dsimp only
    split
    · exact launches_of_control_eq ho (by decide) (fun _ ↦ hvis (by simp)) hctl _
    · exact hctl ▸ .stays

/-- Spotlight's touch handler never says that it hides. -/
theorem releaseSpotlight_moves {pos : Pos} {now : Int} {spawns : Bool}
    (ht : s.touchTarget = some .spotlight) (hstart : s.touchStart.isSome = true) :
    Moves s (.mouseUp pos now spawns) (s.releaseSpotlight pos).control := by
  have ho := shown_of_touchTarget ht
  unfold releaseSpotlight Spotlight.handleTouch
  dsimp only
  split
  · exact spotlightReplied_moves ho rfl (by simp) (by simp)
  · rename_i hvis
    have hvis : s.spotlightSys.visible = true := by simpa using hvis
    split
    · exact spotlightReplied_moves ho rfl (by simp) fun _ ↦ hvis
    · rename_i htouched
      split
      · rename_i hout
        exact .dismisses ⟨ht, hvis, pos, now, spawns, rfl, hstart, htouched, hout⟩
      · exact spotlightReplied_moves ho rfl (by simp) fun _ ↦ hvis

theorem releaseLock_moves {g : Gesture} (hstate : s.state = .lock)
    (ht : s.touchTarget = none) (hg : s.gestureOf l = some g) :
    Moves s l (s.releaseLock g).control := by
  unfold releaseLock
  split
  · rename_i hleft
    have hswipe : SwipesLock s l := ⟨hstate, ht, by rw [hg, Option.map_some, hleft]⟩
    split
    · rename_i hcount
      exact .unlocks hswipe hcount
    · rename_i hcount
      exact .swipes hswipe (by omega)
  · exact .stays

theorem releaseHome_moves {g : Gesture} {pos : Pos} (hstate : s.state = .home)
    (ht : s.touchTarget = none) : Moves s l (s.releaseHome g pos).control := by
  unfold releaseHome
  split
  · exact .shows .notif s.spotlightSys.visible hstate ht (by decide) (.inr ⟨by decide, rfl⟩)
  split
  · exact .shows .cc s.spotlightSys.visible hstate ht (by decide) (.inr ⟨by decide, rfl⟩)
  split
  · exact .shows .switcher s.spotlightSys.visible hstate ht (by decide) (.inr ⟨by decide, rfl⟩)
  split
  · exact .shows .spotlight true hstate ht (by decide) (.inl rfl)
  split
  · exact .locks hstate (.inl ht)
  split
  · exact .stays
  split
  · exact .stays
  split
  · split
    · rw [openApp_control]
      exact .opens _ hstate ht
    · exact .stays
  · exact .stays

theorem releaseApp_moves {g : Gesture} (hstate : s.state = .app) :
    Moves s l (s.releaseApp g).control := by
  unfold releaseApp
  split
  · exact .leavesApp hstate
  · exact .stays

theorem releaseSettings_moves {g : Gesture} {pos : Pos} (hstate : s.state = .settings) :
    Moves s l (s.releaseSettings g pos).control := by
  unfold releaseSettings
  split
  · exact .leavesSettings hstate
  · split
    · exact .stays
    · split <;> exact .stays

theorem releaseScreen_moves {g : Gesture} {pos : Pos} (ht : s.touchTarget = none)
    (hg : s.gestureOf l = some g) : Moves s l (s.releaseScreen g pos).control := by
  unfold releaseScreen
  rcases hstate : s.state with - | - | - | -
  · exact releaseLock_moves hstate ht hg
  · exact releaseHome_moves hstate ht
  · exact releaseApp_moves hstate
  · exact releaseSettings_moves hstate

theorem mouseUp_moves {pos : Pos} {now : Int} {spawns : Bool}
    (h : s.mouseUp P pos now spawns = some s') :
    Moves s (.mouseUp pos now spawns) s'.control := by
  unfold mouseUp at h
  rcases hstart : s.touchStart with - | start
  · rw [hstart] at h
    cases h
    exact .stays
  · rw [hstart] at h
    obtain ⟨t, ht, rfl⟩ := Option.map_eq_some_iff.1 h
    have hg : s.gestureOf (.mouseUp pos now spawns) =
        some (gesture start s.touchTime pos now) := by
      rw [gestureOf, hstart, Option.map_some]
    change Moves s (.mouseUp pos now spawns) t.control
    unfold release at ht
    rcases htarget : s.touchTarget with - | o
    · rw [htarget] at ht
      cases ht
      exact releaseScreen_moves htarget hg
    · rw [htarget] at ht
      cases o with
      | switcher => exact releaseSwitcher_moves htarget ht
      | cc => exact releaseCc_moves htarget ht
      | folder =>
        cases ht
        exact releaseFolder_moves htarget
      | notif =>
        cases ht
        exact releaseNotif_moves htarget
      | spotlight =>
        cases ht
        exact releaseSpotlight_moves htarget (by rw [hstart]; rfl)
      | ai =>
        cases ht
        exact releaseAi_moves htarget
      | drop =>
        cases ht
        exact releaseDrop_moves htarget
      | cloud =>
        cases ht
        exact releaseCloud_moves htarget

/-- Spotlight's key handler hides it and says so, or keeps it as visible as it was. -/
theorem handleKey_cases {sp sp' : Spotlight} {event : KeyEvent} {res : Option SpotlightReply}
    (h : sp.handleKey P event = some (sp', res)) :
    res = some .hide ∧ sp.visible = true ∨
      sp'.visible = sp.visible ∧ res ≠ some .hide ∧ (res ≠ none → sp.visible = true) := by
  unfold Spotlight.handleKey at h
  split at h
  · cases h
    exact .inr ⟨rfl, by decide, fun h ↦ absurd rfl h⟩
  · rename_i hvis
    have hvis : sp.visible = true := by simpa using hvis
    split at h
    · cases h
      exact .inl ⟨rfl, hvis⟩
    · cases h
      exact .inr ⟨rfl, by decide, fun _ ↦ hvis⟩
    · split at h
      · obtain ⟨r, -, hr⟩ := Option.map_eq_some_iff.1 h
        cases hr
        exact .inr ⟨rfl, by simp, fun _ ↦ hvis⟩
      · cases h
        exact .inr ⟨rfl, by decide, fun _ ↦ hvis⟩
    · cases h
      exact .inr ⟨rfl, by decide, fun _ ↦ hvis⟩
    · cases h
      exact .inr ⟨rfl, by decide, fun _ ↦ hvis⟩
    · split at h
      · cases h
        exact .inr ⟨rfl, by decide, fun _ ↦ hvis⟩
      · cases h
        exact .inr ⟨rfl, by decide, fun _ ↦ hvis⟩

theorem escapeOverlay_control (s : UI) (o : Overlay) :
    (s.escapeOverlay o).control = s.control.setShown o false := by
  cases o <;> rfl

theorem escapeScreen_moves (h : s.state = .home → EscapesHome s l) :
    Moves s l s.escapeScreen.control := by
  unfold escapeScreen
  split
  · rename_i hstate
    exact .leavesApp hstate
  · rename_i hstate
    exact .leavesSettings hstate
  · rename_i hstate
    exact .locks hstate (.inr (h hstate))
  · exact .stays

theorem keyDown_moves {event : KeyEvent} (h : s.keyDown P event = some s') :
    Moves s (.keyDown event) s'.control := by
  unfold keyDown at h
  split at h
  · rename_i ho
    obtain ⟨⟨sp, res⟩, hkey, rfl⟩ := Option.map_eq_some_iff.1 h
    rcases handleKey_cases hkey with ⟨rfl, hvis⟩ | ⟨hv, hres, hvis⟩
    · exact .hides .spotlight sp.visible ho (fun _ ↦ hvis) fun hne ↦ absurd rfl hne
    · exact spotlightReplied_moves ho hv hres hvis
  rename_i hspot
  split at h
  · rename_i ho
    cases h
    split
    · exact hides_of_ne ho (by decide)
    · exact .stays
  rename_i hai
  split at h
  · rename_i hesc
    split at h
    · rename_i o ho
      cases h
      rw [escapeOverlay_control]
      refine hides_of_ne (List.find?_some ho) ?_
      rintro rfl
      exact absurd (List.mem_of_find?_eq_some ho) (by decide)
    · rename_i hnone
      cases h
      refine escapeScreen_moves fun hstate ↦
        ⟨hstate, by simpa using hspot, by simpa using hai, hnone, event.unicode, ?_⟩
      rw [← hesc]
  · cases h
    exact .stays

/-! ### Frames -/

/-- What a frame and a reply of the assistant leave as it is. -/
structure Quiet (s s' : UI) : Prop where
  control : s'.control = s.control
  touchStart : s'.touchStart = s.touchStart
  touchTime : s'.touchTime = s.touchTime

theorem Quiet.trans {s₁ s₂ s₃ : UI} (h : Quiet s₁ s₂) (h' : Quiet s₂ s₃) : Quiet s₁ s₃ :=
  ⟨h'.1.trans h.1, h'.2.trans h.2, h'.3.trans h.3⟩

theorem draw_visible (sp : Spotlight) : sp.draw.visible = sp.visible := by
  unfold Spotlight.draw
  split
  · rfl
  · split <;> rfl

theorem drawOverlay_quiet {v : FrameEnv} {o : Overlay} (h : s.drawOverlay v o = some s') :
    Quiet s s' := by
  cases o with
  | notif =>
    obtain ⟨n, -, rfl⟩ := Option.map_eq_some_iff.1 h
    exact ⟨rfl, rfl, rfl⟩
  | cc =>
    obtain ⟨n, -, rfl⟩ := Option.map_eq_some_iff.1 h
    exact ⟨rfl, rfl, rfl⟩
  | spotlight =>
    cases h
    refine ⟨?_, rfl, rfl⟩
    unfold UI.control
    rw [draw_visible]
  | ai | drop | cloud | switcher | folder =>
    cases h
    exact ⟨rfl, rfl, rfl⟩

theorem frame_quiet {v : FrameEnv} (h : s.frame v = some s') : Quiet s s' := by
  refine frame_of_draws (I := Quiet s) ?_ ?_ h
  · intro t ht
    unfold drawScreen at ht
    split at ht
    · obtain ⟨items, -, rfl⟩ := Option.map_eq_some_iff.1 ht
      exact ⟨rfl, rfl, rfl⟩
    · cases ht
      exact ⟨rfl, rfl, rfl⟩
  · intro t t' o hquiet ht'
    exact hquiet.trans (drawOverlay_quiet ht')

/-- What happens without the user touches neither the screens nor a begun gesture. -/
theorem quiet_of_step (hl : l.isQuiet = true) (h : s.step P l = some s') : Quiet s s' := by
  cases l with
  | frame v => exact frame_quiet h
  | reply answer =>
    cases h
    exact ⟨rfl, rfl, rfl⟩
  | mouseDown | mouseUp | keyDown | mouseWheel => exact absurd hl (by simp [Input.isQuiet])

/-! ### Every input -/

/-- **What one step of the main loop does to the screens is one of `Moves`.** -/
theorem step_moves (h : s.step P l = some s') : Moves s l s'.control := by
  cases l with
  | mouseDown pos now =>
    cases h
    exact .stays
  | mouseUp pos now spawns => exact mouseUp_moves h
  | keyDown event => exact keyDown_moves h
  | mouseWheel y =>
    cases h
    split <;> exact .stays
  | frame v => exact (frame_quiet h).control ▸ .stays
  | reply answer =>
    cases h
    exact .stays

end UI

end JuliusOS.Ui
