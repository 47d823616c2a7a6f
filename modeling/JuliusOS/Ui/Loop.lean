import JuliusOS.Foundations.Machine
import JuliusOS.Ui.Overlays
import JuliusOS.Ui.Panels

/-!
# The UI's main loop

The variables of `julius_ui` and what its main loop does with one event, and with one frame
between two batches of events. Eight `show_*` flags say which overlays are open; they are one
function of the overlay here. A release is handed to the first open overlay in the loop's order
and else to the screen that `state` names, so that order is a list and the hand-over a search.

A step is `none` where the source raises an exception that nothing catches: the loop ends there.
What an app does with an event it is handed stays inside a `try` and changes none of these
variables. Haptics, notifications to the status service and saving the settings are left out.
-/

namespace JuliusOS.Ui

/-- The values of `state`. -/
inductive ScreenState
  | lock
  | home
  | app
  | settings
deriving DecidableEq, Repr

/-- The overlays, one for each `show_*` flag. -/
inductive Overlay
  | cc
  | notif
  | spotlight
  | ai
  | drop
  | cloud
  | switcher
  | folder
deriving DecidableEq, Repr

/-- The order in which a release is offered to the overlays. -/
def touchOrder : List Overlay :=
  [.switcher, .folder, .cc, .notif, .spotlight, .ai, .drop, .cloud]

/-- The overlays that the escape key closes once Spotlight and the assistant are not open. -/
def escapeOrder : List Overlay := [.switcher, .folder, .cc, .notif]

/-- The order in which a frame draws the overlays. -/
def drawOrder : List Overlay :=
  [.notif, .cc, .spotlight, .ai, .drop, .cloud, .switcher, .folder]

/-- The variables of the main loop and the objects it holds. -/
structure UI where
  state : ScreenState
  swipeCount : Nat
  currentApp : Option String
  currentPage : Nat
  touchStart : Option Pos
  touchTime : Int
  settingsScroll : Int
  itemsFlatCache : List (Int × Item)
  /-- The flags `show_cc`, `show_notif` and so on. -/
  shown : Overlay → Bool
  cfg : Cfg
  controlCenter : ControlCenter
  notifCenter : NotificationCenter
  spotlightSys : Spotlight
  juliusAi : JuliusAI
  juliusDrop : JuliusDrop
  juliusCloud : JuliusCloud
  appSwitcher : AppSwitcher
  folderMgr : FolderManager

/-- The UI after the boot animation, with the settings and the notifications it has loaded. -/
def boot (cfg : Cfg) (notifs : List Notif) : UI where
  state := .lock
  swipeCount := 0
  currentApp := none
  currentPage := 0
  touchStart := none
  touchTime := 0
  settingsScroll := 0
  itemsFlatCache := []
  shown := fun _ ↦ false
  cfg := cfg
  controlCenter := .init cfg
  notifCenter := .init notifs
  spotlightSys := .init
  juliusAi := .init
  juliusDrop := ⟨false⟩
  juliusCloud := ⟨false⟩
  appSwitcher := .init
  folderMgr := .init

namespace UI

variable (P : PyText) (s : UI)

/-- `show_o = b`. -/
def setShown (o : Overlay) (b : Bool) : UI := { s with shown := Function.update s.shown o b }

/-! ### Opening an app -/

def openApp (name : String) : UI :=
  if name = "Settings" then { s with state := .settings }
  else if name = "AI" then { s with juliusAi := s.juliusAi.show' }.setShown .ai true
  else if name = "Drop" then { s with juliusDrop := s.juliusDrop.show' }.setShown .drop true
  else if name = "Cloud" then { s with juliusCloud := s.juliusCloud.show' }.setShown .cloud true
  else if name ∈ appInstances then
    { s with
      currentApp := some name
      state := .app
      appSwitcher := s.appSwitcher.addRecent name }
  else s

/-- The app whose icon a tap on the home screen hits: the grid of the current page, then the
dock. -/
def getTappedApp (pos : Pos) : Option String :=
  let pageApps := APPS.filter fun a ↦ a.page == s.currentPage
  let pad : Int := 9
  let iconSize := (W - pad * 5) / 4
  let grid := pageApps.mapIdx fun i a ↦
    ((⟨pad + (i % 4 : Nat) * (iconSize + pad), 132 + (i / 4 : Nat) * (iconSize + 25),
      iconSize, iconSize⟩ : Rect), a.name)
  let dockApps := APPS.filter fun a ↦ decide (a.name ∈ DOCK_NAMES)
  let dsz : Int := 46
  let dpd := (W - 24 - dockApps.length * dsz) / (dockApps.length + 1)
  let dock := dockApps.mapIdx fun i a ↦
    ((⟨12 + dpd * (i + 1) + dsz * i, H - 70 + 7, dsz, 46⟩ : Rect), a.name)
  ((grid ++ dock).find? fun r ↦ r.1.hit pos).map Prod.snd

/-! ### A release on an overlay -/

/-- The app switcher: a downward swipe closes it whatever its handler says. -/
def releaseSwitcher (g : Gesture) (pos : Pos) : Option UI :=
  (s.appSwitcher.handleTouch pos g.isSwipeLeft g.isSwipeRight).map fun r ↦
    let s : UI := { s with appSwitcher := r.1 }
    if g.isSwipeDown then { s with appSwitcher := s.appSwitcher.hide }.setShown .switcher false
    else
      match r.2 with
      | some (.opened name) => (s.openApp name).setShown .switcher false
      | _ => s

def releaseFolder (g : Gesture) (pos : Pos) : UI :=
  let r := s.folderMgr.handleTouch pos g.isSwipeDown
  let s : UI := { s with folderMgr := r.1 }
  match r.2 with
  | some .closed => s.setShown .folder false
  | some (.opened name) => (s.openApp name).setShown .folder false
  | none => s

def releaseCc (g : Gesture) (pos : Pos) (spawns : Bool) : Option UI :=
  (s.controlCenter.handleTouch s.cfg pos spawns).map fun r ↦
    let s : UI := { s with controlCenter := r.1, cfg := r.2 }
    if g.isSwipeDown then { s with controlCenter := s.controlCenter.hide }.setShown .cc false
    else s

def releaseNotif (g : Gesture) (pos : Pos) : UI :=
  let s : UI := { s with notifCenter := s.notifCenter.handleTouch pos }
  if g.isSwipeUp then { s with notifCenter := s.notifCenter.hide }.setShown .notif false else s

/-- What the loop does with Spotlight's reply to a touch or a key. -/
def spotlightReplied (res : Option SpotlightReply) : UI :=
  match res with
  | some .hide => s.setShown .spotlight false
  | some (.result res) =>
    if res.type = .app then (s.openApp res.name).setShown .spotlight false else s
  | none => s

def releaseSpotlight (pos : Pos) : UI :=
  let r := s.spotlightSys.handleTouch pos
  { s with spotlightSys := r.1 }.spotlightReplied r.2

def releaseAi (g : Gesture) (pos : Pos) : UI :=
  let s : UI := { s with juliusAi := s.juliusAi.handleTouch P pos }
  if g.isSwipeRight || g.isSwipeDown then
    { s with juliusAi := s.juliusAi.hide }.setShown .ai false
  else s

def releaseDrop (g : Gesture) : UI :=
  if g.isSwipeRight || g.isSwipeDown then
    { s with juliusDrop := s.juliusDrop.hide }.setShown .drop false
  else s

def releaseCloud (g : Gesture) : UI :=
  if g.isSwipeRight || g.isSwipeDown then
    { s with juliusCloud := s.juliusCloud.hide }.setShown .cloud false
  else s

/-! ### A release on a screen -/

/-- The lock screen counts left swipes; the scan it then starts always succeeds. -/
def releaseLock (g : Gesture) : UI :=
  if g.isSwipeLeft then
    if s.swipeCount + 1 ≥ 2 then { s with state := .home, swipeCount := 0 }
    else { s with swipeCount := s.swipeCount + 1 }
  else s

def releaseHome (g : Gesture) (pos : Pos) : UI :=
  if g.isSwipeDown && g.fromTop then
    { s with notifCenter := s.notifCenter.show' }.setShown .notif true
  else if g.isSwipeUp && g.fromBottom then
    { s with controlCenter := s.controlCenter.show' }.setShown .cc true
  else if g.isSwipeUp && !g.fromBottom && g.held then
    { s with appSwitcher := s.appSwitcher.show' }.setShown .switcher true
  else if g.isSwipeUp && !g.fromBottom then
    { s with spotlightSys := s.spotlightSys.show' }.setShown .spotlight true
  else if g.isSwipeDown && !g.fromTop then { s with state := .lock, swipeCount := 0 }
  else if g.isSwipeLeft && s.currentPage == 0 then { s with currentPage := 1 }
  else if g.isSwipeRight && s.currentPage == 1 then { s with currentPage := 0 }
  else if g.isTap then
    match s.getTappedApp pos with
    | some name => s.openApp name
    | none => s
  else s

/-- A tap goes to the app. -/
def releaseApp (g : Gesture) : UI :=
  if g.isSwipeRight || (g.isSwipeDown && g.fromTop) then
    { s with state := .home, currentApp := none }
  else s

def releaseSettings (g : Gesture) (pos : Pos) : UI :=
  if g.isSwipeRight || g.isSwipeDown then { s with state := .home }
  else if g.isSwipeUp then { s with settingsScroll := min (s.settingsScroll + 40) 500 }
  else if g.isTap then { s with cfg := handleSettingsTap s.cfg pos s.itemsFlatCache }
  else s

def releaseScreen (g : Gesture) (pos : Pos) : UI :=
  match s.state with
  | .lock => s.releaseLock g
  | .home => s.releaseHome g pos
  | .app => s.releaseApp g
  | .settings => s.releaseSettings g pos

/-! ### The events -/

/-- The overlay that a release is handed to; `none` is the screen. -/
def touchTarget : Option Overlay := touchOrder.find? s.shown

/-- What a release does, before `touch_start` is cleared. -/
def release (g : Gesture) (pos : Pos) (spawns : Bool) : Option UI :=
  match s.touchTarget with
  | some .switcher => s.releaseSwitcher g pos
  | some .folder => some (s.releaseFolder g pos)
  | some .cc => s.releaseCc g pos spawns
  | some .notif => some (s.releaseNotif g pos)
  | some .spotlight => some (s.releaseSpotlight pos)
  | some .ai => some (s.releaseAi P g pos)
  | some .drop => some (s.releaseDrop g)
  | some .cloud => some (s.releaseCloud g)
  | none => some (s.releaseScreen g pos)

/-- `MOUSEBUTTONUP`. -/
def mouseUp (pos : Pos) (now : Int) (spawns : Bool) : Option UI :=
  match s.touchStart with
  | none => some s
  | some start =>
    (s.release P (gesture start s.touchTime pos now) pos spawns).map fun s' ↦
      { s' with touchStart := none }

/-- Closes an overlay of `escapeOrder`. -/
def escapeOverlay (o : Overlay) : UI :=
  let s := s.setShown o false
  match o with
  | .switcher => { s with appSwitcher := s.appSwitcher.hide }
  | .folder => { s with folderMgr := s.folderMgr.close }
  | .cc => { s with controlCenter := s.controlCenter.hide }
  | .notif => { s with notifCenter := s.notifCenter.hide }
  | _ => s

/-- The escape key on a screen. -/
def escapeScreen : UI :=
  match s.state with
  | .app => { s with state := .home, currentApp := none }
  | .settings => { s with state := .home }
  | .home => { s with state := .lock, swipeCount := 0 }
  | .lock => s

/-- `KEYDOWN`. A key that is not taken by an overlay and not the escape key is the app's. -/
def keyDown (event : KeyEvent) : Option UI :=
  if s.shown .spotlight then
    (s.spotlightSys.handleKey P event).map fun r ↦
      { s with spotlightSys := r.1 }.spotlightReplied r.2
  else if s.shown .ai then
    let s : UI := { s with juliusAi := s.juliusAi.handleKey P event }
    some (if event.key = .escape then s.setShown .ai false else s)
  else if event.key = .escape then
    match escapeOrder.find? s.shown with
    | some o => some (s.escapeOverlay o)
    | none => some s.escapeScreen
  else some s

/-! ### Frames -/

/-- The overlays that a frame draws. -/
def drawn : List Overlay := drawOrder.filter s.shown

/-- Draws one overlay. -/
def drawOverlay (v : FrameEnv) : Overlay → Option UI
  | .notif => (s.notifCenter.draw v.clearWidth).map fun n ↦ { s with notifCenter := n }
  | .cc => s.controlCenter.draw.map fun c ↦ { s with controlCenter := c }
  | .spotlight => some { s with spotlightSys := s.spotlightSys.draw }
  | .switcher => some { s with appSwitcher := s.appSwitcher.draw v.scrollX }
  | _ => some s

/-- Draws the screen; the settings screen leaves its rows for the next taps. -/
def drawScreen : Option UI :=
  match s.state with
  | .settings =>
    (drawSettings s.cfg s.settingsScroll).map fun items ↦ { s with itemsFlatCache := items }
  | _ => some s

/-- A frame: the screen, then every open overlay. -/
def frame (v : FrameEnv) : Option UI :=
  s.drawScreen.bind fun s' ↦ s'.drawn.foldlM (fun t o ↦ t.drawOverlay v o) s'

variable {s} in
/-- **The rule of frames.** What drawing the screen and drawing an overlay preserve, a frame
preserves. -/
theorem frame_of_draws {I : UI → Prop} {v : FrameEnv} {s' : UI}
    (hscreen : ∀ t, s.drawScreen = some t → I t)
    (hoverlay : ∀ t t' o, I t → t.drawOverlay v o = some t' → I t')
    (h : s.frame v = some s') : I s' := by
  obtain ⟨t, ht, hrest⟩ := Option.bind_eq_some_iff.1 h
  have hfold : ∀ (os : List Overlay) (t : UI), I t →
      os.foldlM (fun t o ↦ t.drawOverlay v o) t = some s' → I s' := by
    intro os
    induction os with
    | nil =>
      intro t ht hrest
      exact Option.some.inj hrest ▸ ht
    | cons o os ih =>
      intro t ht hrest
      rw [List.foldlM_cons] at hrest
      obtain ⟨t', ht', hrest⟩ := Option.bind_eq_some_iff.1 hrest
      exact ih t' (hoverlay t t' o ht ht') hrest
  exact hfold _ t (hscreen t ht) hrest

/-! ### The machine -/

/-- What the main loop does with an input. -/
def step : Input → Option UI
  | .mouseDown pos now => some { s with touchStart := some pos, touchTime := now }
  | .mouseUp pos now spawns => s.mouseUp P pos now spawns
  | .keyDown event => s.keyDown P event
  | .mouseWheel y =>
    some (if s.state = .settings then
      { s with settingsScroll := max 0 (min (s.settingsScroll - y * 20) 500) } else s)
  | .frame v => s.frame v
  | .reply answer => some { s with juliusAi := s.juliusAi.answered answer }

end UI

/-- The main loop from boot on. -/
def ui (P : PyText) : Machine UI Input where
  Init s := ∃ cfg notifs, s = boot cfg notifs
  step s := s.step P

end JuliusOS.Ui
