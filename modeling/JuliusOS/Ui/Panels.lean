import JuliusOS.Ui.Input
import Mathlib.Logic.Function.Basic

/-!
# Settings, Control Center and Notification Center

The settings are a dictionary shared by the settings screen and the Control Center. A panel
computes where its buttons are when it is drawn and looks a touch up in what the last frame
left, which is nothing before the first one; `none` is an exception that nothing catches.
-/

namespace JuliusOS.Ui

/-! ### The settings -/

/-- A value of the settings file. -/
inductive CfgValue
  | bool (b : Bool)
  | int (n : Int)
  | str (s : String)
deriving DecidableEq, Repr

namespace CfgValue

/-- Python's truth value. -/
def truthy : CfgValue → Bool
  | bool b => b
  | int n => n != 0
  | str s => s != ""

/-- `not v`. -/
def negate (v : CfgValue) : CfgValue := .bool (!v.truthy)

/-- `int(w*v/100)` raises a `TypeError` on a text. -/
def isNumber : CfgValue → Bool
  | str _ => false
  | _ => true

end CfgValue

/-- The dictionary `cfg`. -/
abbrev Cfg := String → Option CfgValue

namespace Cfg

def get (cfg : Cfg) (key : String) (default : CfgValue) : CfgValue := (cfg key).getD default

def set (cfg : Cfg) (key : String) (v : CfgValue) : Cfg := Function.update cfg key (some v)

/-- `cfg[key] = not cfg.get(key, default)`. -/
def toggle (cfg : Cfg) (key : String) (default : CfgValue) : Cfg :=
  cfg.set key (cfg.get key default).negate

end Cfg

/-- `DEFAULT_SETTINGS`. -/
def DEFAULT_SETTINGS : Cfg := fun key ↦
  List.lookup key
    [("wifi", .bool true), ("bluetooth", .bool true), ("brightness", .int 100),
      ("volume", .int 80), ("airplane", .bool false), ("dark_mode", .bool true),
      ("notifications", .bool true), ("fingerprint", .bool true), ("ota_enabled", .bool true),
      ("hotspot", .bool false), ("admin_device", .str ""), ("device_name", .str "Julius"),
      ("version", .str "Julius OS v1.3")]

/-! ### The settings screen -/

/-- What a row of the settings screen is. -/
inductive ItemType
  | text
  | info
  | toggle
  | slider
deriving DecidableEq, Repr

/-- A row of the settings screen. -/
structure Item where
  key : String
  type : ItemType
deriving DecidableEq, Repr

/-- The rows, section by section. -/
def SETTINGS_SECTIONS : List (List Item) :=
  [[⟨"device_name", .text⟩, ⟨"version", .info⟩],
    [⟨"wifi", .toggle⟩, ⟨"bluetooth", .toggle⟩, ⟨"hotspot", .toggle⟩, ⟨"airplane", .toggle⟩],
    [⟨"fingerprint", .toggle⟩, ⟨"notifications", .toggle⟩],
    [⟨"brightness", .slider⟩, ⟨"dark_mode", .toggle⟩],
    [⟨"volume", .slider⟩],
    [⟨"ota_enabled", .toggle⟩, ⟨"admin_device", .text⟩]]

/-- Draws the rows of a section from height `y` on; a slider's value must be a number where the
slider is drawn. Returns the rows with their heights and the height after them. -/
def drawItems (cfg : Cfg) : Int → List Item → Option (List (Int × Item) × Int)
  | y, [] => some ([], y)
  | y, item :: items =>
    if decide (36 < y ∧ y < H - 60) && item.type == .slider &&
        !(cfg.get item.key (.str "")).isNumber then none
    else (drawItems cfg (y + 44) items).map fun r ↦ ((y, item) :: r.1, r.2)

/-- Draws the sections from height `y` on: 22 for the title, 8 below the rows. -/
def drawSections (cfg : Cfg) : Int → List (List Item) → Option (List (Int × Item))
  | _, [] => some []
  | y, items :: sections =>
    (drawItems cfg (y + 22) items).bind fun r ↦
      (drawSections cfg (r.2 + 8) sections).map fun rest ↦ r.1 ++ rest

/-- The rows `draw_settings` returns for the next taps. -/
def drawSettings (cfg : Cfg) (settingsScroll : Int) : Option (List (Int × Item)) :=
  drawSections cfg (70 - settingsScroll) SETTINGS_SECTIONS

/-- A tap on one row. The float `rel/80*100` is cut to `rel*100/80`. -/
def tapItem (pos : Pos) (cfg : Cfg) (entry : Int × Item) : Cfg :=
  if entry.1 < pos.y ∧ pos.y < entry.1 + 40 then
    match entry.2.type with
    | .toggle => cfg.toggle entry.2.key (.bool false)
    | .slider => cfg.set entry.2.key (.int (max 0 (min (pos.x - (W - 100)) 80) * 100 / 80))
    | _ => cfg
  else cfg

/-- A tap on the settings screen. -/
def handleSettingsTap (cfg : Cfg) (pos : Pos) (items : List (Int × Item)) : Cfg :=
  items.foldl (tapItem pos) cfg

/-! ### Control Center -/

/-- What a button of the Control Center does; the second row's buttons do nothing. -/
inductive Toggle
  | wifi
  | bt
  | airplane
  | hotspot
  | idle
deriving DecidableEq, Repr

/-- The effect of a button on the settings. The WiFi button starts a program once it has
changed them, which raises where there is no such program. -/
def Toggle.act (cfg : Cfg) (spawns : Bool) : Toggle → Option Cfg
  | wifi => if spawns then some (cfg.toggle "wifi" (.bool true)) else none
  | bt => some (cfg.toggle "bluetooth" (.bool true))
  | airplane =>
    let cfg' := cfg.toggle "airplane" (.bool false)
    if (cfg'.get "airplane" (.bool false)).truthy then
      some ((cfg'.set "wifi" (.bool false)).set "bluetooth" (.bool false))
    else some cfg'
  | hotspot => some (cfg.toggle "hotspot" (.bool false))
  | idle => some cfg

/-- The panel that slides in from below. `toggleRects` is `none` until it is drawn. -/
structure ControlCenter where
  visible : Bool
  yOffset : Int
  brightness : CfgValue
  volume : CfgValue
  toggleRects : Option (List (Rect × Toggle))
deriving DecidableEq, Repr

namespace ControlCenter

def init (cfg : Cfg) : ControlCenter :=
  ⟨false, H, cfg.get "brightness" (.int 80), cfg.get "volume" (.int 70), none⟩

def show' (s : ControlCenter) : ControlCenter := { s with visible := true, yOffset := H }

def hide (s : ControlCenter) : ControlCenter := { s with visible := false }

/-- The buttons of a panel whose upper edge is at `py`, two rows of four. -/
def layout (py : Int) : List (Rect × Toggle) :=
  let tsz : Int := 64
  let tpad := (W - tsz * 4) / 5
  let ty := py + 52
  let ty2 := ty + tsz + 10
  [Toggle.wifi, .bt, .airplane, .hotspot].mapIdx (fun i t ↦
      (⟨tpad + i * (tsz + tpad), ty, tsz, tsz⟩, t)) ++
    [Toggle.idle, .idle, .idle, .idle].mapIdx fun i t ↦
      (⟨tpad + i * (tsz + tpad), ty2, tsz, tsz⟩, t)

/-- One frame of the panel; it moves up by 30 while it slides in. -/
def draw (s : ControlCenter) : Option ControlCenter :=
  if !s.visible then some s
  else
    let yOffset := if s.yOffset > 0 then max 0 (s.yOffset - 30) else s.yOffset
    if s.brightness.isNumber && s.volume.isNumber then
      some { s with yOffset := yOffset, toggleRects := some (layout (H - 320 + yOffset)) }
    else none

/-- The value of a slider touched at `x`. The float `(x-16)/288*100` is cut to an integer. -/
def sliderValue (x : Int) : Int := max 0 (min 100 ((x - 16) * 100 / (W - 32)))

/-- Handles a touch: outside the panel it hides the panel. -/
def handleTouch (s : ControlCenter) (cfg : Cfg) (pos : Pos) (spawns : Bool) :
    Option (ControlCenter × Cfg) :=
  if !s.visible then some (s, cfg)
  else
    let py := H - 320
    if pos.y < py then some (s.hide, cfg)
    else
      s.toggleRects.bind fun rects ↦
        match rects.find? fun r ↦ r.1.hit pos with
        | some r => (r.2.act cfg spawns).map fun cfg' ↦ (s, cfg')
        | none =>
          let sy1 := py + 52 + 64 * 2 + 10 * 2 + 24
          let v := CfgValue.int (sliderValue pos.x)
          if 16 ≤ pos.x ∧ pos.x ≤ W - 16 ∧ sy1 ≤ pos.y ∧ pos.y ≤ sy1 + 16 then
            some ({ s with brightness := v }, cfg.set "brightness" v)
          else if 16 ≤ pos.x ∧ pos.x ≤ W - 16 ∧ sy1 + 44 ≤ pos.y ∧ pos.y ≤ sy1 + 60 then
            some ({ s with volume := v }, cfg.set "volume" v)
          else some (s, cfg)

end ControlCenter

/-! ### Notification Center -/

/-- An entry of the notification file. -/
structure Notif where
  app : String
  title : String
  body : String
  read : Bool
deriving DecidableEq, Repr

/-- The panel that slides in from above. `clearRect` and `notifRects` are `none` until drawn. -/
structure NotificationCenter where
  visible : Bool
  yOffset : Int
  notifs : List Notif
  scroll : Int
  clearRect : Option Rect
  notifRects : Option (List (Option Rect))
deriving DecidableEq, Repr

namespace NotificationCenter

def init (notifs : List Notif) : NotificationCenter := ⟨false, -H, notifs, 0, none, none⟩

def show' (s : NotificationCenter) : NotificationCenter :=
  { s with visible := true, yOffset := -300 }

def hide (s : NotificationCenter) : NotificationCenter := { s with visible := false }

def clearAll (s : NotificationCenter) : NotificationCenter := { s with notifs := [] }

def markRead (s : NotificationCenter) (idx : Nat) : NotificationCenter :=
  { s with notifs := s.notifs.modify idx fun n ↦ { n with read := true } }

/-- Height of the panel. -/
def panelH (s : NotificationCenter) : Int := min 360 (80 + s.notifs.length * 72)

/-- The rectangle of each entry, `none` where it is scrolled out of the panel. -/
def layout (s : NotificationCenter) (py : Int) : List (Option Rect) :=
  s.notifs.mapIdx fun i _ ↦
    let y := py + 44 - s.scroll + 72 * i
    if y + 66 < py + 40 ∨ y > py + s.panelH then none else some ⟨8, y, W - 16, 66⟩

/-- One frame of the panel. With more than four entries the scroll bar's place is divided by
what does not fit in the panel; `none` is a division by zero. -/
def draw (s : NotificationCenter) (clearWidth : Int) : Option NotificationCenter :=
  if !s.visible then some s
  else
    let yOffset := if s.yOffset < 0 then min 0 (s.yOffset + 25) else s.yOffset
    let py := yOffset + 36
    let s' : NotificationCenter :=
      { s with
        yOffset := yOffset
        clearRect := some ⟨W - clearWidth - 20, py + 12, clearWidth + 8, 24⟩ }
    if s.notifs.isEmpty then some s'
    else if decide (s.notifs.length > 4) && (s.notifs.length * 72 - s.panelH == 0) then none
    else some { s' with notifRects := some (s.layout py) }

/-- Handles a touch: below the panel it hides the panel. -/
def handleTouch (s : NotificationCenter) (pos : Pos) : NotificationCenter :=
  if !s.visible then s
  else if pos.y > s.yOffset + 36 + s.panelH then s.hide
  else if (s.clearRect.map fun r ↦ r.hit pos) = some true then s.clearAll
  else
    match (s.notifRects.getD []).findIdx? fun r ↦ r.any fun r ↦ r.hit pos with
    | some i => s.markRead i
    | none => s

end NotificationCenter

end JuliusOS.Ui
