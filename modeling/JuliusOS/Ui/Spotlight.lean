import JuliusOS.Ui.Input

/-!
# Apps and the search overlay

The table of apps of the home screen, and Spotlight, which searches it. Spotlight keeps a
`visible` flag of its own besides the main loop's `show_spotlight`; both its handlers do nothing
while it is not set.
-/

namespace JuliusOS.Ui

/-! ### Apps -/

/-- An entry of `APPS`. -/
structure App where
  name : String
  page : Nat
deriving DecidableEq, Repr

/-- The apps of the home screen's two pages. -/
def APPS : List App :=
  (["Terminal", "WiFi", "IR", "Bluetooth", "Connect", "Transfer", "Scanner", "Files", "SysMon",
    "SSH", "Notes", "NetTools", "Packets", "Clipboard", "Hotspot", "GPIO"].map (App.mk · 0)) ++
  (["Calc", "Todo", "Passwords", "Weather", "Hasher", "Encoder", "NetMon", "Editor", "Timer",
    "WakeOnLAN", "SpeedTest", "ProcKill", "NetMapper", "SysInfo", "Firewall", "Logs", "USB",
    "Drop", "Cloud", "AI", "Radio", "Maps", "Settings"].map (App.mk · 1))

/-- The apps of the dock. -/
def DOCK_NAMES : List String := ["Terminal", "WiFi", "AI", "Settings"]

/-- The keys of `app_instances`. -/
def appInstances : List String :=
  ["Terminal", "WiFi", "IR", "Bluetooth", "GPIO", "Connect", "Transfer", "Clipboard", "Hotspot",
    "Scanner", "Files", "SysMon", "SSH", "Notes", "NetTools", "Packets", "WakeOnLAN", "SpeedTest",
    "Calc", "Todo", "Passwords", "Weather", "Hasher", "Encoder", "NetMon", "Editor", "Timer",
    "ProcKill", "NetMapper", "SysInfo", "Firewall", "Logs", "USB", "Radio", "Maps"]

/-! ### Spotlight -/

/-- The `type` of a search result. -/
inductive ResultType
  | app
  | command
  | setting
deriving DecidableEq, Repr

/-- A search result. -/
structure SearchResult where
  type : ResultType
  name : String
  desc : String
deriving DecidableEq, Repr

/-- What a handler of Spotlight returns other than `None`. -/
inductive SpotlightReply
  | hide
  | result (res : SearchResult)
deriving DecidableEq, Repr

/-- The search overlay. `resultRects` is `none` until `draw` has drawn results. -/
structure Spotlight where
  visible : Bool
  query : String
  results : List SearchResult
  selected : Int
  resultRects : Option (List (Rect × SearchResult))
deriving DecidableEq, Repr

namespace Spotlight

variable (P : PyText)

/-- The state `__init__` leaves. -/
def init : Spotlight := ⟨false, "", [], 0, none⟩

/-- The selection and the drawn rectangles stay as they were. -/
def show' (s : Spotlight) : Spotlight := { s with visible := true, query := "", results := [] }

def hide (s : Spotlight) : Spotlight := { s with visible := false, query := "" }

/-- The commands Spotlight offers. -/
def cmds : List String := ["nmap", "ping", "curl", "python3", "ls", "cat", "ps", "df"]

/-- The results of a search for `q`. -/
def find (q : String) : List SearchResult :=
  if q = "" then []
  else
    let qLower := P.lower q
    (APPS.filter fun app ↦ isSubstr qLower (P.lower app.name)).map
        (fun app ↦ ⟨.app, app.name, "Julius OS App"⟩) ++
      (cmds.filter fun cmd ↦ isSubstr qLower cmd).map
        (fun cmd ↦ ⟨.command, cmd, "Terminal Command"⟩) ++
      (if qLower ∈ ["wifi", "network", "ip"] then
        [⟨.setting, "WiFi Settings", "Network Configuration"⟩] else []) ++
      (if qLower ∈ ["bt", "bluetooth"] then
        [⟨.setting, "Bluetooth", "Bluetooth Settings"⟩] else [])

def search (s : Spotlight) (q : String) : Spotlight := { s with query := q, results := find P q }

/-- Rectangles are drawn for the first eight results, and only where there are results. -/
def draw (s : Spotlight) : Spotlight :=
  if !s.visible then s
  else if s.results.isEmpty then s
  else { s with
    resultRects := some ((s.results.take 8).mapIdx fun i res ↦
      (⟨12, 106 + 52 * i, W - 24, 46⟩, res)) }

/-- Handles a key; `none` is an `IndexError`. -/
def handleKey (s : Spotlight) (event : KeyEvent) : Option (Spotlight × Option SpotlightReply) :=
  if !s.visible then some (s, none)
  else
    match event.key with
    | .escape => some (s.hide, some .hide)
    | .backspace => some (s.search P (dropLast s.query), none)
    | .ret =>
      if !s.results.isEmpty && decide (s.selected < s.results.length) then
        (pyIndex s.results s.selected).map fun res ↦ (s, some (.result res))
      else some (s, none)
    | .down => some ({ s with selected := min (s.selected + 1) (s.results.length - 1) }, none)
    | .up => some ({ s with selected := max (s.selected - 1) 0 }, none)
    | .other =>
      if event.typed P then
        some ({ s.search P (s.query ++ event.unicode) with selected := 0 }, none)
      else some (s, none)

/-- The first drawn result that a touch hits. -/
def touched (s : Spotlight) (pos : Pos) : Option SearchResult :=
  (s.resultRects.bind fun rects ↦ rects.find? fun r ↦ r.1.hit pos).map Prod.snd

/-- A touch above the search box or below the results. -/
def outside (s : Spotlight) (pos : Pos) : Bool :=
  decide (pos.y < 50 ∨ pos.y > 106 + s.results.length * 52)

/-- Handles a touch. A touch outside hides the overlay, and `None` is returned all the same. -/
def handleTouch (s : Spotlight) (pos : Pos) : Spotlight × Option SpotlightReply :=
  if !s.visible then (s, none)
  else
    match s.touched pos with
    | some res => (s, some (.result res))
    | none => if s.outside pos then (s.hide, none) else (s, none)

end Spotlight

end JuliusOS.Ui
