import JuliusOS.Ui.Spotlight

/-!
# App switcher, folders and the full-screen overlays

The other overlays of the main loop. Each has a `visible` flag of its own. Nothing in the program
opens a folder, so the folder manager stays as `init` leaves it and its `draw` is never reached.

What the touch handlers of Drop and Cloud do besides the `visible` test (a status text, a sync
thread) is read by no handler and left out.
-/

namespace JuliusOS.Ui

/-! ### App switcher -/

/-- A card of the app switcher with its close button. -/
structure Card where
  rect : Rect
  close : Rect
  name : String
deriving DecidableEq, Repr

/-- What the switcher's touch handler returns other than `None`. -/
inductive SwitcherReply
  | closed
  | opened (name : String)
deriving DecidableEq, Repr

/-- The app switcher. `cardRects` is `none` until cards are drawn, and an entry of it is `none`
for a card outside the display. -/
structure AppSwitcher where
  visible : Bool
  recent : List String
  selected : Int
  targetX : Int
  cardRects : Option (List (Option Card))
deriving DecidableEq, Repr

namespace AppSwitcher

def init : AppSwitcher := ⟨false, [], 0, 0, none⟩

/-- The app moves to the front; eight are kept. -/
def addRecent (s : AppSwitcher) (appName : String) : AppSwitcher :=
  { s with recent := (appName :: s.recent.erase appName).take 8 }

def show' (s : AppSwitcher) : AppSwitcher :=
  { s with visible := true, targetX := 0, selected := 0 }

def hide (s : AppSwitcher) : AppSwitcher := { s with visible := false }

/-- The card of the `i`-th recent app, with the animation at `scrollX`. The selected card is
drawn 1.05 times as large. -/
def card (s : AppSwitcher) (scrollX : Int) (i : Nat) (appName : String) : Option Card :=
  let cardW : Int := 160
  let cardH : Int := 260
  let gap : Int := 20
  let startX := W / 2 - cardW / 2 - scrollX
  let x := startX + i * (cardW + gap) - (s.recent.length / 2 : Nat) * (cardW + gap)
  let y := H / 2 - cardH / 2 + 20
  let isSelected := decide ((i : Int) = s.selected)
  let sw := if isSelected then 168 else cardW
  let sh := if isSelected then 273 else cardH
  let sx := x - (sw - cardW) / 2
  let sy := y - (sh - cardH) / 2
  if sx > W + 100 ∨ sx + sw < -100 then none
  else some
    { rect := ⟨sx, sy, sw, sh⟩
      close := ⟨sx + sw - 18 - 10, sy + 6 - 10, 20, 20⟩
      name := appName }

/-- With no recent app the cards of an earlier frame stay. -/
def draw (s : AppSwitcher) (scrollX : Int) : AppSwitcher :=
  if !s.visible then s
  else if s.recent.isEmpty then s
  else { s with cardRects := some (s.recent.mapIdx (s.card scrollX)) }

/-- The touch handler on one card: the close button first. `none` where the card is not hit. -/
def touchCard (s : AppSwitcher) (pos : Pos) (card : Card) :
    Option (Option (AppSwitcher × Option SwitcherReply)) :=
  if card.close.hit pos then
    -- `self.recent.remove(name)` raises a `ValueError` on an app that is not there any more
    some (if card.name ∈ s.recent then
      some ({ s with recent := s.recent.erase card.name }, some .closed) else none)
  else if card.rect.hit pos then some (some (s.hide, some (.opened card.name)))
  else none

/-- Handles a touch; `none` is an uncaught `ValueError`. -/
def handleTouch (s : AppSwitcher) (pos : Pos) (isSwipeLeft isSwipeRight : Bool) :
    Option (AppSwitcher × Option SwitcherReply) :=
  if !s.visible then some (s, none)
  else if isSwipeLeft then
    some ({ s with
      selected := min (s.selected + 1) (s.recent.length - 1)
      targetX := s.targetX + 180 }, none)
  else if isSwipeRight then
    some ({ s with selected := max (s.selected - 1) 0, targetX := s.targetX - 180 }, none)
  else
    (((s.cardRects.getD []).reduceOption.findSome? (s.touchCard pos)).getD (some (s, none)))

end AppSwitcher

/-! ### Folders -/

/-- What the folder manager's touch handler returns other than `None`. -/
inductive FolderReply
  | closed
  | opened (name : String)
deriving DecidableEq, Repr

/-- The folder manager. `folderAppRects` is `none` until an open folder is drawn. -/
structure FolderManager where
  visible : Bool
  openFolder : Option String
  folderAppRects : Option (List (Rect × String))
deriving DecidableEq, Repr

namespace FolderManager

def init : FolderManager := ⟨false, none, none⟩

def close (s : FolderManager) : FolderManager := { s with visible := false, openFolder := none }

/-- Handles a touch. -/
def handleTouch (s : FolderManager) (pos : Pos) (isSwipeDown : Bool) :
    FolderManager × Option FolderReply :=
  if !s.visible then (s, none)
  else if isSwipeDown then (s.close, some .closed)
  else
    match (s.folderAppRects.getD []).find? fun r ↦ r.1.hit pos with
    | some r => (s.close, some (.opened r.2))
    | none => (s, none)

end FolderManager

/-! ### The assistant -/

/-- Who a message is from. -/
inductive Role
  | julius
  | user
deriving DecidableEq, Repr

/-- A message of the conversation. -/
structure Message where
  role : Role
  content : String
deriving DecidableEq, Repr

/-- The assistant's screen. -/
structure JuliusAI where
  visible : Bool
  messages : List Message
  input : String
deriving DecidableEq, Repr

namespace JuliusAI

variable (P : PyText)

def init : JuliusAI := ⟨false, [], ""⟩

/-- The first time the assistant introduces itself. -/
def show' (s : JuliusAI) : JuliusAI :=
  { s with
    visible := true
    messages := if s.messages.isEmpty then
      [⟨.julius, "Hi! I'm Julius, your AI assistant. How can I help?"⟩] else s.messages }

def hide (s : JuliusAI) : JuliusAI := { s with visible := false }

/-- Adds the question; a worker thread fetches the reply. -/
def ask (s : JuliusAI) (question : String) : JuliusAI :=
  { s with messages := s.messages ++ [⟨.user, question⟩] }

/-- What the worker thread does with the reply. -/
def answered (s : JuliusAI) (answer : String) : JuliusAI :=
  { s with messages := s.messages ++ [⟨.julius, answer⟩] }

def handleKey (s : JuliusAI) (event : KeyEvent) : JuliusAI :=
  if !s.visible then s
  else if event.key = .ret ∧ P.strip s.input ≠ "" then
    { s.ask (P.strip s.input) with input := "" }
  else if event.key = .backspace then { s with input := dropLast s.input }
  else if event.key = .escape then s.hide
  else if event.typed P then { s with input := s.input ++ event.unicode }
  else s

def handleTouch (s : JuliusAI) (pos : Pos) : JuliusAI :=
  if !s.visible then s
  else if W - 52 ≤ pos.x ∧ pos.x ≤ W - 8 ∧ H - 46 ≤ pos.y ∧ pos.y ≤ H - 8 then
    if P.strip s.input ≠ "" then { s.ask (P.strip s.input) with input := "" } else s
  else s

end JuliusAI

/-! ### Drop and Cloud -/

/-- The Drop screen. -/
structure JuliusDrop where
  visible : Bool
deriving DecidableEq, Repr

def JuliusDrop.show' (_ : JuliusDrop) : JuliusDrop := ⟨true⟩

def JuliusDrop.hide (_ : JuliusDrop) : JuliusDrop := ⟨false⟩

/-- The Cloud screen. -/
structure JuliusCloud where
  visible : Bool
deriving DecidableEq, Repr

def JuliusCloud.show' (_ : JuliusCloud) : JuliusCloud := ⟨true⟩

def JuliusCloud.hide (_ : JuliusCloud) : JuliusCloud := ⟨false⟩

end JuliusOS.Ui
