import Mathlib.Data.Int.Basic
import Mathlib.Data.List.Basic
import Mathlib.Data.List.Infix
import Mathlib.Data.String.Basic

/-!
# What the UI's main loop is given

Positions and rectangles on the 320 × 480 display, the gestures the loop reads off a press and
its release, keys, and the inputs of the loop. Clock readings are in microseconds.

Between two batches of events the loop draws a frame. What pygame alone decides in it (the width
of a rendered word, the place a floating-point animation has reached) comes with the frame, so a
property of every run is a property for every font and every animation.
-/

namespace JuliusOS.Ui

/-- Width of the display. -/
def W : Int := 320

/-- Height of the display. -/
def H : Int := 480

/-- A position on the display. -/
structure Pos where
  x : Int
  y : Int
deriving DecidableEq, Repr

/-- A rectangle `(x, y, w, h)`. -/
structure Rect where
  x : Int
  y : Int
  w : Int
  h : Int
deriving DecidableEq, Repr

/-- The test of every touch handler, `x <= pos[0] <= x+w and y <= pos[1] <= y+h`: the borders
belong to the rectangle. -/
def Rect.hit (r : Rect) (pos : Pos) : Bool :=
  decide (r.x ≤ pos.x ∧ pos.x ≤ r.x + r.w ∧ r.y ≤ pos.y ∧ pos.y ≤ r.y + r.h)

/-! ### Gestures -/

/-- The names the loop gives to what a press and its release amount to. They overlap: a short
fast movement may be a tap and no swipe, a diagonal one two swipes. -/
structure Gesture where
  isTap : Bool
  isSwipeLeft : Bool
  isSwipeRight : Bool
  isSwipeDown : Bool
  isSwipeUp : Bool
  fromTop : Bool
  fromBottom : Bool
  /-- `elapsed > 0.4` -/
  held : Bool
deriving DecidableEq, Repr

/-- The gesture of a press at `touchStart` released at `pos`. -/
def gesture (touchStart : Pos) (touchTime : Int) (pos : Pos) (now : Int) : Gesture :=
  let dx := pos.x - touchStart.x
  let dy := pos.y - touchStart.y
  { isTap := decide (dx.natAbs < 14 ∧ dy.natAbs < 14)
    isSwipeLeft := decide (dx < -50 ∧ dy.natAbs < 60)
    isSwipeRight := decide (dx > 50 ∧ dy.natAbs < 60)
    isSwipeDown := decide (dy > 70 ∧ dx.natAbs < 60)
    isSwipeUp := decide (dy < -50 ∧ dx.natAbs < 60)
    fromTop := decide (touchStart.y < 80)
    fromBottom := decide (touchStart.y > H - 100)
    held := decide (now - touchTime > 400000) }

/-! ### Keys and text -/

/-- The keys some handler tests for. -/
inductive Key
  | escape
  | backspace
  | ret
  | down
  | up
  | other
deriving DecidableEq, Repr

/-- A `KEYDOWN` event. -/
structure KeyEvent where
  key : Key
  unicode : String
deriving DecidableEq, Repr

/-- Python's string methods that depend on the Unicode tables. Nothing is assumed of them. -/
structure PyText where
  lower : String → String
  isprintable : String → Bool
  strip : String → String

/-- The methods on ASCII texts, for runs on given inputs. -/
def asciiText : PyText where
  lower s := String.ofList (s.toList.map Char.toLower)
  isprintable s := s.toList.all fun c ↦ decide (32 ≤ c.toNat ∧ c.toNat < 127)
  strip s :=
    let trimLeft := fun cs : List Char ↦ cs.dropWhile Char.isWhitespace
    String.ofList (trimLeft (trimLeft s.toList).reverse).reverse

/-- `sub in s` for two strings. -/
def isSubstr (sub s : String) : Bool := decide (sub.toList <:+: s.toList)

/-- `s[:-1]`. -/
def dropLast (s : String) : String := String.ofList s.toList.dropLast

/-- `event.unicode and event.unicode.isprintable()`. -/
def KeyEvent.typed (P : PyText) (event : KeyEvent) : Bool :=
  event.unicode != "" && P.isprintable event.unicode

/-- `xs[i]`, where a negative index counts from the end; `none` is an `IndexError`. -/
def pyIndex {α : Type*} (xs : List α) (i : Int) : Option α :=
  if 0 ≤ i then xs[i.toNat]? else if 0 ≤ i + xs.length then xs[(i + xs.length).toNat]? else none

/-! ### Inputs -/

/-- What a frame is drawn with. -/
structure FrameEnv where
  /-- `int(self.scroll_x)` of the app switcher in this frame. -/
  scrollX : Int
  /-- The width of the rendered word "Clear". -/
  clearWidth : Int
deriving DecidableEq, Repr

/-- What the main loop does next: handle an event, or draw a frame. -/
inductive Input
  | mouseDown (pos : Pos) (now : Int)
  /-- `spawns` says whether a program that the event's handler starts can be started. -/
  | mouseUp (pos : Pos) (now : Int) (spawns : Bool)
  | keyDown (event : KeyEvent)
  | mouseWheel (y : Int)
  | frame (v : FrameEnv)
  /-- The assistant's worker thread delivers a reply. -/
  | reply (answer : String)
deriving DecidableEq, Repr

/-- A press at `p` released at `q` a tenth of a second later. -/
def swipe (p q : Pos) : List Input := [.mouseDown p 0, .mouseUp q 100000 true]

/-- A left swipe across the middle of the display. -/
def swipeLeft : List Input := swipe ⟨200, 240⟩ ⟨100, 240⟩

/-- A right swipe across the middle of the display. -/
def swipeRight : List Input := swipe ⟨100, 240⟩ ⟨200, 240⟩

/-- The escape key. -/
def pressEscape : Input := .keyDown ⟨.escape, ""⟩

/-- The touch and key events. -/
def Input.isUser : Input → Bool
  | .mouseDown .. => true
  | .mouseUp .. => true
  | .keyDown _ => true
  | _ => false

/-- What happens without the user: a frame, a reply of the assistant. -/
def Input.isQuiet : Input → Bool
  | .frame _ => true
  | .reply _ => true
  | _ => false

end JuliusOS.Ui
