import JuliusOS.Foundations.Layers
import Mathlib.Data.Int.Basic

/-!
# The cards of the launcher

The geometry of `src/run.py`: the cards of all apps in two columns below the status bar, moved up by
`scroll_offset`, and those of the recent apps. A tap is looked up among all cards, but those that
have scrolled out above the status bar, or below the display, are not drawn. Below the status bar
what a tap finds is what is drawn there; on the status bar it may be a card that is not drawn
(`getTappedApp_eq_topmost_iff`).
-/

namespace JuliusOS.Launcher

/-- The apps of `APPS`, each of which `app_instances` has an instance of. -/
inductive AppName
  | terminal
  | wifi
  | ir
  | bluetooth
  | gpio
  | connect
  | transfer
  | clipboard
  | hotspot
  | scanner
  | files
  | sysMon
  | ssh
  | notes
  | netTools
  | packets
  | wakeOnLan
  | speedTest
  | calc
  | todo
  | passwords
  | weather
  | hasher
  | encoder
  | netMon
  | editor
  | timer
  | procKill
  | netMapper
  | sysInfo
  | firewall
  | logs
  | usb
  | settings
deriving DecidableEq

/-- `APPS`. -/
def apps : List AppName :=
  [.terminal, .wifi, .ir, .bluetooth, .gpio, .connect, .transfer, .clipboard, .hotspot, .scanner,
    .files, .sysMon, .ssh, .notes, .netTools, .packets, .wakeOnLan, .speedTest, .calc, .todo,
    .passwords, .weather, .hasher, .encoder, .netMon, .editor, .timer, .procKill, .netMapper,
    .sysInfo, .firewall, .logs, .usb, .settings]

/-- A position. -/
structure Pos where
  x : ℤ
  y : ℤ
deriving DecidableEq

/-- A rectangle `(x, y, w, h)`. -/
structure Rect where
  x : ℤ
  y : ℤ
  w : ℤ
  h : ℤ
deriving DecidableEq

/-- `collidepoint`: the right and the lower border are not part of a rectangle. -/
def Rect.collidepoint (r : Rect) (pos : Pos) : Bool :=
  r.x ≤ pos.x && pos.x < r.x + r.w && r.y ≤ pos.y && pos.y < r.y + r.h

theorem Rect.collidepoint_iff {r : Rect} {pos : Pos} :
    r.collidepoint pos = true ↔
      r.x ≤ pos.x ∧ pos.x < r.x + r.w ∧ r.y ≤ pos.y ∧ pos.y < r.y + r.h := by
  simp only [Rect.collidepoint, Bool.and_eq_true, decide_eq_true_eq, and_assoc]

/-- `WIDTH`. -/
abbrev width : ℤ := 240

/-- `HEIGHT`. -/
abbrev height : ℤ := 240

/-- `COLS`. -/
abbrev cols : ℕ := 2

/-- `PAD`. -/
abbrev pad : ℤ := 8

/-- `ROWS_VISIBLE`. -/
abbrev rowsVisible : ℤ := 3

/-- A position on the display. -/
def Pos.OnScreen (pos : Pos) : Prop := 0 ≤ pos.x ∧ pos.x < width ∧ 0 ≤ pos.y ∧ pos.y < height

instance (pos : Pos) : Decidable pos.OnScreen := inferInstanceAs (Decidable (_ ∧ _ ∧ _ ∧ _))

/-- `get_card_dims`. -/
def getCardDims : ℤ × ℤ := ((width - pad * 3) / cols, (height - 28 - pad * 4) / rowsVisible)

/-- `get_max_scroll`. -/
def getMaxScroll : ℤ :=
  let cardH := getCardDims.2
  let totalRows : ℤ := (apps.length + 1) / cols
  max 0 (totalRows * (cardH + pad) - (height - 28))

/-- The card of the `i`-th app. -/
def card (scrollOffset : ℤ) (i : ℕ) : Rect :=
  let cardW := getCardDims.1
  let cardH := getCardDims.2
  ⟨pad + (i % cols : ℕ) * (cardW + pad), 28 + pad + (i / cols : ℕ) * (cardH + pad) - scrollOffset,
    cardW, cardH⟩

/-- The cards of all apps. -/
def cards (scrollOffset : ℤ) : List (Rect × AppName) :=
  apps.mapIdx fun i app ↦ (card scrollOffset i, app)

/-- `draw_launcher` passes over a card: `y + card_h < 28 or y > HEIGHT`. -/
def culled (r : Rect) : Bool := r.y + r.h < 28 || height < r.y

/-- The cards that `draw_launcher` draws, in its order. -/
def drawLauncher (scrollOffset : ℤ) : List (Rect × AppName) :=
  (cards scrollOffset).filter fun r ↦ !culled r.1

/-- `get_tapped_app`. -/
def getTappedApp (scrollOffset : ℤ) (pos : Pos) : Option AppName :=
  Layers.found Rect.collidepoint (cards scrollOffset) pos

/-- The card of the `i`-th recent app. -/
def recentCard (i : ℕ) : Rect :=
  let cardW := (width - pad * 3) / 2
  let cardH := 50
  ⟨pad + (i % 2 : ℕ) * (cardW + pad), 32 + (i / 2 : ℕ) * (cardH + pad), cardW, cardH⟩

/-- The cards that `draw_recent` draws. -/
def drawRecent (recentApps : List AppName) : List (Rect × AppName) :=
  (recentApps.take 6).mapIdx fun i name ↦ (recentCard i, name)

/-- `get_tapped_recent`. -/
def getTappedRecent (recentApps : List AppName) (pos : Pos) : Option AppName :=
  Layers.found Rect.collidepoint (drawRecent recentApps) pos

/-! ### Where the cards are -/

variable {pos : Pos} {scrollOffset : ℤ} {app : AppName}

theorem getMaxScroll_eq : getMaxScroll = 944 := by decide

theorem card_eq (scrollOffset : ℤ) (i : ℕ) :
    card scrollOffset i =
      ⟨8 + (i % 2 : ℕ) * 116, 36 + (i / 2 : ℕ) * 68 - scrollOffset, 108, 60⟩ := rfl

theorem recentCard_eq (i : ℕ) :
    recentCard i = ⟨8 + (i % 2 : ℕ) * 116, 32 + (i / 2 : ℕ) * 58, 108, 50⟩ := rfl

/-- There are eight pixels between two cards. -/
theorem card_disjoint (scrollOffset : ℤ) (i j : ℕ) (pos : Pos) (hij : i < j)
    (hi : (card scrollOffset i).collidepoint pos = true) :
    (card scrollOffset j).collidepoint pos = false := by
  rw [Rect.collidepoint_iff, card_eq] at hi
  rw [← Bool.not_eq_true, Rect.collidepoint_iff, card_eq]
  simp only at hi ⊢
  omega

theorem recentCard_disjoint (i j : ℕ) (pos : Pos) (hij : i < j)
    (hi : (recentCard i).collidepoint pos = true) : (recentCard j).collidepoint pos = false := by
  rw [Rect.collidepoint_iff, recentCard_eq] at hi
  rw [← Bool.not_eq_true, Rect.collidepoint_iff, recentCard_eq]
  simp only at hi ⊢
  omega

theorem disjoint_cards (scrollOffset : ℤ) : Layers.Disjoint Rect.collidepoint (cards scrollOffset) :=
  Layers.disjoint_mapIdx (card_disjoint scrollOffset) apps

theorem disjoint_drawLauncher (scrollOffset : ℤ) :
    Layers.Disjoint Rect.collidepoint (drawLauncher scrollOffset) :=
  (disjoint_cards scrollOffset).filter _

/-- A card on the display is passed over only on the status bar. -/
theorem culled_iff {r : Rect} (hpos : pos.OnScreen) (h : r.collidepoint pos = true) :
    culled r = true ↔ r.y + r.h < 28 := by
  obtain ⟨-, -, -, hy⟩ := hpos
  obtain ⟨-, -, hr, -⟩ := Rect.collidepoint_iff.1 h
  rw [culled, Bool.or_eq_true, decide_eq_true_iff, decide_eq_true_iff]
  exact or_iff_left (by omega)

/-- **A tap finds what is seen** exactly if no card of the row that has scrolled out above the
status bar is there. -/
theorem getTappedApp_eq_topmost_iff (scrollOffset : ℤ) (hpos : pos.OnScreen) :
    getTappedApp scrollOffset pos =
        Layers.topmost Rect.collidepoint (drawLauncher scrollOffset) pos ↔
      ∀ i < apps.length, (card scrollOffset i).collidepoint pos = true →
        28 ≤ (card scrollOffset i).y + (card scrollOffset i).h := by
  rw [← (disjoint_drawLauncher scrollOffset).found_eq_topmost, getTappedApp, eq_comm, drawLauncher,
    (disjoint_cards scrollOffset).found_filter_iff]
  constructor
  · intro h i hi hhit
    have hmem : (card scrollOffset i, apps.get ⟨i, hi⟩) ∈ cards scrollOffset :=
      List.mem_mapIdx.2 ⟨i, hi, rfl⟩
    have hdrawn := h _ hmem hhit
    rw [Bool.not_eq_true', ← Bool.not_eq_true, culled_iff hpos hhit] at hdrawn
    exact not_lt.1 hdrawn
  · intro h r hr hhit
    obtain ⟨i, hi, rfl⟩ := List.mem_mapIdx.1 hr
    rw [Bool.not_eq_true', ← Bool.not_eq_true, culled_iff hpos hhit]
    exact not_lt.2 (h i hi hhit)

/-- Below the status bar a tap finds what is seen. -/
theorem getTappedApp_eq_topmost (scrollOffset : ℤ) (hpos : pos.OnScreen) (hy : 28 ≤ pos.y) :
    getTappedApp scrollOffset pos =
      Layers.topmost Rect.collidepoint (drawLauncher scrollOffset) pos := by
  refine (getTappedApp_eq_topmost_iff scrollOffset hpos).2 fun i _ hhit ↦ ?_
  obtain ⟨-, -, -, hlt⟩ := Rect.collidepoint_iff.1 hhit
  omega

/-- A tap on a recent app finds what is seen. -/
theorem getTappedRecent_eq_topmost (recentApps : List AppName) (pos : Pos) :
    getTappedRecent recentApps pos =
      Layers.topmost Rect.collidepoint (drawRecent recentApps) pos :=
  Layers.Disjoint.found_eq_topmost (Layers.disjoint_mapIdx recentCard_disjoint _) pos

/-- A position on a card finds its app. -/
theorem getTappedApp_card {i : ℕ} (hi : i < apps.length)
    (hhit : (card scrollOffset i).collidepoint pos = true) :
    getTappedApp scrollOffset pos = some (apps.get ⟨i, hi⟩) := by
  cases hfound : getTappedApp scrollOffset pos with
  | none =>
    have hnone := Layers.found_eq_none_iff.1 hfound (card scrollOffset i, apps.get ⟨i, hi⟩)
      (List.mem_mapIdx.2 ⟨i, hi, rfl⟩)
    rw [hhit] at hnone
    cases hnone
  | some app =>
    have hname := (disjoint_cards scrollOffset).name_eq (Layers.found_eq_some_iff.1 hfound)
      (r := (card scrollOffset i, apps.get ⟨i, hi⟩)) (List.mem_mapIdx.2 ⟨i, hi, rfl⟩) hhit
    exact congrArg some hname.symm

end JuliusOS.Launcher
