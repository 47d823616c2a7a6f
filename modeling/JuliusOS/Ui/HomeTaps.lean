import JuliusOS.Foundations.Layers
import JuliusOS.Ui.ControlTouch
import JuliusOS.Ui.Loop

/-!
# Taps on what is drawn

The home screen draws the icons of a page in rows of four and over them those of the dock; a tap
is looked up in the same order, so under a dock icon it finds the icon of the page's fourth row,
and where the dock's icons overlap the first of them. The Control Center draws its sliders ten
pixels above the bands in which it looks for a touch.
-/

namespace JuliusOS.Ui

/-! ### The home screen -/

/-- The icon squares of the page's apps, in the order `draw_home_screen` draws them. -/
def drawGrid (apps : List App) (currentPage : Nat) : List (Rect × String) :=
  let pageApps := apps.filter fun a ↦ a.page == currentPage
  let cols : Nat := 4
  let pad : Int := 9
  let iconSize := (W - pad * (cols + 1)) / cols
  let startY : Int := 132
  pageApps.mapIdx fun i a ↦
    (⟨pad + (i % cols : Nat) * (iconSize + pad), startY + (i / cols : Nat) * (iconSize + 20 + 5),
      iconSize, iconSize⟩, a.name)

/-- The icon squares of the dock, in the order `draw_home_screen` draws them. -/
def drawDock (apps : List App) : List (Rect × String) :=
  let dockY := H - 70
  let dockApps := apps.filter fun a ↦ decide (a.name ∈ DOCK_NAMES)
  let dsz : Int := 46
  let dpd := (W - 24 - dockApps.length * dsz) / (dockApps.length + 1)
  dockApps.mapIdx fun i a ↦ (⟨12 + dpd * (i + 1) + dsz * i, dockY + 7, dsz, dsz⟩, a.name)

/-- The icon squares in the order they are drawn. -/
def drawHomeScreen (apps : List App) (currentPage : Nat) : List (Rect × String) :=
  drawGrid apps currentPage ++ drawDock apps

/-- `get_tapped_app` for any table of apps. -/
def tappedApp (apps : List App) (currentPage : Nat) (pos : Pos) : Option String :=
  let pageApps := apps.filter fun a ↦ a.page == currentPage
  let pad : Int := 9
  let iconSize := (W - pad * 5) / 4
  let grid := pageApps.mapIdx fun i a ↦
    ((⟨pad + (i % 4 : Nat) * (iconSize + pad), 132 + (i / 4 : Nat) * (iconSize + 25),
      iconSize, iconSize⟩ : Rect), a.name)
  let dockApps := apps.filter fun a ↦ decide (a.name ∈ DOCK_NAMES)
  let dsz : Int := 46
  let dpd := (W - 24 - dockApps.length * dsz) / (dockApps.length + 1)
  let dock := dockApps.mapIdx fun i a ↦
    ((⟨12 + dpd * (i + 1) + dsz * i, H - 70 + 7, dsz, 46⟩ : Rect), a.name)
  ((grid ++ dock).find? fun r ↦ r.1.hit pos).map Prod.snd

variable {apps : List App} {currentPage : Nat} {pos : Pos}

/-- The main loop looks taps up in `APPS`. -/
theorem UI.getTappedApp_eq (s : UI) (pos : Pos) :
    s.getTappedApp pos = tappedApp APPS s.currentPage pos := rfl

/-- The place of the `i`-th icon of a page. -/
def gridSquare (i : Nat) : Rect := ⟨9 + (i % 4 : Nat) * 77, 132 + (i / 4 : Nat) * 93, 68, 68⟩

/-- The place of the `i`-th of `n` icons in the dock. -/
def dockSquare (n i : Nat) : Rect :=
  ⟨12 + (296 - n * 46) / (n + 1) * (i + 1) + 46 * i, 417, 46, 46⟩

theorem drawGrid_eq :
    drawGrid apps currentPage =
      (apps.filter fun a ↦ a.page == currentPage).mapIdx fun i a ↦ (gridSquare i, a.name) := rfl

theorem drawDock_eq :
    drawDock apps = (apps.filter fun a ↦ decide (a.name ∈ DOCK_NAMES)).mapIdx fun i a ↦
      (dockSquare (apps.filter fun a ↦ decide (a.name ∈ DOCK_NAMES)).length i, a.name) := rfl

/-- A tap is looked up in the squares that are drawn, the first one first. -/
theorem tappedApp_eq_found :
    tappedApp apps currentPage pos = Layers.found Rect.hit (drawHomeScreen apps currentPage) pos :=
  rfl

/-- There are nine pixels between two icons of a row and 25 between two rows. -/
theorem gridSquare_disjoint (i j : Nat) (pos : Pos) (hij : i < j)
    (hi : (gridSquare i).hit pos = true) : (gridSquare j).hit pos = false := by
  rw [Rect.hit_iff] at hi
  rw [← Bool.not_eq_true, Rect.hit_iff]
  simp only [gridSquare] at hi ⊢
  omega

theorem disjoint_drawGrid (apps : List App) (currentPage : Nat) :
    Layers.Disjoint Rect.hit (drawGrid apps currentPage) :=
  Layers.disjoint_mapIdx gridSquare_disjoint _

/-- The dock hides nothing at `pos`: the icon seen in it there has the name of the page's icon
below it or, where there is none, of the first dock icon there. -/
def DockClear (apps : List App) (currentPage : Nat) (pos : Pos) : Prop :=
  ∀ n, Layers.LastAt Rect.hit (drawDock apps) pos n →
    (∀ r ∈ drawGrid apps currentPage, r.1.hit pos = true → r.2 = n) ∧
      ((∀ r ∈ drawGrid apps currentPage, r.1.hit pos = false) →
        ∀ m, Layers.FirstAt Rect.hit (drawDock apps) pos m → m = n)

theorem tappedApp_eq_topmost_iff :
    tappedApp apps currentPage pos =
        Layers.topmost Rect.hit (drawHomeScreen apps currentPage) pos ↔
      DockClear apps currentPage pos := by
  rw [tappedApp_eq_found, drawHomeScreen,
    Layers.found_eq_topmost_iff (disjoint_drawGrid apps currentPage), DockClear]

/-! ### When the dock hides nothing -/

/-- The first three rows end above the dock. -/
theorem gridSquare_above_dock {i j n : Nat} (hi : i < 12) (hpos : (gridSquare i).hit pos = true) :
    (dockSquare n j).hit pos = false := by
  rw [Rect.hit_iff] at hpos
  rw [← Bool.not_eq_true, Rect.hit_iff]
  simp only [gridSquare, dockSquare] at hpos ⊢
  omega

/-- There is room for six icons side by side. -/
theorem dockSquare_disjoint {n : Nat} (hn : n ≤ 6) (i j : Nat) (pos : Pos) (hij : i < j)
    (hi : (dockSquare n i).hit pos = true) : (dockSquare n j).hit pos = false := by
  have hgap : 1 ≤ (296 - n * 46 : Int) / (n + 1) := by
    rw [Int.le_ediv_iff_mul_le (by omega)]
    omega
  rw [Rect.hit_iff] at hi
  rw [← Bool.not_eq_true, Rect.hit_iff]
  simp only [dockSquare] at hi ⊢
  generalize (296 - n * 46 : Int) / (n + 1) = gap at hi hgap ⊢
  have hmul : gap * (i + 1) + gap ≤ gap * (j + 1) := by
    calc gap * (i + 1) + gap = gap * (i + 1 + 1) := by rw [Int.mul_add gap (i + 1), Int.mul_one]
      _ ≤ gap * (j + 1) := Int.mul_le_mul_of_nonneg_left (by omega) (by omega)
  omega

/-- With at most twelve apps on the page and six in the dock a tap finds what is seen. -/
theorem tappedApp_eq_topmost (hpage : (apps.filter fun a ↦ a.page == currentPage).length ≤ 12)
    (hdock : (apps.filter fun a ↦ decide (a.name ∈ DOCK_NAMES)).length ≤ 6) (pos : Pos) :
    tappedApp apps currentPage pos =
      Layers.topmost Rect.hit (drawHomeScreen apps currentPage) pos := by
  rw [tappedApp_eq_topmost_iff]
  intro n hn
  refine ⟨fun r hr hhit ↦ ?_, fun _ m hm ↦ ?_⟩
  · obtain ⟨front, s, back, hdraw, hs, -⟩ := hn
    have hmem : (s, n) ∈ drawDock apps := hdraw ▸ List.mem_append_right _ (List.mem_cons_self ..)
    rw [drawDock_eq, List.mem_mapIdx] at hmem
    rw [drawGrid_eq, List.mem_mapIdx] at hr
    obtain ⟨i, hi, rfl⟩ := hr
    obtain ⟨j, hj, hsj⟩ := hmem
    have hfalse := gridSquare_above_dock (j := j) (n := (apps.filter fun a ↦
      decide (a.name ∈ DOCK_NAMES)).length) (Nat.lt_of_lt_of_le hi hpage) hhit
    rw [Prod.mk.injEq] at hsj
    rw [hsj.1, hs] at hfalse
    cases hfalse
  · have hd : Layers.Disjoint Rect.hit (drawDock apps) :=
      Layers.disjoint_mapIdx (dockSquare_disjoint hdock) _
    have hfirst := Layers.found_eq_some_iff.2 hm
    rw [hd.found_eq_topmost, Layers.topmost_eq_some_iff.2 hn] at hfirst
    exact (Option.some.inj hfirst).symm

/-! ### The sliders of the Control Center -/

namespace ControlCenter

/-- The opening animation has finished: the panel is in its place, where it was drawn. -/
def Opened (s : ControlCenter) : Prop :=
  s.visible = true ∧ s.yOffset = 0 ∧ s.toggleRects = some (layout (H - 320))

/-- A touch at `pos` changes the value of a slider: it does so for some value it may have had. -/
def Changes (s : ControlCenter) (cfg : Cfg) (pos : Pos) (spawns : Bool) (k : Slider) : Prop :=
  ∃ v : Int, ∃ r, (k.withValue s (.int v)).handleTouch cfg pos spawns = some r ∧
    k.value r.1 ≠ .int v

/-- Between the edge of the drawn slider and that of its band, at either end. -/
def BesideSlider (pos : Pos) (k : Slider) : Prop :=
  16 ≤ pos.x ∧ pos.x ≤ 304 ∧
    (374 + k.offset ≤ pos.y ∧ pos.y < 384 + k.offset ∨
      390 + k.offset < pos.y ∧ pos.y ≤ 400 + k.offset)

variable {s : ControlCenter} {cfg : Cfg} {spawns : Bool} {k : Slider}

/-- A touch outside its band leaves a slider as it is. -/
theorem value_of_not_touchBand {r : ControlCenter × Cfg} (hband : ¬Slider.TouchBand pos k)
    (h : s.handleTouch cfg pos spawns = some r) : k.value r.1 = k.value s := by
  obtain ⟨t, cfg', -, -, rfl⟩ | ⟨-, rfl | rfl | ⟨k', hk', rfl⟩⟩ := handleTouch_cases h
  · rfl
  · rfl
  · cases k <;> rfl
  · exact Slider.value_withValue_of_ne (fun heq : k = k' ↦ hband (heq ▸ hk')) s _

/-- A touch changes a slider exactly in its band. -/
theorem changes_iff_touchBand (hs : s.Opened) :
    s.Changes cfg pos spawns k ↔ Slider.TouchBand pos k := by
  constructor
  · rintro ⟨v, r, hr, hne⟩
    by_contra hband
    exact hne ((value_of_not_touchBand hband hr).trans (Slider.value_withValue s _ k))
  · intro hband
    -- a slider never stands at `-1`
    have hs' : (k.withValue s (.int (-1))).visible = true ∧
        (k.withValue s (.int (-1))).toggleRects = some (layout (H - 320)) := by
      cases k <;> exact ⟨hs.1, hs.2.2⟩
    refine ⟨-1, _, handleTouch_of_touchBand hs'.1 hs'.2 hband, fun heq ↦ ?_⟩
    rw [Slider.value_withValue, CfgValue.int.injEq] at heq
    have := (sliderValue_mem pos.x).1
    omega

/-- The slider is drawn where its band is up to the ten pixels at either end. -/
theorem changes_iff_drawn_iff (hs : s.Opened) :
    (s.Changes cfg pos spawns k ↔ (k.rect (H - 320)).hit pos = true) ↔ ¬BesideSlider pos k := by
  rw [changes_iff_touchBand hs, Rect.hit_iff]
  simp only [Slider.TouchBand, BesideSlider, Slider.rect, H, W]
  omega

/-! ### The opening animation -/

/-- `n` frames of the panel. -/
def frames : Nat → ControlCenter → Option ControlCenter
  | 0, s => some s
  | n + 1, s => s.draw.bind (frames n)

/-- How far below its place a frame leaves the panel. -/
def slide (yOffset : Int) : Int := if yOffset > 0 then max 0 (yOffset - 30) else yOffset

theorem draw_of_visible (hvis : s.visible = true) (hb : s.brightness.isNumber = true)
    (hv : s.volume.isNumber = true) :
    s.draw = some { s with
      yOffset := slide s.yOffset
      toggleRects := some (layout (H - 320 + slide s.yOffset)) } := by
  rw [draw, if_neg (by rw [hvis]; decide), hb, hv]
  rfl

/-- A panel that slides in has finished after as many frames as its way takes. -/
theorem frames_opened (n : Nat) (hvis : s.visible = true) (h0 : 0 ≤ s.yOffset)
    (hn : s.yOffset ≤ 30 * (n + 1)) (hb : s.brightness.isNumber = true)
    (hv : s.volume.isNumber = true) : ∃ t, frames (n + 1) s = some t ∧ t.Opened := by
  induction n generalizing s with
  | zero =>
    have hy : slide s.yOffset = 0 := by
      rw [slide]
      omega
    rw [frames, draw_of_visible hvis hb hv, hy]
    exact ⟨_, rfl, hvis, rfl, rfl⟩
  | succ n ih =>
    have hy : 0 ≤ slide s.yOffset ∧ slide s.yOffset ≤ 30 * (n + 1) := by
      rw [slide]
      omega
    rw [frames, draw_of_visible hvis hb hv, Option.bind_some]
    exact ih hvis hy.1 hy.2 hb hv

/-- The sixteenth frame after `show` ends the animation. -/
theorem show_frames_opened (hb : s.brightness.isNumber = true) (hv : s.volume.isNumber = true) :
    ∃ t, frames 16 s.show' = some t ∧ t.Opened :=
  frames_opened (s := s.show') 15 rfl (show 0 ≤ H by decide) (show H ≤ 30 * (15 + 1) by decide)
    hb hv

end ControlCenter

/-! ### What is tapped and what is drawn -/

/-- **A tap on the home screen finds what is seen** exactly where the dock hides nothing, and a
touch in the opened Control Center changes a slider exactly where it is drawn but for the ten
pixels at either end of its band. -/
theorem tapped_iff_drawn (apps : List App) (currentPage : Nat) (pos : Pos) (s : ControlCenter)
    (hs : s.Opened) (cfg : Cfg) (spawns : Bool) (k : Slider) (touch : Pos) :
    (tappedApp apps currentPage pos =
          Layers.topmost Rect.hit (drawHomeScreen apps currentPage) pos ↔
        DockClear apps currentPage pos) ∧
      ((s.Changes cfg touch spawns k ↔ (k.rect (H - 320 + s.yOffset)).hit touch = true) ↔
        ¬ControlCenter.BesideSlider touch k) := by
  rw [hs.2.1, Int.add_zero]
  exact ⟨tappedApp_eq_topmost_iff, ControlCenter.changes_iff_drawn_iff hs⟩

/-- A table of one page, and a panel that has been opened. -/
theorem tapped_iff_drawn_firstApp :
    DockClear [⟨"Terminal", 0⟩] 0 ⟨20, 140⟩ ∧
      (tappedApp [⟨"Terminal", 0⟩] 0 ⟨20, 140⟩ =
        Layers.topmost Rect.hit (drawHomeScreen [⟨"Terminal", 0⟩] 0) ⟨20, 140⟩) ∧
      ¬ControlCenter.BesideSlider ⟨100, 386⟩ .brightness ∧
      (ControlCenter.Changes
          ⟨true, 0, .int 80, .int 70, some (ControlCenter.layout (H - 320))⟩ (fun _ ↦ none)
          ⟨100, 386⟩ true .brightness ↔
        (Slider.brightness.rect (H - 320 + 0)).hit ⟨100, 386⟩ = true) := by
  have hbeside : ¬ControlCenter.BesideSlider ⟨100, 386⟩ .brightness := by
    simp [ControlCenter.BesideSlider, Slider.offset]
  have hseen : tappedApp [⟨"Terminal", 0⟩] 0 ⟨20, 140⟩ =
      Layers.topmost Rect.hit (drawHomeScreen [⟨"Terminal", 0⟩] 0) ⟨20, 140⟩ := by decide
  have hboth := tapped_iff_drawn [⟨"Terminal", 0⟩] 0 ⟨20, 140⟩
    ⟨true, 0, .int 80, .int 70, some (ControlCenter.layout (H - 320))⟩ ⟨rfl, rfl, rfl⟩
    (fun _ ↦ none) true .brightness ⟨100, 386⟩
  exact ⟨hboth.1.1 hseen, hseen, hbeside, hboth.2.2 hbeside⟩

/-- On the first page the tap goes to an app that the dock covers, and a touch in the upper half of
the brightness slider changes nothing. -/
theorem dock_covers_tapped :
    (tappedApp APPS 0 ⟨50, 430⟩ = some "Packets" ∧
      Layers.topmost Rect.hit (drawHomeScreen APPS 0) ⟨50, 430⟩ = some "Terminal") ∧
    ∃ s : ControlCenter, s.Opened ∧ (Slider.brightness.rect (H - 320)).hit ⟨100, 380⟩ = true ∧
      s.handleTouch DEFAULT_SETTINGS ⟨100, 380⟩ true = some (s, DEFAULT_SETTINGS) := by
  exact ⟨by decide, ⟨true, 0, .int 100, .int 80, some (ControlCenter.layout (H - 320))⟩,
    ⟨rfl, rfl, rfl⟩, by decide, rfl⟩

end JuliusOS.Ui
