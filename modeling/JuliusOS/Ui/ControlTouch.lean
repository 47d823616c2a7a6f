import JuliusOS.Ui.Panels

/-!
# What a touch of the Control Center does

A touch above the panel hides it, one on a button does what the button does, and one in the band
below a slider sets it, the panel's copy and the settings alike (`handleTouch_cases`). The band
begins ten pixels below the upper edge of the slider that is drawn.
-/

namespace JuliusOS.Ui

/-- The sliders, from above. -/
inductive Slider
  | brightness
  | volume
deriving DecidableEq, Repr

namespace Slider

def key : Slider → String
  | brightness => "brightness"
  | volume => "volume"

/-- How far below the first slider `draw` and `handle_touch` put it. -/
def offset : Slider → Int
  | brightness => 0
  | volume => 44

/-- The value the panel draws. -/
def value (s : ControlCenter) : Slider → CfgValue
  | brightness => s.brightness
  | volume => s.volume

/-- The panel with another value of the slider. -/
def withValue (s : ControlCenter) (v : CfgValue) : Slider → ControlCenter
  | brightness => { s with brightness := v }
  | volume => { s with volume := v }

/-- Where `draw` puts the slider in a panel whose upper edge is at `py`. -/
def rect (py : Int) (k : Slider) : Rect :=
  let tsz : Int := 64
  let ty := py + 52
  let ty2 := ty + tsz + 10
  let sy1 := ty2 + tsz + 24
  ⟨16, sy1 + k.offset, W - 32, 16⟩

@[simp] theorem value_withValue (s : ControlCenter) (v : CfgValue) (k : Slider) :
    k.value (k.withValue s v) = v := by cases k <;> rfl

theorem value_withValue_of_ne {k k' : Slider} (h : k' ≠ k) (s : ControlCenter) (v : CfgValue) :
    k'.value (k.withValue s v) = k'.value s := by
  cases k <;> cases k' <;> first | rfl | exact absurd rfl h

/-- The band in which a touch is one of the slider. -/
def TouchBand (pos : Pos) (k : Slider) : Prop :=
  16 ≤ pos.x ∧ pos.x ≤ 304 ∧ 384 + k.offset ≤ pos.y ∧ pos.y ≤ 400 + k.offset

theorem touchBand_brightness_iff {pos : Pos} :
    TouchBand pos brightness ↔ 16 ≤ pos.x ∧ pos.x ≤ W - 16 ∧
      (H - 320 + 52 + 64 * 2 + 10 * 2 + 24) ≤ pos.y ∧
      pos.y ≤ (H - 320 + 52 + 64 * 2 + 10 * 2 + 24) + 16 := by
  simp only [TouchBand, offset, H, W]
  omega

theorem touchBand_volume_iff {pos : Pos} :
    TouchBand pos volume ↔ 16 ≤ pos.x ∧ pos.x ≤ W - 16 ∧
      (H - 320 + 52 + 64 * 2 + 10 * 2 + 24) + 44 ≤ pos.y ∧
      pos.y ≤ (H - 320 + 52 + 64 * 2 + 10 * 2 + 24) + 60 := by
  simp only [TouchBand, offset, H, W]
  omega

end Slider

theorem Rect.hit_iff {r : Rect} {pos : Pos} :
    r.hit pos = true ↔
      r.x ≤ pos.x ∧ pos.x ≤ r.x + r.w ∧ r.y ≤ pos.y ∧ pos.y ≤ r.y + r.h :=
  decide_eq_true_iff

namespace ControlCenter

variable {s : ControlCenter} {cfg : Cfg} {pos : Pos} {spawns : Bool} {k : Slider}

/-- The button that a touch hits, among those the last frame left. -/
def buttonAt (s : ControlCenter) (pos : Pos) : Option Toggle :=
  if s.visible && !decide (pos.y < H - 320) then
    ((s.toggleRects.getD []).find? fun r ↦ r.1.hit pos).map Prod.snd
  else none

theorem sliderValue_mem (x : Int) : 0 ≤ sliderValue x ∧ sliderValue x ≤ 100 := by
  rw [sliderValue]
  omega

/-- A touch that is not one of a button hides the panel, sets a slider or does nothing. -/
theorem handleTouch_cases {r : ControlCenter × Cfg} (h : s.handleTouch cfg pos spawns = some r) :
    (∃ t cfg', s.buttonAt pos = some t ∧ t.act cfg spawns = some cfg' ∧ r = (s, cfg')) ∨
      s.buttonAt pos = none ∧ (r = (s, cfg) ∨ r = (s.hide, cfg) ∨
        ∃ k, Slider.TouchBand pos k ∧
          r = (k.withValue s (.int (sliderValue pos.x)),
            cfg.set k.key (.int (sliderValue pos.x)))) := by
  rw [handleTouch] at h
  cases hvis : s.visible with
  | false =>
    rw [hvis] at h
    cases h
    exact .inr ⟨by rw [buttonAt, hvis]; rfl, .inl rfl⟩
  | true =>
    replace h := (if_neg (by rw [hvis]; decide)).symm.trans h
    by_cases hpy : pos.y < H - 320
    · cases (if_pos hpy).symm.trans h
      refine .inr ⟨?_, .inr (.inl rfl)⟩
      rw [buttonAt, decide_eq_true hpy, Bool.not_true, Bool.and_false]
      rfl
    · replace h := (if_neg hpy).symm.trans h
      obtain ⟨rects, hrects, h⟩ := Option.bind_eq_some_iff.1 h
      have hbutton : s.buttonAt pos = (rects.find? fun r ↦ r.1.hit pos).map Prod.snd := by
        rw [buttonAt, hvis, decide_eq_false hpy, hrects]
        rfl
      cases hfind : rects.find? fun r ↦ r.1.hit pos with
      | some b =>
        simp only [hfind] at h
        obtain ⟨cfg', hact, rfl⟩ := Option.map_eq_some_iff.1 h
        exact .inl ⟨b.2, cfg', by rw [hbutton, hfind]; rfl, hact, rfl⟩
      | none =>
        simp only [hfind] at h
        refine .inr ⟨by rw [hbutton, hfind]; rfl, ?_⟩
        split at h
        next hin =>
          cases h
          exact .inr (.inr ⟨.brightness, Slider.touchBand_brightness_iff.2 hin, rfl⟩)
        split at h
        next hin =>
          cases h
          exact .inr (.inr ⟨.volume, Slider.touchBand_volume_iff.2 hin, rfl⟩)
        cases h
        exact .inl rfl

/-- The buttons end above the sliders. -/
theorem find?_layout_eq_none (h : 374 ≤ pos.y) :
    (layout (H - 320)).find? (fun r ↦ r.1.hit pos) = none := by
  rw [List.find?_eq_none]
  intro r hr
  rw [Rect.hit_iff]
  simp only [layout, List.mapIdx_cons, List.mapIdx_nil, List.mem_append, List.mem_cons,
    List.not_mem_nil, or_false] at hr
  rcases hr with (rfl | rfl | rfl | rfl) | rfl | rfl | rfl | rfl <;> simp only [H] <;> omega

/-- In a panel that is in its place a touch in its band sets a slider. -/
theorem handleTouch_of_touchBand (hvis : s.visible = true)
    (hrects : s.toggleRects = some (layout (H - 320))) (hband : Slider.TouchBand pos k) :
    s.handleTouch cfg pos spawns = some (k.withValue s (.int (sliderValue pos.x)),
      cfg.set k.key (.int (sliderValue pos.x))) := by
  have hoffset : 0 ≤ k.offset := by cases k <;> decide
  have htop := hband.2.2.1
  have hbelow : ¬pos.y < H - 320 := by
    simp only [H]
    omega
  rw [handleTouch, if_neg (by rw [hvis]; decide)]
  refine (if_neg hbelow).trans (Option.bind_eq_some_iff.2 ⟨layout (H - 320), hrects, ?_⟩)
  rw [find?_layout_eq_none (by omega)]
  cases k with
  | brightness => exact if_pos (Slider.touchBand_brightness_iff.1 hband)
  | volume =>
    have hout : ¬Slider.TouchBand pos .brightness := by
      simp only [Slider.TouchBand, Slider.offset] at hband ⊢
      omega
    exact (if_neg (mt Slider.touchBand_brightness_iff.2 hout)).trans
      (if_pos (Slider.touchBand_volume_iff.1 hband))

end ControlCenter

end JuliusOS.Ui
