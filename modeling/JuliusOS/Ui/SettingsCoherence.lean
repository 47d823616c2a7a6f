import JuliusOS.Foundations.Layers
import JuliusOS.Ui.ControlTouch

/-!
# Two screens over one dictionary

The settings screen and the Control Center write the same settings, and the Control Center draws
its sliders from copies of its own. Its airplane button switches WiFi and Bluetooth off, but
neither screen keeps them off while it is on, the settings screen's airplane row leaves them as
they are, and that screen's sliders do not reach the copies. A touch or a tap keeps the settings
coherent exactly if it is none of these (`coherent_touch_iff`, `coherent_tap_iff`).
-/

namespace JuliusOS.Ui

namespace Cfg

variable (cfg : Cfg) {key key' : String} (v : CfgValue)

@[simp] theorem set_self : cfg.set key v key = some v := Function.update_self ..

theorem set_of_ne (h : key' ≠ key) : cfg.set key v key' = cfg key' := Function.update_of_ne h ..

theorem get_of_eq {cfg : Cfg} {v : CfgValue} (h : cfg key = some v) (d : CfgValue) :
    cfg.get key d = v := by
  rw [get, h]
  rfl

end Cfg

/-! ### A tap on the settings screen -/

/-- A tap strictly inside the 40 pixels of a row at height `y`. -/
def rowHit (y : Int) (pos : Pos) : Bool := decide (y < pos.y ∧ pos.y < y + 40)

/-- The value a tap gives a slider of the settings screen. -/
def rowValue (x : Int) : Int := max 0 (min (x - (W - 100)) 80) * 100 / 80

theorem rowValue_mem (x : Int) : 0 ≤ rowValue x ∧ rowValue x ≤ 100 := by
  rw [rowValue]
  omega

/-- What a tap on a row does. -/
def tapRow (pos : Pos) (cfg : Cfg) (item : Item) : Cfg :=
  match item.type with
  | .toggle => cfg.toggle item.key (.bool false)
  | .slider => cfg.set item.key (.int (rowValue pos.x))
  | _ => cfg

theorem tapItem_eq (pos : Pos) (cfg : Cfg) (entry : Int × Item) :
    tapItem pos cfg entry = if rowHit entry.1 pos then tapRow pos cfg entry.2 else cfg := by
  rw [tapItem, rowHit]
  by_cases h : entry.1 < pos.y ∧ pos.y < entry.1 + 40
  · rw [if_pos h, if_pos (decide_eq_true h)]
    rfl
  · rw [if_neg h, decide_eq_false h]
    rfl

/-- Rows of the given items at heights from `y` on, 44 apart, up to `bottom`. -/
structure RowsBetween (items : List Item) (y bottom : Int) (rows : List (Int × Item)) :
    Prop where
  le : y ≤ bottom
  mem : ∀ r ∈ rows, y ≤ r.1 ∧ r.1 + 44 ≤ bottom ∧ r.2 ∈ items
  apart : rows.Pairwise fun r r' ↦ r.1 + 44 ≤ r'.1

namespace RowsBetween

variable {items items' : List Item} {y mid mid' bottom : Int} {rows rows' : List (Int × Item)}

theorem nil (items : List Item) (y : Int) : RowsBetween items y y [] where
  le := Int.le_refl y
  mem := fun _ hr ↦ absurd hr List.not_mem_nil
  apart := List.Pairwise.nil

theorem append (h : RowsBetween items y mid rows) (hmid : mid ≤ mid')
    (h' : RowsBetween items' mid' bottom rows') :
    RowsBetween (items ++ items') y bottom (rows ++ rows') where
  le := Int.le_trans h.le (Int.le_trans hmid h'.le)
  mem := by
    intro r hr
    rcases List.mem_append.1 hr with hr | hr
    · obtain ⟨h1, h2, h3⟩ := h.mem r hr
      have := h'.le
      exact ⟨h1, by omega, List.mem_append_left _ h3⟩
    · obtain ⟨h1, h2, h3⟩ := h'.mem r hr
      have := h.le
      exact ⟨by omega, h2, List.mem_append_right _ h3⟩
  apart := by
    refine List.pairwise_append.2 ⟨h.apart, h'.apart, fun r hr r' hr' ↦ ?_⟩
    have h1 := (h.mem r hr).2.1
    have h2 := (h'.mem r' hr').1
    omega

theorem lower (h : RowsBetween items y bottom rows) {y' : Int} (hy : y' ≤ y) :
    RowsBetween items y' bottom rows where
  le := Int.le_trans hy h.le
  mem := fun r hr ↦ ⟨Int.le_trans hy (h.mem r hr).1, (h.mem r hr).2⟩
  apart := h.apart

/-- No position is on two rows. -/
theorem disjoint (h : RowsBetween items y bottom rows) : Layers.Disjoint rowHit rows := by
  refine h.apart.imp fun {r r'} hle pos hhit ↦ ?_
  simp only [rowHit, decide_eq_true_eq, decide_eq_false_iff_not] at hhit ⊢
  omega

end RowsBetween

theorem drawItems_rows {cfg : Cfg} {items : List Item} {y : Int} {r : List (Int × Item) × Int}
    (h : drawItems cfg y items = some r) : RowsBetween items y r.2 r.1 := by
  induction items generalizing y r with
  | nil =>
    cases h
    exact .nil [] y
  | cons item items ih =>
    rw [drawItems] at h
    split at h
    · cases h
    · obtain ⟨rest, hrest, rfl⟩ := Option.map_eq_some_iff.1 h
      have hone : RowsBetween [item] y (y + 44) [(y, item)] :=
        ⟨by omega, by simp, List.pairwise_singleton ..⟩
      exact hone.append (Int.le_refl _) (ih hrest)

theorem drawSections_rows {cfg : Cfg} {sections : List (List Item)} {y : Int}
    {rows : List (Int × Item)} (h : drawSections cfg y sections = some rows) :
    ∃ bottom, RowsBetween sections.flatten y bottom rows := by
  induction sections generalizing y rows with
  | nil =>
    cases h
    exact ⟨y, .nil [] y⟩
  | cons items sections ih =>
    rw [drawSections] at h
    obtain ⟨r, hr, h⟩ := Option.bind_eq_some_iff.1 h
    obtain ⟨rest, hrest, rfl⟩ := Option.map_eq_some_iff.1 h
    obtain ⟨bottom, hbottom⟩ := ih hrest
    exact ⟨bottom, ((drawItems_rows hr).lower (by omega)).append (by omega) hbottom⟩

/-- Rows that some frame of the settings screen has left, or none before the first. -/
def RowsDrawn (rows : List (Int × Item)) : Prop :=
  ∃ y bottom, RowsBetween SETTINGS_SECTIONS.flatten y bottom rows

theorem rowsDrawn_nil : RowsDrawn [] :=
  ⟨0, 0, Int.le_refl 0, fun _ hr ↦ absurd hr List.not_mem_nil, List.Pairwise.nil⟩

theorem rowsDrawn_drawSettings {cfg : Cfg} {settingsScroll : Int} {rows : List (Int × Item)}
    (h : drawSettings cfg settingsScroll = some rows) : RowsDrawn rows :=
  ⟨_, drawSections_rows h⟩

/-- The row at a position. -/
def rowAt (rows : List (Int × Item)) (pos : Pos) : Option Item := Layers.found rowHit rows pos

/-- A tap on the settings screen is one on the row there. -/
theorem handleSettingsTap_eq {rows : List (Int × Item)} (h : RowsDrawn rows) (cfg : Cfg)
    (pos : Pos) : handleSettingsTap cfg pos rows = (rowAt rows pos).elim cfg (tapRow pos cfg) := by
  obtain ⟨y, bottom, hrows⟩ := h
  rw [handleSettingsTap, funext₂ (tapItem_eq pos)]
  exact hrows.disjoint.foldl_eq (tapRow pos) pos cfg

theorem mem_of_rowAt {rows : List (Int × Item)} {pos : Pos} {item : Item} (h : RowsDrawn rows)
    (hrow : rowAt rows pos = some item) : item ∈ SETTINGS_SECTIONS.flatten := by
  obtain ⟨y, bottom, hrows⟩ := h
  obtain ⟨front, top, back, rfl, -, -⟩ := Layers.found_eq_some_iff.1 hrow
  exact (hrows.mem _ (List.mem_append_right _ (List.mem_cons_self ..))).2.2

/-! ### Coherent settings -/

/-- WiFi and Bluetooth are off while airplane mode is on, and the Control Center draws the
brightness and the volume of the settings, percentages both. -/
structure Coherent (cfg : Cfg) (cc : ControlCenter) : Prop where
  airplane : cfg "airplane" = some (.bool true) →
    cfg "wifi" = some (.bool false) ∧ cfg "bluetooth" = some (.bool false)
  sliders : ∀ k : Slider, ∃ n : Int, 0 ≤ n ∧ n ≤ 100 ∧ k.value cc = .int n ∧
    cfg k.key = some (.int n)

/-- The settings that the coherence speaks of. -/
def watched : List String := ["airplane", "wifi", "bluetooth", "brightness", "volume"]

variable {cfg : Cfg} {cc cc' : ControlCenter} {key : String} {v d : CfgValue} {n : Int}

theorem coherent_congr {cfg' : Cfg} (hcfg : ∀ key ∈ watched, cfg' key = cfg key)
    (hcc : ∀ k : Slider, k.value cc' = k.value cc) : Coherent cfg' cc' ↔ Coherent cfg cc := by
  have hkey (k : Slider) : cfg' k.key = cfg k.key := hcfg _ (by cases k <;> decide)
  have hairplane := hcfg "airplane" (by decide)
  have hwifi := hcfg "wifi" (by decide)
  have hbluetooth := hcfg "bluetooth" (by decide)
  constructor
  · intro h
    refine ⟨fun hair ↦ ?_, fun k ↦ ?_⟩
    · rw [← hwifi, ← hbluetooth]
      exact h.airplane (hairplane.trans hair)
    · rw [← hcc, ← hkey]
      exact h.sliders k
  · intro h
    refine ⟨fun hair ↦ ?_, fun k ↦ ?_⟩
    · rw [hwifi, hbluetooth]
      exact h.airplane (hairplane.symm.trans hair)
    · rw [hcc, hkey]
      exact h.sliders k

/-- Another setting does not matter. -/
theorem coherent_set_iff_of_not_mem (h : key ∉ watched) :
    Coherent (cfg.set key v) cc ↔ Coherent cfg cc :=
  coherent_congr (fun _ hkey ↦ cfg.set_of_ne v fun heq ↦ h (heq ▸ hkey)) fun _ ↦ rfl

/-- Switching WiFi or Bluetooth over, which are off while airplane mode is on. -/
theorem coherent_toggle_radio_iff (h : Coherent cfg cc) (hkey : key ∈ ["wifi", "bluetooth"]) :
    Coherent (cfg.toggle key d) cc ↔ cfg "airplane" ≠ some (.bool true) := by
  have hslider (k : Slider) : k.key ≠ key := by
    rintro rfl
    cases k <;> revert hkey <;> decide
  have hne : "airplane" ≠ key := by
    rintro rfl
    revert hkey
    decide
  have hair : cfg.toggle key d "airplane" = cfg "airplane" := Cfg.set_of_ne _ _ hne
  constructor
  · intro h' hon
    have hoff : cfg key = some (.bool false) := by
      rcases List.mem_pair.1 hkey with rfl | rfl
      · exact (h.airplane hon).1
      · exact (h.airplane hon).2
    have hoff' : cfg.toggle key d key = some (.bool false) := by
      have hboth := h'.airplane (hair.trans hon)
      rcases List.mem_pair.1 hkey with rfl | rfl
      · exact hboth.1
      · exact hboth.2
    rw [Cfg.toggle, Cfg.set_self, Cfg.get_of_eq hoff] at hoff'
    exact absurd hoff' (by decide)
  · intro hon
    refine ⟨fun hon' ↦ absurd (hair.symm.trans hon') hon, fun k ↦ ?_⟩
    rw [Cfg.toggle, Cfg.set_of_ne _ _ (hslider k)]
    exact h.sliders k

/-- Switching airplane mode over and nothing else. -/
theorem coherent_toggle_airplane_iff (h : Coherent cfg cc) :
    Coherent (cfg.toggle "airplane" d) cc ↔
      ((cfg.get "airplane" d).truthy = false →
        cfg "wifi" = some (.bool false) ∧ cfg "bluetooth" = some (.bool false)) := by
  have hair : cfg.toggle "airplane" d "airplane" =
      some (.bool !(cfg.get "airplane" d).truthy) := Cfg.set_self ..
  have hwifi : cfg.toggle "airplane" d "wifi" = cfg "wifi" := Cfg.set_of_ne _ _ (by decide)
  have hbluetooth : cfg.toggle "airplane" d "bluetooth" = cfg "bluetooth" :=
    Cfg.set_of_ne _ _ (by decide)
  constructor
  · intro h' hoff
    rw [← hwifi, ← hbluetooth]
    exact h'.airplane (by rw [hair, hoff]; rfl)
  · intro hoff
    refine ⟨fun hon ↦ ?_, fun k ↦ ?_⟩
    · rw [hair, Option.some.injEq, CfgValue.bool.injEq, Bool.not_eq_true'] at hon
      rw [hwifi, hbluetooth]
      exact hoff hon
    · rw [Cfg.toggle, Cfg.set_of_ne _ _ (by cases k <;> decide)]
      exact h.sliders k

/-- The Control Center's airplane button switches the other two off. -/
theorem coherent_radios_off (h : Coherent cfg cc) :
    Coherent (((cfg.toggle "airplane" d).set "wifi" (.bool false)).set "bluetooth" (.bool false))
      cc where
  airplane := fun _ ↦ ⟨(Cfg.set_of_ne _ _ (by decide)).trans (Cfg.set_self ..), Cfg.set_self ..⟩
  sliders := fun k ↦ by
    rw [Cfg.set_of_ne _ _ (by cases k <;> decide), Cfg.set_of_ne _ _ (by cases k <;> decide),
      Cfg.toggle, Cfg.set_of_ne _ _ (by cases k <;> decide)]
    exact h.sliders k

theorem Slider.key_injective {k k' : Slider} (h : k'.key = k.key) : k' = k := by
  cases k <;> cases k' <;> first | rfl | exact absurd h (by decide)

/-- A percentage given to both. -/
theorem coherent_withValue (h : Coherent cfg cc) (k : Slider) (h0 : 0 ≤ n) (h100 : n ≤ 100) :
    Coherent (cfg.set k.key (.int n)) (k.withValue cc (.int n)) where
  airplane := by
    rw [Cfg.set_of_ne _ _ (by cases k <;> decide), Cfg.set_of_ne _ _ (by cases k <;> decide),
      Cfg.set_of_ne _ _ (by cases k <;> decide)]
    exact h.airplane
  sliders := by
    intro k'
    by_cases hk : k' = k
    · subst hk
      exact ⟨n, h0, h100, Slider.value_withValue .., Cfg.set_self ..⟩
    · rw [Slider.value_withValue_of_ne hk, Cfg.set_of_ne _ _ (mt Slider.key_injective hk)]
      exact h.sliders k'

/-- A value given to the settings alone. -/
theorem coherent_set_slider_iff (h : Coherent cfg cc) (k : Slider) (h0 : 0 ≤ n) (h100 : n ≤ 100) :
    Coherent (cfg.set k.key (.int n)) cc ↔ k.value cc = .int n := by
  constructor
  · intro h'
    obtain ⟨m, -, -, hm, hset⟩ := h'.sliders k
    rw [Cfg.set_self, Option.some.injEq] at hset
    rw [hm, hset]
  · intro hv
    have hself : k.withValue cc (.int n) = cc := by
      cases k <;> exact hv ▸ rfl
    exact hself ▸ coherent_withValue h k h0 h100

/-- The settings that the program starts with where there is no settings file. -/
theorem coherent_default : Coherent DEFAULT_SETTINGS (ControlCenter.init DEFAULT_SETTINGS) where
  airplane := by decide
  sliders := fun k ↦ by
    cases k
    · exact ⟨100, by decide, by decide, rfl, rfl⟩
    · exact ⟨80, by decide, by decide, rfl, rfl⟩

/-! ### Taps that keep the settings coherent -/

/-- The button is not one that switches a radio over in airplane mode. -/
def ButtonOk (cfg : Cfg) (t : Toggle) : Prop :=
  cfg "airplane" = some (.bool true) → t ≠ .wifi ∧ t ≠ .bt

/-- The row does not switch a radio over in airplane mode or airplane mode on with a radio on, and
a slider of it stands in the Control Center already where the tap sets it. -/
def RowOk (cfg : Cfg) (cc : ControlCenter) (pos : Pos) (item : Item) : Prop :=
  match item.type with
  | .toggle =>
    (item.key ∈ ["wifi", "bluetooth"] → cfg "airplane" ≠ some (.bool true)) ∧
      (item.key = "airplane" → (cfg.get "airplane" (.bool false)).truthy = false →
        cfg "wifi" = some (.bool false) ∧ cfg "bluetooth" = some (.bool false))
  | .slider => ∀ k : Slider, item.key = k.key → k.value cc = .int (rowValue pos.x)
  | _ => True

theorem coherent_act_iff {cfg' : Cfg} {spawns : Bool} {t : Toggle} (h : Coherent cfg cc)
    (hact : t.act cfg spawns = some cfg') : Coherent cfg' cc ↔ ButtonOk cfg t := by
  cases t with
  | wifi =>
    rw [Toggle.act] at hact
    split at hact
    · cases hact
      rw [coherent_toggle_radio_iff h (by decide), ButtonOk]
      simp
    · cases hact
  | bt =>
    cases hact
    rw [coherent_toggle_radio_iff h (by decide), ButtonOk]
    simp
  | airplane =>
    refine iff_of_true ?_ fun _ ↦ ⟨by decide, by decide⟩
    simp only [Toggle.act] at hact
    split at hact
    · cases hact
      exact coherent_radios_off h
    next hoff =>
      cases hact
      rw [Cfg.toggle, Cfg.get_of_eq (Cfg.set_self ..)] at hoff
      refine (coherent_toggle_airplane_iff h).2 fun hfalse ↦ absurd ?_ hoff
      rw [CfgValue.negate, hfalse]
      rfl
  | hotspot =>
    cases hact
    exact iff_of_true ((coherent_set_iff_of_not_mem (by decide)).2 h)
      fun _ ↦ ⟨by decide, by decide⟩
  | idle =>
    cases hact
    exact iff_of_true h fun _ ↦ ⟨by decide, by decide⟩

/-- A slider row is that of a slider, and a switch row none. -/
theorem key_of_mem_sections {item : Item} (h : item ∈ SETTINGS_SECTIONS.flatten) :
    (item.type = .slider → ∃ k : Slider, item.key = k.key) ∧
      (item.type = .toggle →
        item.key ∈ ["wifi", "bluetooth"] ∨ item.key = "airplane" ∨ item.key ∉ watched) := by
  have hall : SETTINGS_SECTIONS.flatten.all (fun item ↦
      (item.type != .slider || item.key == "brightness" || item.key == "volume") &&
        (item.type != .toggle || item.key == "wifi" || item.key == "bluetooth" ||
          item.key == "airplane" || !watched.contains item.key)) = true := by decide
  have hitem := List.all_eq_true.1 hall item h
  simp only [Bool.and_eq_true, Bool.or_eq_true, bne_iff_ne, ne_eq, beq_iff_eq,
    Bool.not_eq_true', List.contains_eq_mem, decide_eq_false_iff_not] at hitem
  refine ⟨fun htype ↦ ?_, fun htype ↦ ?_⟩
  · rcases hitem.1 with (hne | hkey) | hkey
    · exact absurd htype hne
    · exact ⟨.brightness, hkey⟩
    · exact ⟨.volume, hkey⟩
  · rcases hitem.2 with (((hne | hkey) | hkey) | hkey) | hkey
    · exact absurd htype hne
    · exact .inl (List.mem_pair.2 (.inl hkey))
    · exact .inl (List.mem_pair.2 (.inr hkey))
    · exact .inr (.inl hkey)
    · exact .inr (.inr hkey)

theorem coherent_tapRow_iff {pos : Pos} {item : Item} (h : Coherent cfg cc)
    (hitem : item ∈ SETTINGS_SECTIONS.flatten) :
    Coherent (tapRow pos cfg item) cc ↔ RowOk cfg cc pos item := by
  obtain ⟨key, type⟩ := item
  cases type with
  | text => exact iff_of_true h trivial
  | info => exact iff_of_true h trivial
  | toggle =>
    show Coherent (cfg.toggle key (.bool false)) cc ↔
      (key ∈ ["wifi", "bluetooth"] → cfg "airplane" ≠ some (.bool true)) ∧
        (key = "airplane" → (cfg.get "airplane" (.bool false)).truthy = false →
          cfg "wifi" = some (.bool false) ∧ cfg "bluetooth" = some (.bool false))
    rcases (key_of_mem_sections hitem).2 rfl with hradio | rfl | hother
    · have hne : key ≠ "airplane" := by
        rintro rfl
        exact absurd hradio (by decide)
      rw [coherent_toggle_radio_iff h hradio]
      exact ⟨fun hon ↦ ⟨fun _ ↦ hon, fun heq ↦ absurd heq hne⟩, fun hok ↦ hok.1 hradio⟩
    · rw [coherent_toggle_airplane_iff h]
      exact ⟨fun hoff ↦ ⟨fun hmem ↦ absurd hmem (by decide), fun _ ↦ hoff⟩, fun hok ↦ hok.2 rfl⟩
    · refine iff_of_true ((coherent_set_iff_of_not_mem hother).2 h) ⟨?_, ?_⟩
      · intro hradio
        refine absurd ?_ hother
        rcases List.mem_pair.1 hradio with rfl | rfl <;> decide
      · rintro rfl
        exact absurd (by decide) hother
  | slider =>
    obtain ⟨k, hk⟩ := (key_of_mem_sections hitem).1 rfl
    obtain rfl : key = k.key := hk
    obtain ⟨h0, h100⟩ := rowValue_mem pos.x
    refine (coherent_set_slider_iff h k h0 h100).trans ⟨fun hv k' hkey ↦ ?_, fun hok ↦ hok k rfl⟩
    rw [← Slider.key_injective hkey]
    exact hv

/-! ### A touch and a tap -/

theorem ControlCenter.draw_value {c : ControlCenter} (h : cc.draw = some c) (k : Slider) :
    k.value c = k.value cc := by
  rw [draw] at h
  split at h
  · cases h
    rfl
  · by_cases hnumber : (cc.brightness.isNumber && cc.volume.isNumber) = true
    · cases (if_pos hnumber).symm.trans h
      cases k <;> rfl
    · cases (if_neg hnumber).symm.trans h

theorem coherent_touch_iff {pos : Pos} {spawns : Bool} {r : ControlCenter × Cfg}
    (h : Coherent cfg cc) (htouch : cc.handleTouch cfg pos spawns = some r) :
    Coherent r.2 r.1 ↔ ∀ t, cc.buttonAt pos = some t → ButtonOk cfg t := by
  obtain ⟨t, cfg', hbutton, hact, rfl⟩ | ⟨hbutton, hr⟩ := ControlCenter.handleTouch_cases htouch
  · rw [hbutton]
    simp only [Option.some.injEq, forall_eq']
    exact coherent_act_iff h hact
  · refine iff_of_true ?_ fun t ht ↦ ?_
    · obtain rfl | rfl | ⟨k, -, rfl⟩ := hr
      · exact h
      · exact (coherent_congr (fun _ _ ↦ rfl) fun k ↦ by cases k <;> rfl).2 h
      · obtain ⟨h0, h100⟩ := ControlCenter.sliderValue_mem pos.x
        exact coherent_withValue h k h0 h100
    · rw [hbutton] at ht
      cases ht

theorem coherent_tap_iff {pos : Pos} {rows : List (Int × Item)} (h : Coherent cfg cc)
    (hrows : RowsDrawn rows) :
    Coherent (handleSettingsTap cfg pos rows) cc ↔
      ∀ item, rowAt rows pos = some item → RowOk cfg cc pos item := by
  rw [handleSettingsTap_eq hrows]
  cases hrow : rowAt rows pos with
  | none => exact iff_of_true h fun item hitem ↦ by cases hitem
  | some item =>
    simp only [Option.elim_some, Option.some.injEq, forall_eq']
    exact coherent_tapRow_iff h (mem_of_rowAt hrows hrow)

end JuliusOS.Ui
