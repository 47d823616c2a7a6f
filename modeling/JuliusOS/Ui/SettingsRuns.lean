import JuliusOS.Foundations.Machine
import JuliusOS.Ui.SettingsCoherence

/-!
# Runs of the two settings screens

The settings, the Control Center and the rows of the settings screen are a machine with six kinds of
steps. The settings are coherent in every state of a run exactly if they are coherent when they are
loaded and no step of the run tears them apart (`settings_coherent_iff`).
-/

namespace JuliusOS.Ui

/-- The settings with the two screens that change them. -/
structure SharedSettings where
  cfg : Cfg
  controlCenter : ControlCenter
  itemsFlatCache : List (Int × Item)

/-- What the main loop does with the two screens; a touch of the Control Center and a tap on the
settings screen are the ones that may change the settings. -/
inductive SettingsEvent
  | showCc
  | hideCc
  | frameCc
  | touchCc (pos : Pos) (spawns : Bool)
  | frameSettings (settingsScroll : Int)
  | tapSettings (pos : Pos)
deriving DecidableEq, Repr

namespace SharedSettings

/-- The settings as they are loaded, and a Control Center made from them. -/
def init (cfg : Cfg) : SharedSettings := ⟨cfg, .init cfg, []⟩

def step (w : SharedSettings) : SettingsEvent → Option SharedSettings
  | .showCc => some { w with controlCenter := w.controlCenter.show' }
  | .hideCc => some { w with controlCenter := w.controlCenter.hide }
  | .frameCc => w.controlCenter.draw.map fun c ↦ { w with controlCenter := c }
  | .touchCc pos spawns =>
    (w.controlCenter.handleTouch w.cfg pos spawns).map fun r ↦
      { w with controlCenter := r.1, cfg := r.2 }
  | .frameSettings settingsScroll =>
    (drawSettings w.cfg settingsScroll).map fun items ↦ { w with itemsFlatCache := items }
  | .tapSettings pos => some { w with cfg := handleSettingsTap w.cfg pos w.itemsFlatCache }

def machine : Machine SharedSettings SettingsEvent where
  Init w := ∃ cfg, w = init cfg
  step := step

/-- The step is none of those that tear the settings apart. -/
def Ok (w : SharedSettings) : SettingsEvent → Prop
  | .touchCc pos _ => ∀ t, w.controlCenter.buttonAt pos = some t → ButtonOk w.cfg t
  | .tapSettings pos =>
    ∀ item, rowAt w.itemsFlatCache pos = some item → RowOk w.cfg w.controlCenter pos item
  | _ => True

variable {w w' : SharedSettings}

/-- **One step.** From coherent settings a step leads to coherent ones exactly if it is none of
those that tear them apart. -/
theorem step_coherent (hrows : RowsDrawn w.itemsFlatCache) (h : Coherent w.cfg w.controlCenter)
    {e : SettingsEvent} (hstep : w.step e = some w') :
    RowsDrawn w'.itemsFlatCache ∧ (w.Ok e ↔ Coherent w'.cfg w'.controlCenter) := by
  have hkept {c : ControlCenter} (hc : ∀ k : Slider, k.value c = k.value w.controlCenter) :
      Coherent w.cfg c := (coherent_congr (fun _ _ ↦ rfl) hc).2 h
  cases e with
  | showCc =>
    cases hstep
    exact ⟨hrows, iff_of_true trivial (hkept fun k ↦ by cases k <;> rfl)⟩
  | hideCc =>
    cases hstep
    exact ⟨hrows, iff_of_true trivial (hkept fun k ↦ by cases k <;> rfl)⟩
  | frameCc =>
    obtain ⟨c, hc, rfl⟩ := Option.map_eq_some_iff.1 hstep
    exact ⟨hrows, iff_of_true trivial (hkept (ControlCenter.draw_value hc))⟩
  | touchCc pos spawns =>
    obtain ⟨r, hr, rfl⟩ := Option.map_eq_some_iff.1 hstep
    exact ⟨hrows, (coherent_touch_iff h hr).symm⟩
  | frameSettings settingsScroll =>
    obtain ⟨rows, hdraw, rfl⟩ := Option.map_eq_some_iff.1 hstep
    exact ⟨rowsDrawn_drawSettings hdraw, iff_of_true trivial h⟩
  | tapSettings pos =>
    cases hstep
    exact ⟨hrows, (coherent_tap_iff h hrows).symm⟩

/-- **The settings are coherent in every state of a run** exactly if they are at its start and no
step of it tears them apart. -/
theorem settings_coherent_iff {cfg : Cfg} {es : List SettingsEvent} {w : SharedSettings}
    (hrun : machine.run (init cfg) es = some w) :
    (∀ n u, machine.run (init cfg) (es.take n) = some u → Coherent u.cfg u.controlCenter) ↔
      Coherent cfg (.init cfg) ∧ machine.Guarded Ok (init cfg) es := by
  have hiff (h : Coherent cfg (.init cfg)) :=
    Machine.guarded_iff_forall_take (J := fun u ↦ RowsDrawn u.itemsFlatCache)
      (I := fun u ↦ Coherent u.cfg u.controlCenter)
      (fun _ _ _ hrows hu hstep ↦ step_coherent hrows hu hstep) rowsDrawn_nil h hrun
  constructor
  · intro hall
    have h : Coherent cfg (.init cfg) := hall 0 (init cfg) rfl
    exact ⟨h, (hiff h).2 hall⟩
  · rintro ⟨h, hguard⟩
    exact (hiff h).1 hguard

/-- The rows of the settings screen with the default settings, not scrolled. -/
def defaultRows : List (Int × Item) := (drawSettings DEFAULT_SETTINGS 0).getD []

/-- The settings after a tap on the hotspot row. -/
def hotspotOn : SharedSettings :=
  ⟨DEFAULT_SETTINGS.toggle "hotspot" (.bool false), .init DEFAULT_SETTINGS, defaultRows⟩

/-- The settings screen is drawn, and its hotspot row tapped. -/
theorem settings_coherent_iff_hotspot : Coherent hotspotOn.cfg hotspotOn.controlCenter := by
  have hframe : machine.step (init DEFAULT_SETTINGS) (.frameSettings 0) =
      some ⟨DEFAULT_SETTINGS, .init DEFAULT_SETTINGS, defaultRows⟩ := rfl
  have hrun : machine.run (init DEFAULT_SETTINGS)
      [.frameSettings 0, .tapSettings ⟨280, 310⟩] = some hotspotOn := rfl
  refine (settings_coherent_iff hrun).2 ⟨coherent_default, trivial, fun w hw ↦ ?_⟩ 2 _ hrun
  obtain rfl := Option.some.inj (hframe.symm.trans hw)
  refine ⟨fun item hitem ↦ ?_, fun _ _ ↦ trivial⟩
  have hrow : rowAt defaultRows ⟨280, 310⟩ = some ⟨"hotspot", .toggle⟩ := by decide
  obtain rfl := Option.some.inj (hrow.symm.trans hitem)
  exact ⟨fun hmem ↦ absurd hmem (by decide), fun heq ↦ absurd heq (by decide)⟩

/-- Airplane mode is switched on on the settings screen, and WiFi stays on. -/
theorem airplane_keeps_wifi :
    ∃ w, machine.run (init DEFAULT_SETTINGS)
        [.frameSettings 0, .tapSettings ⟨280, 360⟩] = some w ∧
      w.cfg "airplane" = some (.bool true) ∧ w.cfg "wifi" = some (.bool true) :=
  ⟨⟨DEFAULT_SETTINGS.toggle "airplane" (.bool false), .init DEFAULT_SETTINGS, defaultRows⟩, rfl,
    by decide, by decide⟩

end SharedSettings

end JuliusOS.Ui
