import JuliusOS.Foundations.Stdio

/-!
# The power manager

An iteration of `julius_power` reads the capacity, the charging current and the status of the
battery, writes them to a state file, shuts the machine down if the battery is critical, and sets
the brightness of the screen. A capacity that cannot be read is the level -1, and a level is
critical from 5 down; and the brightness of 64 for levels below 10 stands behind the test for
levels below 20, where it is never reached.

* `powerIteration` is what an iteration puts out, for any content of the files;
* `PolicySound` is what it is for: it shuts down only for a level that was read and is at most 5,
  when nothing charges the battery, and it dims the screen of a discharging battery in three steps;
* `policySound_iff` says that this is so exactly if the battery is charging or full, or a level of
  10 or more was read.
-/

open Bytes CString Stdio

namespace JuliusOS.Power

/-! ### The program -/

/-- `PowerState`. -/
inductive PowerState
  | normal | low | critical | charging | full
deriving DecidableEq

/-- The number of a state. -/
def PowerState.code : PowerState → ℕ
  | normal => 0
  | low => 1
  | critical => 2
  | charging => 3
  | full => 4

/-- `BatteryInfo`. -/
structure BatteryInfo where
  level : ℤ
  state : PowerState
  charging : Bool
  currentMa : ℤ
  status : Buf 32

/-- What the files hold, if they can be opened. -/
structure Files where
  /-- `BATTERY_CAPACITY`. -/
  capacity : Option Bytes
  /-- `CHARGING_CURRENT`. -/
  current : Option Bytes
  /-- `BATTERY_STATUS`. -/
  status : Option Bytes
  /-- Whether `POWER_STATE_FILE` can be opened for writing. -/
  fopenState : Bool

/-- The `int` that `fscanf(f, "%d", &val)` reads, if there is one. -/
def scannedInt (file : Option Bytes) : Option ℤ :=
  file.bind fun content ↦
    match (Directive.int true).scan content with
    | some (.number z :: _, _) => some z
    | _ => none

/-- `read_int_file`. -/
def readIntFile (file : Option Bytes) : ℤ := (scannedInt file).getD (-1)

/-- `read_str_file` into a buffer of zeros. -/
def readStrFile (file : Option Bytes) : Buf 32 :=
  match file with
  | none => .zero 32
  | some content => (Buf.zero 32).fgetsLine content

/-- `get_battery_info`. -/
def getBatteryInfo (w : Files) : BatteryInfo :=
  let level := readIntFile w.capacity
  let status := readStrFile w.status
  let charging :=
    strcmpEq status.bytes (ofAscii "Charging") || strcmpEq status.bytes (ofAscii "Full")
  { level := level
    state :=
      if charging && 100 ≤ level then .full
      else if charging then .charging
      else if level ≤ 5 then .critical
      else if level ≤ 15 then .low
      else .normal
    charging := charging
    -- division in C rounds towards zero
    currentMa := (readIntFile w.current).tdiv 1000
    status := status }

/-- What an iteration does. -/
inductive Output
  /-- The state file is written. -/
  | state (lines : List String)
  /-- `system(cmd)`. -/
  | system (cmd : String)
deriving DecidableEq

/-- `save_power_state`. -/
def savePowerState (w : Files) (info : BatteryInfo) : List Output :=
  if w.fopenState then
    [.state ["level=" ++ toString info.level, "charging=" ++ if info.charging then "1" else "0",
      "state=" ++ toString info.state.code, "current=" ++ toString info.currentMa]]
  else []

/-- `handle_low_battery`. -/
def handleLowBattery (info : BatteryInfo) : List Output :=
  if info.state = .critical then
    [.system "julius_notify 'Battery critical! Shutting down...'", .system "poweroff"]
  else if info.state = .low then [.system "julius_notify 'Low battery! Please charge.'"]
  else []

/-- The command that sets the brightness. -/
def brightnessCommand (brightness : ℕ) : String :=
  "echo " ++ toString brightness ++ " > /sys/class/backlight/julius_bl/brightness"

/-- `set_brightness_for_battery`. -/
def setBrightnessForBattery (info : BatteryInfo) : List Output :=
  let brightness :=
    if info.level < 20 && !info.charging then 128
    else if info.level < 10 && !info.charging then 64
    else 255
  [.system (brightnessCommand brightness)]

/-- An iteration of the loop. -/
def powerIteration (w : Files) : List Output :=
  let info := getBatteryInfo w
  savePowerState w info ++ handleLowBattery info ++ setBrightnessForBattery info

/-! ### What it is for -/

/-- The text of the status file, as far as the buffer holds it. -/
def statusText (file : Option Bytes) : Bytes :=
  (file.map fun content ↦ cstr ((firstLine content).take 31)).getD []

/-- The battery is charging or full. -/
def Charging (w : Files) : Prop :=
  statusText w.status = ofAscii "Charging" ∨ statusText w.status = ofAscii "Full"

instance (w : Files) : Decidable (Charging w) := inferInstanceAs (Decidable (_ ∨ _))

/-- The brightness for a level of a discharging battery. -/
def brightnessFor (level : ℤ) : ℕ := if level < 10 then 64 else if level < 20 then 128 else 255

/-- More is brighter. -/
theorem brightnessFor_le_brightnessFor {a b : ℤ} (hab : a ≤ b) :
    brightnessFor a ≤ brightnessFor b := by
  rw [brightnessFor, brightnessFor]
  split_ifs <;> omega

/-- **What an iteration is for**: it powers off only if a level of at most 5 was read and the
battery is neither charging nor full, and in the end it sets the brightness that the level of a
discharging battery calls for. -/
structure PolicySound (w : Files) : Prop where
  poweroff : Output.system "poweroff" ∈ powerIteration w →
    (∃ level ≤ 5, scannedInt w.capacity = some level) ∧ ¬ Charging w
  brightness : ∀ level, scannedInt w.capacity = some level → ¬ Charging w →
    (powerIteration w).getLast? = some (.system (brightnessCommand (brightnessFor level)))

/-! ### The battery -/

variable {w : Files}

/-- The status in the buffer is the file's text. -/
theorem cstr_readStrFile (file : Option Bytes) :
    cstr (readStrFile file).bytes = statusText file := by
  cases file with
  | none => decide
  | some content =>
    show cstr (cutNewline (fgets (Buf.zero 32).bytes 32 content)) =
      cstr ((firstLine content).take 31)
    rw [cstr_cutNewline]
    by_cases hcontent : content = []
    · rw [hcontent]
      decide
    · rw [firstLine_cstr_fgets (by decide) hcontent]

theorem charging_getBatteryInfo : (getBatteryInfo w).charging = true ↔ Charging w := by
  have hword : cstr (ofAscii "Charging") = ofAscii "Charging" ∧
      cstr (ofAscii "Full") = ofAscii "Full" := by decide
  rw [getBatteryInfo, Bool.or_eq_true, strcmpEq_iff, strcmpEq_iff, cstr_readStrFile, hword.1,
    hword.2, Charging]

theorem level_getBatteryInfo : (getBatteryInfo w).level = (scannedInt w.capacity).getD (-1) := rfl

/-- A battery is critical exactly if it is not charging and its level is at most 5. -/
theorem state_eq_critical_iff :
    (getBatteryInfo w).state = .critical ↔ ¬ Charging w ∧ (getBatteryInfo w).level ≤ 5 := by
  rw [← charging_getBatteryInfo]
  have hstate : (getBatteryInfo w).state =
      if (getBatteryInfo w).charging && decide (100 ≤ (getBatteryInfo w).level) then .full
      else if (getBatteryInfo w).charging then .charging
      else if (getBatteryInfo w).level ≤ 5 then .critical
      else if (getBatteryInfo w).level ≤ 15 then .low
      else .normal := rfl
  rw [hstate]
  cases (getBatteryInfo w).charging with
  | true => simp only [Bool.true_and, not_true_eq_false, false_and, iff_false]; split_ifs <;> simp
  | false =>
    simp only [Bool.false_and, Bool.false_eq_true, if_false, not_false_eq_true, true_and]
    split_ifs with hlevel hlow
    · exact iff_of_true rfl hlevel
    · exact iff_of_false not_false hlevel
    · exact iff_of_false not_false hlevel

theorem brightnessCommand_ne_poweroff (brightness : ℕ) :
    brightnessCommand brightness ≠ "poweroff" := by
  intro h
  have hecho : "echo ".toList = ['e', 'c', 'h', 'o', ' '] := by decide
  have hhead := congrArg (fun s : String ↦ s.toList.head?) h
  simp only [brightnessCommand, String.toList_append, hecho, List.cons_append,
    List.head?_cons] at hhead
  exact absurd hhead (by decide)

/-- **Powering off** is what a critical battery leads to, and nothing else. -/
theorem poweroff_mem_iff :
    Output.system "poweroff" ∈ powerIteration w ↔
      ¬ Charging w ∧ (scannedInt w.capacity).getD (-1) ≤ 5 := by
  rw [← level_getBatteryInfo, ← state_eq_critical_iff, powerIteration]
  have hsave : Output.system "poweroff" ∉ savePowerState w (getBatteryInfo w) := by
    rw [savePowerState]
    split <;> simp
  have hbrightness : Output.system "poweroff" ∉ setBrightnessForBattery (getBatteryInfo w) := by
    rw [setBrightnessForBattery, List.mem_singleton, Output.system.injEq]
    exact (brightnessCommand_ne_poweroff _).symm
  simp only [List.mem_append, hsave, hbrightness, false_or, or_false, handleLowBattery]
  split_ifs with hcritical hlow
  · exact iff_of_true (by simp) hcritical
  · exact iff_of_false (by simp) hcritical
  · exact iff_of_false List.not_mem_nil hcritical

/-- The last thing that is done is to set the brightness. -/
theorem getLast?_powerIteration (w : Files) :
    (powerIteration w).getLast? = some (.system (brightnessCommand
      (if (getBatteryInfo w).level < 20 && !(getBatteryInfo w).charging then 128
        else if (getBatteryInfo w).level < 10 && !(getBatteryInfo w).charging then 64
        else 255))) := List.getLast?_concat

/-- The screen of a discharging battery is right for levels of 10 and more. -/
theorem brightness_iff {level : ℤ} (hlevel : scannedInt w.capacity = some level)
    (hcharging : ¬ Charging w) :
    (powerIteration w).getLast? = some (.system (brightnessCommand (brightnessFor level))) ↔
      10 ≤ level := by
  have hread : (getBatteryInfo w).level = level := by
    rw [level_getBatteryInfo, hlevel, Option.getD_some]
  have hnot : (getBatteryInfo w).charging = false := by
    rw [← Bool.not_eq_true, charging_getBatteryInfo]
    exact hcharging
  rw [getLast?_powerIteration, hread, hnot, brightnessFor]
  simp only [Bool.not_false, Bool.and_true, decide_eq_true_eq, Option.some.injEq,
    Output.system.injEq]
  split_ifs with h20 h10 h10
  · have hne : brightnessCommand 128 ≠ brightnessCommand 64 := by decide +kernel
    exact iff_of_false hne (by omega)
  · exact iff_of_true rfl (by omega)
  · omega
  · exact iff_of_true rfl (by omega)

/-- **The exact condition for a sound policy.** An iteration powers off and dims the screen as it
should if and only if the battery is charging or full, or a level of at least 10 was read. -/
theorem policySound_iff (w : Files) :
    PolicySound w ↔ Charging w ∨ ∃ level, scannedInt w.capacity = some level ∧ 10 ≤ level := by
  constructor
  · rintro ⟨hpoweroff, hbrightness⟩
    by_cases hcharging : Charging w
    · exact Or.inl hcharging
    · rw [poweroff_mem_iff] at hpoweroff
      cases hlevel : scannedInt w.capacity with
      | none =>
        obtain ⟨⟨level, -, hsome⟩, -⟩ := hpoweroff ⟨hcharging, by rw [hlevel]; decide⟩
        rw [hlevel] at hsome
        cases hsome
      | some level =>
        have hgeneral := hbrightness _ hlevel hcharging
        exact Or.inr ⟨level, rfl, (brightness_iff hlevel hcharging).1 hgeneral⟩
  · intro hcond
    refine ⟨fun h ↦ ?_, fun level hlevel hcharging ↦ ?_⟩
    · obtain ⟨hcharging, hle⟩ := poweroff_mem_iff.1 h
      obtain ⟨level, hlevel, hge⟩ := hcond.resolve_left hcharging
      rw [hlevel, Option.getD_some] at hle
      omega
    · obtain ⟨level', hlevel', hge⟩ := hcond.resolve_left hcharging
      rw [hlevel, Option.some.injEq] at hlevel'
      exact (brightness_iff hlevel hcharging).2 (hlevel' ▸ hge)

/-- The capacity file is missing, and nothing charges the battery. -/
theorem not_policySound_missing_capacity :
    ¬ PolicySound ⟨none, none, some (ofAscii "Discharging\n"), true⟩ := by
  rintro ⟨hpoweroff, -⟩
  obtain ⟨⟨level, -, hsome⟩, -⟩ := hpoweroff (poweroff_mem_iff.2 ⟨by decide, by decide⟩)
  cases hsome

end JuliusOS.Power
