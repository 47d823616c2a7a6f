import JuliusOS.Apps.Keys

/-!
# Wake on LAN

`src/apps/wakeonlan/wakeonlan.py`: a list of devices, and a row that is selected. The arrow down
goes no further than `len(self.devices) - 1`, which is -1 where there are no devices.

`selects_iff`: when a row goes on being selected.
-/

namespace JuliusOS.Apps

/-- A device. -/
structure Device where
  /-- `name`. -/
  name : List ℕ
  /-- `mac`. -/
  mac : List ℕ

namespace WakeOnLan

/-- The values of `mode`. -/
inductive Mode
  | list
  | add
deriving DecidableEq

/-- The values of `stage`. -/
inductive Stage
  | name
  | mac
deriving DecidableEq

end WakeOnLan

/-- A `WakeOnLAN`. -/
structure WakeOnLan where
  devices : List Device
  selected : ℤ
  mode : WakeOnLan.Mode
  nameIn : List ℕ
  macIn : List ℕ
  stage : WakeOnLan.Stage
  status : List ℕ

namespace WakeOnLan

/-- A key, and what comes of sending the packet. -/
structure Event where
  down : KeyDown
  sent : CommandResult

/-- `__init__`, with the devices that `load` returns. -/
def init (devices : List Device) : WakeOnLan := ⟨devices, 0, .list, [], [], .name, []⟩

/-- The place that an index stands for, counted from the end where it is negative. -/
def index (n : ℕ) (i : ℤ) : ℤ := if i < 0 then i + n else i

variable (s : WakeOnLan)

/-- The place of the selected row, where there is one. -/
def row? : Option ℕ :=
  let i := index s.devices.length s.selected
  if 0 ≤ i ∧ i < s.devices.length then some i.toNat else none

/-- `send_magic`. -/
def sendMagic : CommandResult → WakeOnLan
  | .ok () => { s with status := Python.str "Magic packet sent!" }
  | .error e => { s with status := Python.str "Error: " ++ e }

/-- `handle_input` where the list is shown, and the file can be written. -/
def handleList (e : Event) : WakeOnLan × Bool :=
  match e.down.key with
  | .down => done { s with selected := min (s.selected + 1) ((s.devices.length : ℤ) - 1) }
  | .up => done { s with selected := max (s.selected - 1) 0 }
  | .ret =>
    if s.devices = [] then done s
    else
      match s.row? with
      | some _ => done (s.sendMagic e.sent)
      | none => (s, true)
  | .letter 'n' => done { s with mode := .add, stage := .name, nameIn := [], macIn := [] }
  | .letter 'd' =>
    if s.devices = [] then done s
    else
      match s.row? with
      | some i =>
        done { s with devices := s.devices.eraseIdx i, selected := max 0 (s.selected - 1) }
      | none => (s, true)
  | _ => done s

/-- `handle_input` where a device is added, and the file can be written. -/
def handleAdd (e : Event) : WakeOnLan :=
  match s.stage with
  | .name =>
    if e.down.key = .ret ∧ s.nameIn ≠ [] then { s with stage := .mac }
    else
      match e.down.key with
      | .backspace => { s with nameIn := s.nameIn.dropLast }
      | .escape => { s with mode := .list }
      | _ => { s with nameIn := s.nameIn ++ e.down.unicode }
  | .mac =>
    if e.down.key = .ret ∧ s.macIn ≠ [] then
      { s with
        devices := s.devices ++ [⟨s.nameIn, s.macIn⟩]
        mode := .list
        status := Python.str "Added " ++ s.nameIn }
    else
      match e.down.key with
      | .backspace => { s with macIn := s.macIn.dropLast }
      | .escape => { s with mode := .list }
      | _ => { s with macIn := s.macIn ++ e.down.unicode }

/-- `handle_input`, where the file can be written. -/
def handleInput (e : Event) : WakeOnLan × Bool :=
  match s.mode with
  | .list => s.handleList e
  | .add => done (s.handleAdd e)

/-! ### The selection stays valid -/

/-- In a list that is not empty, a row is selected. -/
def InRows (s : WakeOnLan) : Prop := s.devices ≠ [] → 0 ≤ s.selected ∧ s.selected < s.devices.length

/-- Where the list is shown and not empty, a row is selected. -/
def Selects (s : WakeOnLan) : Prop := s.mode = .list → s.InRows

/-- Where there are no devices, the selection is at 0 or at -1. -/
def RowValid (s : WakeOnLan) : Prop :=
  s.InRows ∧ (s.devices = [] → s.selected = 0 ∨ s.selected = -1)

/-- The key adds a device. -/
def Adds (s : WakeOnLan) (e : Event) : Prop :=
  s.mode = .add ∧ s.stage = .mac ∧ e.down.key = .ret ∧ s.macIn ≠ []

/-- The first device is not added to a list with -1 selected. -/
def Follows (s : WakeOnLan) (e : Event) : Prop := s.Adds e → s.devices ≠ [] ∨ s.selected = 0

variable {s} {e : Event}

/-- Where the selected row is. -/
theorem InRows.row?_eq (h : s.InRows) (hne : s.devices ≠ []) :
    s.row? = some s.selected.toNat ∧ s.selected.toNat < s.devices.length := by
  obtain ⟨hzero, hlt⟩ := h hne
  have hindex : index s.devices.length s.selected = s.selected := by
    rw [index, if_neg (by omega)]
  rw [row?, hindex]
  rw [if_pos ⟨hzero, hlt⟩]
  exact ⟨rfl, by omega⟩

/-- The arrow down. -/
theorem RowValid.down (h : s.RowValid) :
    RowValid { s with selected := min (s.selected + 1) ((s.devices.length : ℤ) - 1) } := by
  obtain ⟨hrows, hnone⟩ := h
  constructor
  · intro hne
    obtain ⟨hzero, hlt⟩ := hrows hne
    dsimp only
    omega
  · intro hnil
    have hlen : (s.devices.length : ℤ) = 0 := by rw [show s.devices = [] from hnil]; rfl
    rcases hnone hnil with hsel | hsel <;> dsimp only <;> omega

/-- The arrow up. -/
theorem RowValid.up (h : s.RowValid) : RowValid { s with selected := max (s.selected - 1) 0 } := by
  obtain ⟨hrows, hnone⟩ := h
  constructor
  · intro hne
    obtain ⟨hzero, hlt⟩ := hrows hne
    dsimp only
    omega
  · intro hnil
    rcases hnone hnil with hsel | hsel <;> dsimp only <;> omega

/-- A device is taken out. -/
theorem RowValid.delete (h : s.RowValid) (hne : s.devices ≠ []) :
    RowValid { s with
      devices := s.devices.eraseIdx s.selected.toNat, selected := max 0 (s.selected - 1) } := by
  obtain ⟨hzero, hlt⟩ := h.1 hne
  have hlen := List.length_eraseIdx_of_lt (h.1.row?_eq hne).2
  constructor
  · intro hne'
    have hpos := List.length_pos_iff.2 hne'
    dsimp only at hpos ⊢
    omega
  · intro hnil
    have hnil' := congrArg List.length hnil
    dsimp only [List.length_nil] at hnil' ⊢
    omega

/-- A key while the list is shown. -/
theorem RowValid.handleList (h : s.RowValid) (e : Event) :
    (s.handleList e).2 = false ∧ (s.handleList e).1.RowValid := by
  rw [WakeOnLan.handleList]
  split
  · exact ⟨rfl, h.down⟩
  · exact ⟨rfl, h.up⟩
  · by_cases hnil : s.devices = []
    · rw [if_pos hnil]
      exact ⟨rfl, h⟩
    · rw [if_neg hnil, (h.1.row?_eq hnil).1]
      refine ⟨rfl, ?_⟩
      cases e.sent <;> exact h
  · exact ⟨rfl, h⟩
  · by_cases hnil : s.devices = []
    · rw [if_pos hnil]
      exact ⟨rfl, h⟩
    · rw [if_neg hnil, (h.1.row?_eq hnil).1]
      exact ⟨rfl, h.delete hnil⟩
  · exact ⟨rfl, h⟩

/-- A key that adds no device changes neither the list nor the selection. -/
theorem handleAdd_of_not_adds (hmode : s.mode = .add) (hnot : ¬ s.Adds e) :
    (s.handleAdd e).devices = s.devices ∧ (s.handleAdd e).selected = s.selected := by
  rw [handleAdd]
  cases hstage : s.stage with
  | name =>
    dsimp only
    split
    · exact ⟨rfl, rfl⟩
    · split <;> exact ⟨rfl, rfl⟩
  | mac =>
    dsimp only
    rw [if_neg fun hret ↦ hnot ⟨hmode, hstage, hret⟩]
    split <;> exact ⟨rfl, rfl⟩

/-- A device that is added. -/
theorem handleInput_of_adds (h : s.Adds e) :
    s.handleInput e = done { s with
      devices := s.devices ++ [⟨s.nameIn, s.macIn⟩]
      mode := .list
      status := Python.str "Added " ++ s.nameIn } := by
  obtain ⟨hmode, hstage, hret⟩ := h
  rw [handleInput, hmode]
  dsimp only
  rw [handleAdd, hstage]
  dsimp only
  rw [if_pos hret]

/-- **A key that follows the list leaves a row selected, and raises nothing.** -/
theorem RowValid.handleInput (h : s.RowValid) (hok : s.Follows e) :
    (s.handleInput e).2 = false ∧ (s.handleInput e).1.RowValid := by
  by_cases hadds : s.Adds e
  · rw [handleInput_of_adds hadds]
    refine ⟨rfl, fun _ ↦ ?_, fun hnil ↦ absurd hnil (by simp [done])⟩
    dsimp only [done]
    rw [List.length_append, List.length_singleton]
    by_cases hnil : s.devices = []
    · have hzero := (hok hadds).resolve_left fun hne ↦ hne hnil
      omega
    · obtain ⟨hzero, hlt⟩ := h.1 hnil
      omega
  · rw [WakeOnLan.handleInput]
    cases hmode : s.mode with
    | list => exact h.handleList e
    | add =>
      obtain ⟨hdevices, hselected⟩ := handleAdd_of_not_adds hmode hadds
      refine ⟨rfl, ?_⟩
      dsimp only [done]
      rw [RowValid, InRows, hdevices, hselected]
      exact h

/-- **The device that is added otherwise is not selected.** -/
theorem RowValid.not_selects (h : s.RowValid) (hnot : ¬ s.Follows e) :
    ¬ (s.handleInput e).1.Selects := by
  obtain ⟨hadds, hnot⟩ := Classical.not_imp.1 hnot
  obtain ⟨hdevices, hzero⟩ := not_or.1 hnot
  have hone : s.selected = -1 := (h.2 (not_not.1 hdevices)).resolve_left hzero
  rw [handleInput_of_adds hadds]
  intro hselects
  have hpos : 0 ≤ s.selected := (hselects rfl (by simp [done])).1
  omega

/-- The app from `__init__` on, where the file can always be written. -/
def keys : Machine (Calls.State WakeOnLan) Event :=
  Calls.machine (fun s ↦ ∃ devices, s = init devices) handleInput

theorem rowValid_init (devices : List Device) : (init devices).RowValid := by
  refine ⟨fun hne ↦ ⟨Int.le_refl 0, ?_⟩, fun _ ↦ .inl rfl⟩
  exact Int.natCast_pos.2 (List.length_pos_iff.2 hne)

theorem selects_iff (devices : List Device) (es : List Event) :
    keys.Guarded (fun s e ↦ s.object.Follows e) (Calls.start (init devices)) es ↔
      ∀ n u, keys.run (Calls.start (init devices)) (es.take n) = some u →
        u.raised = false ∧ u.object.Selects := by
  refine Calls.guarded_iff (I := Selects) (K := RowValid) (fun _ h _ ↦ h.1) ?_ ?_
    (rowValid_init devices) es
  · intro s e h hok
    exact h.handleInput hok
  · intro s e h hnot
    exact .inr (h.not_selects hnot)

end WakeOnLan

end JuliusOS.Apps
