import JuliusOS.Apps.Keys

/-!
# The process killer

`src/apps/processkiller/processkiller.py`: a list of the processes that `ps` reports, a filter, and
a row that is selected. The list is as long as `ps` says, and a new one is shown under the old
selection (`Follows`).

`selects_iff`: when a row goes on being selected.
-/

namespace JuliusOS.Apps

/-- A process. -/
structure Proc where
  /-- `pid`. -/
  pid : List Char
  /-- `name`. -/
  name : List Char
  /-- `cpu`. -/
  cpu : List Char
  /-- `mem`. -/
  mem : List Char

namespace ProcessKiller

/-- The values of `mode`. -/
inductive Mode
  | list
  | filter
deriving DecidableEq

/-- A process from the columns of its line. -/
def proc? : List (List Char) → Option Proc
  | pid :: name :: cpu :: mem :: _ => some ⟨pid, name.take 14, cpu, mem⟩
  | _ => none

/-- The processes of what `ps` prints, below a heading. -/
def listed (text : List Char) : List Proc := (Python.table 1 text).filterMap proc?

/-- `part in text`. -/
def occurs (part : List ℕ) : List ℕ → Bool
  | [] => part.isEmpty
  | c :: text => part.isPrefixOf (c :: text) || occurs part text

end ProcessKiller

/-- A `ProcessKiller`. `selected` and `scroll` are the view. -/
structure ProcessKiller where
  procs : List Proc
  view : ListView
  status : List ℕ
  filter : List ℕ
  mode : ProcessKiller.Mode

namespace ProcessKiller

/-- A key, and what comes of the commands. -/
structure Event where
  down : KeyDown
  /-- `kill`. -/
  kill : CommandResult
  /-- `ps`. -/
  ps : CommandOutput

/-- `__init__`. -/
def init : ProcessKiller := ⟨[], .top, Python.str "Press R to refresh", [], .list⟩

-- `str.lower`
variable (lower : List ℕ → List ℕ) (s : ProcessKiller)

/-- `refresh`. -/
def refresh : CommandOutput → ProcessKiller
  | .ok text =>
    { s with
      procs := listed text
      status := count (listed text).length ++ Python.str " processes" }
  | .error e => { s with status := Python.str "Error: " ++ e }

/-- `kill`. -/
def kill (pid : List Char) (e : Event) : ProcessKiller :=
  match e.kill with
  | .ok () =>
    refresh { s with status := Python.str "Killed PID " ++ pid.map Char.toNat } e.ps
  | .error msg => { s with status := Python.str "Error: " ++ msg }

/-- `self.filter.lower() in p["name"].lower()`. -/
def passes (filter : List ℕ) (p : Proc) : Bool :=
  occurs (lower filter) (lower (p.name.map Char.toNat))

/-- The processes that a filter lets through. -/
def shown (filter : List ℕ) (procs : List Proc) : List Proc :=
  if filter ≠ [] then procs.filter (passes lower filter) else procs

/-- `filtered_procs`. -/
def filteredProcs : List Proc := shown lower s.filter s.procs

/-- `handle_input` where the list is shown. -/
def handleList (e : Event) : ProcessKiller × Bool :=
  match e.down.key with
  | .down => done { s with view := s.view.down 9 (s.filteredProcs lower).length }
  | .up => done { s with view := s.view.up }
  | .letter 'r' => done (s.refresh e.ps)
  | .letter 'k' =>
    if s.filteredProcs lower = [] then done s
    else
      match (s.filteredProcs lower)[s.view.selected]? with
      | some p => done (s.kill p.pid e)
      | none => (s, true)
  | .letter 'f' => done { s with mode := .filter, filter := [] }
  | _ => done s

/-- `handle_input` where the filter is typed. -/
def handleFilter (e : Event) : ProcessKiller :=
  match e.down.key with
  | .ret => { s with mode := .list, view := .top }
  | .backspace => { s with filter := s.filter.dropLast }
  | .escape => { s with mode := .list, filter := [] }
  | _ => { s with filter := s.filter ++ e.down.unicode }

/-- `handle_input`. -/
def handleInput (e : Event) : ProcessKiller × Bool :=
  match s.mode with
  | .list => s.handleList lower e
  | .filter => done (s.handleFilter e)

/-! ### The selection stays valid -/

/-- In a list that is shown and not empty, a row is selected. -/
def Selects (s : ProcessKiller) : Prop :=
  s.mode = .list → s.filteredProcs lower ≠ [] →
    s.view.selected < (s.filteredProcs lower).length

/-- Of some processes, none is shown or there is one in the selected row. -/
def HasRow (filter : List ℕ) (procs : List Proc) : Prop :=
  shown lower filter procs ≠ [] → s.view.selected < (shown lower filter procs).length

/-- The key makes `ps` run: R, and K where a process is killed. -/
def Refreshes (e : Event) : Prop :=
  e.down.key = .letter 'r' ∨
    e.down.key = .letter 'k' ∧ s.filteredProcs lower ≠ [] ∧ e.kill = .ok ()

/-- A list that `ps` prints anew, and the whole list where the filter is cancelled, is empty or
longer than what is above the selected row. -/
def Follows (e : Event) : Prop :=
  match s.mode with
  | .list => s.Refreshes lower e → ∀ text, e.ps = .ok text → s.HasRow lower s.filter (listed text)
  | .filter => e.down.key = .escape → s.HasRow lower [] s.procs

variable {lower s} {e : Event}

/-- After a refresh a row is selected exactly if the list that was printed has it. -/
theorem selects_refresh_iff (h : s.Selects lower) (hmode : s.mode = .list) (out : CommandOutput) :
    (s.refresh out).Selects lower ↔
      ∀ text, out = .ok text → s.HasRow lower s.filter (listed text) := by
  cases out with
  | error msg =>
    refine iff_of_true h fun text htext ↦ ?_
    cases htext
  | ok text =>
    constructor
    · intro hrow text' htext
      cases htext
      exact hrow hmode
    · exact fun hrow _ ↦ hrow text rfl

/-- The K key. -/
theorem handleList_kill (h : s.Selects lower) (hmode : s.mode = .list)
    (hkey : e.down.key = .letter 'k') :
    (s.handleList lower e).2 = false ∧
      ((s.handleList lower e).1.Selects lower ↔ (s.Refreshes lower e →
        ∀ text, e.ps = .ok text → s.HasRow lower s.filter (listed text))) := by
  have hnew : s.Refreshes lower e ↔ s.filteredProcs lower ≠ [] ∧ e.kill = .ok () := by
    simp [Refreshes, hkey]
  rw [hnew, handleList, hkey]
  by_cases hnil : s.filteredProcs lower = []
  · rw [if_pos hnil]
    exact ⟨rfl, iff_of_true h fun hne ↦ absurd hnil hne.1⟩
  · rw [if_neg hnil, List.getElem?_eq_getElem (h hmode hnil)]
    refine ⟨rfl, ?_⟩
    dsimp only [done, kill]
    cases hkill : e.kill with
    | error msg =>
      refine iff_of_true h fun hne ↦ ?_
      cases hne.2
    | ok _ =>
      refine (selects_refresh_iff h hmode e.ps).trans ⟨fun hrow _ ↦ hrow, fun hrow ↦ ?_⟩
      exact hrow ⟨hnil, rfl⟩

/-- A key while the list is shown. -/
theorem handleList_spec (h : s.Selects lower) (hmode : s.mode = .list) (e : Event) :
    (s.handleList lower e).2 = false ∧
      ((s.handleList lower e).1.Selects lower ↔ (s.Refreshes lower e →
        ∀ text, e.ps = .ok text → s.HasRow lower s.filter (listed text))) := by
  by_cases hk : e.down.key = .letter 'k'
  · exact handleList_kill h hmode hk
  · by_cases hr : e.down.key = .letter 'r'
    · have hnew : s.Refreshes lower e := .inl hr
      rw [handleList, hr]
      refine ⟨rfl, (selects_refresh_iff h hmode e.ps).trans ?_⟩
      exact ⟨fun hrow _ ↦ hrow, fun hrow ↦ hrow hnew⟩
    · have hnew : ¬ s.Refreshes lower e := fun hnew ↦ hnew.elim hr fun hkill ↦ hk hkill.1
      have hsel : (s.handleList lower e).2 = false ∧ (s.handleList lower e).1.Selects lower := by
        rw [handleList]
        split
        · exact ⟨rfl, fun hlist ↦ ListView.selects_down (h hlist) 9⟩
        · exact ⟨rfl, fun hlist ↦ ListView.selects_up (h hlist)⟩
        · exact absurd ‹_› hr
        · exact absurd ‹_› hk
        · exact ⟨rfl, fun hlist ↦ Mode.noConfusion hlist⟩
        · exact ⟨rfl, h⟩
      exact ⟨hsel.1, iff_of_true hsel.2 fun h' ↦ absurd h' hnew⟩

/-- A key while the filter is typed. -/
theorem selects_handleFilter_iff (hmode : s.mode = .filter) (e : Event) :
    (s.handleFilter e).Selects lower ↔ (e.down.key = .escape → s.HasRow lower [] s.procs) := by
  have hfilter {t : ProcessKiller} (ht : t.mode = .filter) : t.Selects lower :=
    fun hlist ↦ Mode.noConfusion (ht.symm.trans hlist)
  rw [handleFilter]
  split
  · rename_i hkey
    refine iff_of_true (fun _ hne ↦ List.length_pos_iff.2 hne) fun hesc ↦ ?_
    cases hkey.symm.trans hesc
  · rename_i hkey
    refine iff_of_true (hfilter hmode) fun hesc ↦ ?_
    cases hkey.symm.trans hesc
  · rename_i hkey
    exact ⟨fun hsel _ ↦ hsel rfl, fun hrow _ ↦ hrow hkey⟩
  · rename_i hkey
    exact iff_of_true (hfilter hmode) fun hesc ↦ absurd hesc hkey

/-- **A key raises nothing, and leaves a row selected exactly if the list follows.** -/
theorem selects_handleInput_iff (h : s.Selects lower) (e : Event) :
    (s.handleInput lower e).2 = false ∧
      ((s.handleInput lower e).1.Selects lower ↔ s.Follows lower e) := by
  rw [handleInput, Follows]
  cases hmode : s.mode with
  | filter => exact ⟨rfl, selects_handleFilter_iff hmode e⟩
  | list => exact handleList_spec h hmode e

/-- The app from `__init__` on. -/
def keys (lower : List ℕ → List ℕ) : Machine (Calls.State ProcessKiller) Event :=
  Calls.machine (· = init) fun s e ↦ s.handleInput lower e

theorem selects_iff (lower : List ℕ → List ℕ) (es : List Event) :
    (keys lower).Guarded (fun s e ↦ s.object.Follows lower e) (Calls.start init) es ↔
      ∀ n u, (keys lower).run (Calls.start init) (es.take n) = some u →
        u.raised = false ∧ u.object.Selects lower := by
  refine Calls.guarded_iff_of_call_iff (I := Selects lower) (fun _ ↦ Iff.rfl) (fun s e h ↦ ?_) ?_ es
  · obtain ⟨hraise, hiff⟩ := selects_handleInput_iff h e
    exact (and_iff_right hraise).trans hiff
  · exact fun _ hne ↦ absurd rfl hne

end ProcessKiller

end JuliusOS.Apps
