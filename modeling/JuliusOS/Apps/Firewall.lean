import JuliusOS.Apps.Keys

/-!
# The firewall

`src/apps/firewall/firewall.py`: a list of the rules that `iptables` prints, and a row that is
selected. Rules are added and deleted by `iptables`, and the list is printed anew afterwards.

`selects_iff`: when a row goes on being selected.
-/

namespace JuliusOS.Apps

/-- A rule, as it is shown. -/
structure Rule where
  /-- `num`. -/
  num : List Char
  /-- `target`. -/
  target : List Char
  /-- `proto`. -/
  proto : List Char
  /-- `source`. -/
  source : List Char
deriving DecidableEq

namespace Firewall

/-- The values of `mode`. -/
inductive Mode
  | list
  | add
deriving DecidableEq

/-- The values of `stage`. -/
inductive Stage
  | port
  | proto
  | action
deriving DecidableEq

/-- The values of `proto_in`. -/
inductive Proto
  | tcp
  | udp
deriving DecidableEq

/-- The values of `action`. -/
inductive Action
  | accept
  | drop
deriving DecidableEq

/-- A protocol's text. -/
def Proto.text : Proto → List ℕ
  | .tcp => Python.str "tcp"
  | .udp => Python.str "udp"

/-- An action's text. -/
def Action.text : Action → List ℕ
  | .accept => Python.str "ACCEPT"
  | .drop => Python.str "DROP"

/-- A rule from the columns of its line. -/
def rule? : List (List Char) → Option Rule
  | [num, target, proto, _] => some ⟨num, target, proto, ['a', 'n', 'y']⟩
  | num :: target :: proto :: _ :: source :: _ => some ⟨num, target, proto, source⟩
  | _ => none

/-- The rules of what `iptables` prints, below a heading of two lines. -/
def listed (text : List Char) : List Rule := (Python.table 2 text).filterMap rule?

end Firewall

/-- A `Firewall`. `selected` and `scroll` are the view. -/
structure Firewall where
  rules : List Rule
  view : ListView
  status : List ℕ
  mode : Firewall.Mode
  portIn : List ℕ
  protoIn : Firewall.Proto
  action : Firewall.Action
  stage : Firewall.Stage

namespace Firewall

/-- A key, and what comes of the commands. -/
structure Event where
  down : KeyDown
  /-- `iptables -A` and `iptables -D`. -/
  run : CommandResult
  /-- `iptables -L`. -/
  listing : CommandOutput

/-- `__init__`. -/
def init : Firewall :=
  ⟨[], .top, Python.str "Press R to load rules", .list, [], .tcp, .accept, .port⟩

variable (s : Firewall)

/-- `load_rules`. -/
def loadRules : CommandOutput → Firewall
  | .ok text =>
    { s with
      rules := listed text
      status := count (listed text).length ++ Python.str " rules loaded" }
  | .error e => { s with status := Python.str "Error: " ++ e }

/-- `add_rule`. -/
def addRule (port proto action : List ℕ) (e : Event) : Firewall :=
  match e.run with
  | .ok () =>
    loadRules { s with
      status := Python.str "Rule added: " ++ action ++ Python.str " " ++ proto ++
        Python.str "/" ++ port } e.listing
  | .error msg => { s with status := Python.str "Error: " ++ msg }

/-- `delete_rule`. -/
def deleteRule (num : List Char) (e : Event) : Firewall :=
  match e.run with
  | .ok () =>
    loadRules { s with
      status := Python.str "Rule " ++ num.map Char.toNat ++ Python.str " deleted" } e.listing
  | .error msg => { s with status := Python.str "Error: " ++ msg }

/-- `handle_input` where the list is shown. -/
def handleList (e : Event) : Firewall × Bool :=
  match e.down.key with
  | .down => done { s with view := s.view.down 9 s.rules.length }
  | .up => done { s with view := s.view.up }
  | .letter 'r' => done (s.loadRules e.listing)
  | .letter 'a' =>
    done { s with mode := .add, stage := .port, portIn := [], protoIn := .tcp, action := .accept }
  | .letter 'd' =>
    if s.rules = [] then done s
    else
      match s.rules[s.view.selected]? with
      | some rule => done (s.deleteRule rule.num e)
      | none => (s, true)
  | _ => done s

/-- The return key where a rule is added. -/
def handleReturn (e : Event) : Firewall :=
  match s.stage with
  | .port => if s.portIn = [] then s else { s with stage := .proto }
  | .proto => { s with stage := .action }
  | .action => { s.addRule s.portIn s.protoIn.text s.action.text e with mode := .list }

/-- `handle_input` where a rule is added. -/
def handleAdd (e : Event) : Firewall :=
  match e.down.key, s.stage with
  | .ret, _ => s.handleReturn e
  | .backspace, .port => { s with portIn := s.portIn.dropLast }
  | .backspace, _ => s
  | .escape, _ => { s with mode := .list }
  | .letter 't', .proto => { s with protoIn := .tcp }
  | .letter 'u', .proto => { s with protoIn := .udp }
  | .letter 'a', .action => { s with action := .accept }
  | .letter 'd', .action => { s with action := .drop }
  | _, .port => { s with portIn := s.portIn ++ e.down.unicode }
  | _, _ => s

/-- `handle_input`. -/
def handleInput (e : Event) : Firewall × Bool :=
  match s.mode with
  | .list => s.handleList e
  | .add => done (s.handleAdd e)

/-! ### The selection stays valid -/

/-- In a list that is not empty, a row is selected. -/
def RowValid (s : Firewall) : Prop := s.rules ≠ [] → s.view.selected < s.rules.length

/-- Where the list is shown and not empty, a row is selected. -/
def Selects (s : Firewall) : Prop := s.mode = .list → s.RowValid

/-- The key makes `iptables -L` run: R, and the keys that add and delete a rule where they do. -/
def Reloads (s : Firewall) (e : Event) : Prop :=
  match s.mode with
  | .list =>
    e.down.key = .letter 'r' ∨ e.down.key = .letter 'd' ∧ s.rules ≠ [] ∧ e.run = .ok ()
  | .add => e.down.key = .ret ∧ s.stage = .action ∧ e.run = .ok ()

/-- The list that is printed anew is empty or longer than what is above the selected row. -/
def Follows (s : Firewall) (e : Event) : Prop :=
  s.Reloads e → ∀ text, e.listing = .ok text → listed text ≠ [] →
    s.view.selected < (listed text).length

variable {s} {e : Event}

/-- After it is loaded, the list has the selected row exactly if the list that was printed has. -/
theorem rowValid_loadRules_iff (h : s.RowValid) (out : CommandOutput) :
    (s.loadRules out).RowValid ↔
      ∀ text, out = .ok text → listed text ≠ [] → s.view.selected < (listed text).length := by
  cases out with
  | error msg =>
    refine iff_of_true h fun text htext ↦ ?_
    cases htext
  | ok text =>
    constructor
    · intro hrow text' htext
      cases htext
      exact hrow
    · exact fun hrow ↦ hrow text rfl

/-- The command and then the list. -/
theorem rowValid_run_iff (h : s.RowValid) (status : List ℕ) (e : Event) :
    (match e.run with
      | .ok () => loadRules { s with status := status } e.listing
      | .error msg => { s with status := Python.str "Error: " ++ msg }).RowValid ↔
      (e.run = .ok () → ∀ text, e.listing = .ok text → listed text ≠ [] →
        s.view.selected < (listed text).length) := by
  cases hrun : e.run with
  | error msg =>
    refine iff_of_true h fun hok ↦ ?_
    cases hok
  | ok _ =>
    exact (rowValid_loadRules_iff h e.listing).trans ⟨fun hrow _ ↦ hrow, fun hrow ↦ hrow rfl⟩

/-- A key while the list is shown. -/
theorem handleList_spec (h : s.RowValid) (hmode : s.mode = .list) (e : Event) :
    (s.handleList e).2 = false ∧ ((s.handleList e).1.RowValid ↔ s.Follows e) := by
  have hreloads : s.Reloads e ↔
      e.down.key = .letter 'r' ∨ e.down.key = .letter 'd' ∧ s.rules ≠ [] ∧ e.run = .ok () := by
    rw [Reloads, hmode]
  rw [Follows, hreloads, handleList]
  split
  · rename_i hkey
    refine ⟨rfl, iff_of_true ?_ ?_⟩
    · exact ListView.selects_down h 9
    · simp [hkey]
  · rename_i hkey
    refine ⟨rfl, iff_of_true ?_ ?_⟩
    · exact ListView.selects_up h
    · simp [hkey]
  · rename_i hkey
    refine ⟨rfl, (rowValid_loadRules_iff h e.listing).trans ?_⟩
    simp [hkey]
  · rename_i hkey
    refine ⟨rfl, iff_of_true h ?_⟩
    simp [hkey]
  · rename_i hkey
    by_cases hnil : s.rules = []
    · rw [if_pos hnil]
      refine ⟨rfl, iff_of_true h ?_⟩
      simp [hkey, hnil]
    · rw [if_neg hnil, List.getElem?_eq_getElem (h hnil)]
      refine ⟨rfl, (rowValid_run_iff h _ e).trans ?_⟩
      simp [hkey, hnil]
  · rename_i hr _ hd
    refine ⟨rfl, iff_of_true h fun hnew ↦ ?_⟩
    exact hnew.elim (fun hkey ↦ absurd hkey hr) fun hkey ↦ absurd hkey.1 hd

/-- A key that does not end the dialog leaves the list as it is. -/
theorem handleAdd_of_ne (hkey : e.down.key ≠ .ret) :
    (s.handleAdd e).rules = s.rules ∧ (s.handleAdd e).view = s.view := by
  rw [handleAdd]
  split
  · exact absurd ‹_› hkey
  all_goals exact ⟨rfl, rfl⟩

/-- A key while a rule is added. -/
theorem handleAdd_spec (h : s.RowValid) (hmode : s.mode = .add) (e : Event) :
    (s.handleAdd e).RowValid ↔ s.Follows e := by
  have hreloads : s.Reloads e ↔ e.down.key = .ret ∧ s.stage = .action ∧ e.run = .ok () := by
    rw [Reloads, hmode]
  rw [Follows, hreloads]
  by_cases hkey : e.down.key = .ret
  · have hreturn : s.handleAdd e = s.handleReturn e := by
      rw [handleAdd, hkey]
    rw [hreturn, handleReturn]
    cases hstage : s.stage with
    | port =>
      refine iff_of_true ?_ ?_
      · dsimp only
        split <;> exact h
      · simp
    | proto =>
      refine iff_of_true h ?_
      simp
    | action =>
      refine (rowValid_run_iff h _ e).trans ?_
      simp [hkey]
  · obtain ⟨hrules, hview⟩ := handleAdd_of_ne hkey
    refine iff_of_true ?_ fun hnew ↦ absurd hnew.1 hkey
    rw [RowValid, hrules, hview]
    exact h

/-- **A key raises nothing, and the list has the selected row exactly if it follows.** -/
theorem rowValid_handleInput_iff (h : s.RowValid) (e : Event) :
    (s.handleInput e).2 = false ∧ ((s.handleInput e).1.RowValid ↔ s.Follows e) := by
  rw [handleInput]
  cases hmode : s.mode with
  | list => exact handleList_spec h hmode e
  | add => exact ⟨rfl, handleAdd_spec h hmode e⟩

theorem loadRules_mode (out : CommandOutput) : (s.loadRules out).mode = s.mode := by
  cases out <;> rfl

theorem deleteRule_mode (num : List Char) (e : Event) : (s.deleteRule num e).mode = s.mode := by
  rw [deleteRule]
  split
  · exact loadRules_mode _
  · rfl

/-- After `iptables -L` the list is shown. -/
theorem mode_of_reloads (h : s.RowValid) (hnew : s.Reloads e) :
    (s.handleInput e).1.mode = .list := by
  rw [handleInput]
  cases hmode : s.mode with
  | list =>
    rw [Reloads, hmode] at hnew
    dsimp only
    rw [handleList]
    rcases hnew with hkey | ⟨hkey, hne, -⟩
    · rw [hkey]
      exact (loadRules_mode _).trans hmode
    · rw [hkey]
      rw [if_neg hne, List.getElem?_eq_getElem (h hne)]
      exact (deleteRule_mode _ e).trans hmode
  | add =>
    rw [Reloads, hmode] at hnew
    obtain ⟨hkey, hstage, -⟩ := hnew
    dsimp only
    rw [handleAdd, hkey]
    dsimp only
    rw [handleReturn, hstage]
    rfl

/-- The app from `__init__` on. -/
def keys : Machine (Calls.State Firewall) Event := Calls.machine (· = init) handleInput

theorem selects_iff (es : List Event) :
    keys.Guarded (fun s e ↦ s.object.Follows e) (Calls.start init) es ↔
      ∀ n u, keys.run (Calls.start init) (es.take n) = some u →
        u.raised = false ∧ u.object.Selects := by
  refine Calls.guarded_iff (I := Selects) (K := RowValid) (fun _ h _ ↦ h) ?_ ?_ ?_ es
  · intro s e h hok
    obtain ⟨hraise, hiff⟩ := rowValid_handleInput_iff h e
    exact ⟨hraise, hiff.2 hok⟩
  · intro s e h hnot
    refine .inr fun hselects ↦ hnot fun hnew ↦ ?_
    exact (rowValid_handleInput_iff h e).2.1 (hselects (mode_of_reloads h hnew)) hnew
  · exact fun hne ↦ absurd rfl hne

end Firewall

end JuliusOS.Apps
