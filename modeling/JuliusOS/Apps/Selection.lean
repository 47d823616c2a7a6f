import JuliusOS.Apps.Firewall
import JuliusOS.Apps.ProcessKiller
import JuliusOS.Apps.Todo
import JuliusOS.Apps.WakeOnLan

/-!
# What is selected in the list apps

The todo list, the process killer, the firewall and Wake on LAN show a list and select a row of it.
`selectsRows_iff` says in which sessions a row of every list that is not empty is selected after
each key, and no key raises. What breaks it is a list that gets shorter, or a first device, while
the selection stays where it is.
-/

namespace JuliusOS.Apps

/-- **When the list apps go on selecting a row.** -/
theorem selectsRows_iff (tasks : List Task) (ks : List KeyDown) (lower : List ℕ → List ℕ)
    (ps : List ProcessKiller.Event) (fs : List Firewall.Event) (devices : List Device)
    (ws : List WakeOnLan.Event) :
    (Todo.keys.Guarded (fun s e ↦ s.object.Follows e) (Calls.start (.init tasks)) ks ↔
      ∀ n u, Todo.keys.run (Calls.start (.init tasks)) (ks.take n) = some u →
        u.raised = false ∧ u.object.Selects) ∧
    ((ProcessKiller.keys lower).Guarded (fun s e ↦ s.object.Follows lower e)
        (Calls.start .init) ps ↔
      ∀ n u, (ProcessKiller.keys lower).run (Calls.start .init) (ps.take n) = some u →
        u.raised = false ∧ u.object.Selects lower) ∧
    (Firewall.keys.Guarded (fun s e ↦ s.object.Follows e) (Calls.start .init) fs ↔
      ∀ n u, Firewall.keys.run (Calls.start .init) (fs.take n) = some u →
        u.raised = false ∧ u.object.Selects) ∧
    (WakeOnLan.keys.Guarded (fun s e ↦ s.object.Follows e) (Calls.start (.init devices)) ws ↔
      ∀ n u, WakeOnLan.keys.run (Calls.start (.init devices)) (ws.take n) = some u →
        u.raised = false ∧ u.object.Selects) :=
  ⟨Todo.selects_iff tasks ks, ProcessKiller.selects_iff lower ps, Firewall.selects_iff fs,
    WakeOnLan.selects_iff devices ws⟩

/-- Two tasks. -/
def twoTasks : Todo := .init [⟨[97], false⟩, ⟨[98], false⟩]

/-- The second of two tasks is toggled while only pending ones are shown, and then again. -/
def toggledTwice : List KeyDown :=
  [.ofKey (.letter 'f'), .ofKey .down, .ofKey .ret, .ofKey .ret]

/-- The second key finds no row. -/
theorem not_selectsRows_toggledTwice :
    ¬ ∀ u, Todo.keys.run (Calls.start twoTasks) toggledTwice = some u →
      u.raised = false ∧ u.object.Selects :=
  fun h ↦ Bool.noConfusion (h _ rfl).1

end JuliusOS.Apps
