import JuliusOS.Boot.Sequence
import Mathlib.Logic.Function.Basic

/-!
# One instance of each service

Whether each executable has at most one process, and each socket path is bound by at most one
process, in every state of a boot (`OneInstance`).

`julius_init` and `julius_pm` both start nine of the services, `julius_pm restart` is a whole
process manager, and `julius_ipc` and `julius_core` bind one path. These are the three ways in
which a step breaks `OneInstance` (`Collides`), and there is no other: what `phase_services` forks
is distinct, a process manager forks for each service once (`ProcessManager.Undisturbed`), and a
second process manager can only come after the first collision.

* `not_collides_iff`: a step from a state with one instance leads to such a state exactly if it
  does not collide.
* `one_instance_iff`: so for a whole boot.
-/

namespace JuliusOS.Boot

open ProcessManager (juliusServices Registration Service Undisturbed processManager)

/-! ### Values taken once -/

section AtMostOnce

variable {α : Type*} {f : ℕ → Option α}

/-- No value is taken twice. -/
def AtMostOnce (f : ℕ → Option α) : Prop := ∀ ⦃i k a⦄, f i = some a → f k = some a → i = k

/-- A new value keeps this exactly if it was not taken. -/
theorem AtMostOnce.update_iff (hf : AtMostOnce f) {m : ℕ} (hm : f m = none) (a : α) :
    AtMostOnce (Function.update f m (some a)) ↔ ∀ i, f i ≠ some a := by
  constructor
  · intro h i hi
    have hne : i ≠ m := by
      rintro rfl
      rw [hm] at hi
      cases hi
    have hi' : Function.update f m (some a) i = some a := by
      rw [Function.update_of_ne hne, hi]
    exact hne (h hi' (Function.update_self m (some a) f))
  · intro h i k c hi hk
    by_cases him : i = m
    · by_cases hkm : k = m
      · exact him.trans hkm.symm
      · rw [him, Function.update_self] at hi
        rw [Function.update_of_ne hkm] at hk
        exact absurd (hk.trans hi.symm) (h k)
    · rw [Function.update_of_ne him] at hi
      by_cases hkm : k = m
      · rw [hkm, Function.update_self] at hk
        exact absurd (hi.trans hk.symm) (h i)
      · rw [Function.update_of_ne hkm] at hk
        exact hf hi hk

end AtMostOnce

/-! ### The property -/

variable {b b' : State} {i k : ℕ} {e : String} {p : Proc}

/-- Each executable has at most one process, and each path is bound by at most one. -/
structure OneInstance (b : State) : Prop where
  /-- No two processes run one executable. -/
  execs : AtMostOnce b.exec
  /-- No two processes have bound one path. -/
  sockets : AtMostOnce b.bound

/-- A step starts a service that is running, or binds a path that is bound: a process manager
forks for a service of `phase_services`; a second process manager is started; of `julius_ipc` and
`julius_core`, one binds the path of the other, which it has found unlinked. -/
def Collides (b : State) : Label → Prop
  | .init forked =>
    forked = true ∧ phaseServices[b.next]? = some pmExec ∧ ∃ p ∈ b.procs, p.exec = pmExec
  | .bind i =>
    (b.exec i).bind socketPath = some ipcSocket ∧ ipcSocket ∉ b.paths ∧
      ∃ p ∈ b.procs, p.bound = some ipcSocket
  | .manager i l => ∃ c ∈ b.children i l, ∃ p ∈ b.procs, p.parent = .init ∧ p.exec = c.exec
  | .system _ forked => forked = true ∧ ∃ p ∈ b.procs, p.exec = pmExec
  | .unlink _ | .probe _ _ => False

instance (b : State) : DecidablePred (Collides b)
  | .init _ => inferInstanceAs (Decidable (_ ∧ _ ∧ _))
  | .bind _ => inferInstanceAs (Decidable (_ ∧ _ ∧ _))
  | .manager i l => inferInstanceAs (Decidable (∃ c ∈ b.children i l, _))
  | .system _ _ => inferInstanceAs (Decidable (_ ∧ _))
  | .unlink _ | .probe _ _ => inferInstanceAs (Decidable False)

/-! ### Processes by their index -/

/-- What holds of no process holds at no index. -/
theorem forall_exec_ne : (∀ i, b.exec i ≠ some e) ↔ ¬ ∃ p ∈ b.procs, p.exec = e := by
  constructor
  · rintro h ⟨p, hp, rfl⟩
    obtain ⟨i, hi⟩ := List.mem_iff_getElem?.1 hp
    exact h i (by rw [State.exec, hi, Option.map_some])
  · intro h i hi
    obtain ⟨p, hp, rfl⟩ := Option.map_eq_some_iff.1 hi
    exact h ⟨p, List.mem_of_getElem? hp, rfl⟩

theorem forall_bound_ne : (∀ i, b.bound i ≠ some e) ↔ ¬ ∃ p ∈ b.procs, p.bound = some e := by
  constructor
  · rintro h ⟨p, hp, hbound⟩
    obtain ⟨i, hi⟩ := List.mem_iff_getElem?.1 hp
    exact h i (by rw [State.bound, hi, Option.bind_some, hbound])
  · intro h i hi
    obtain ⟨p, hp, hbound⟩ := Option.bind_eq_some_iff.1 hi
    exact h ⟨p, List.mem_of_getElem? hp, hbound⟩

/-- The process at an index. -/
theorem procs_goto (b : State) (i : ℕ) (program : Program) (k : ℕ) :
    (b.goto i program).procs[k]? =
      if i = k then b.procs[k]?.map fun p ↦ { p with program } else b.procs[k]? := by
  rw [State.goto, List.getElem?_modify]
  split <;> simp

@[simp] theorem exec_goto (b : State) (i : ℕ) (program : Program) :
    (b.goto i program).exec = b.exec := by
  funext k
  rw [State.exec, procs_goto]
  split
  · rw [Option.map_map]
    rfl
  · rfl

theorem program_goto_self {program old : Program} (h : b.program i = some old) :
    (b.goto i program).program i = some program := by
  obtain ⟨p, hp, -⟩ := Option.map_eq_some_iff.1 h
  rw [State.program, procs_goto, if_pos rfl, hp]
  rfl

theorem program_goto_of_ne {program : Program} (h : k ≠ i) :
    (b.goto i program).program k = b.program k := by
  rw [State.program, procs_goto, if_neg h.symm]
  rfl

theorem program_goto_cases {program pr : Program} (h : (b.goto i program).program k = some pr) :
    k = i ∧ pr = program ∨ k ≠ i ∧ b.program k = some pr := by
  by_cases hk : k = i
  · obtain ⟨p, hp, rfl⟩ := Option.map_eq_some_iff.1 h
    rw [procs_goto, if_pos hk.symm] at hp
    obtain ⟨q, -, rfl⟩ := Option.map_eq_some_iff.1 hp
    exact Or.inl ⟨hk, rfl⟩
  · rw [program_goto_of_ne hk] at h
    exact Or.inr ⟨hk, h⟩

/-- What a process has bound depends on its executable and its program. -/
theorem bound_eq (b : State) (i : ℕ) :
    b.bound i = (b.program i).bind fun
      | .daemon .bound => (b.exec i).bind socketPath
      | _ => none := by
  rw [State.bound, State.program, State.exec]
  cases b.procs[i]? <;> rfl

theorem bound_goto_of_ne {program : Program} (h : k ≠ i) :
    (b.goto i program).bound k = b.bound k := by
  rw [bound_eq, bound_eq, program_goto_of_ne h, exec_goto]

/-- Away from its `bind`, a process binds nothing and gives nothing up. -/
theorem bound_goto {program old : Program} (hold : b.program i = some old)
    (h : old ≠ .daemon .bound) (h' : program ≠ .daemon .bound) :
    (b.goto i program).bound = b.bound := by
  funext k
  by_cases hk : k = i
  · obtain rfl := hk
    rw [bound_eq, bound_eq, program_goto_self hold, hold, Option.bind_some, Option.bind_some]
    split
    · exact absurd rfl h'
    · rfl
  · exact bound_goto_of_ne hk

/-- A `bind`. -/
theorem bound_goto_bound {old : Program} (hold : b.program i = some old) :
    (b.goto i (.daemon .bound)).bound =
      Function.update b.bound i ((b.exec i).bind socketPath) := by
  funext k
  by_cases hk : k = i
  · obtain rfl := hk
    rw [Function.update_self, bound_eq, program_goto_self hold, exec_goto]
    rfl
  · rw [Function.update_of_ne hk, bound_goto_of_ne hk]

/-- A new process is the last one. -/
theorem procs_fork (b : State) (c : Proc) (k : ℕ) :
    (b.fork [c]).procs[k]? = if k = b.procs.length then some c else b.procs[k]? := by
  rw [State.fork, List.getElem?_append]
  split
  next hk => rw [if_neg hk.ne]
  next hk =>
    split
    next heq => rw [heq, Nat.sub_self]; rfl
    next hne =>
      rw [List.getElem?_eq_none (by simp; omega), List.getElem?_eq_none (by omega)]

theorem exec_fork (b : State) (parent : Parent) (e : String) :
    (b.fork [.new parent e]).exec = Function.update b.exec b.procs.length (some e) := by
  funext k
  rw [State.exec, procs_fork, Function.update_apply]
  split
  · rfl
  · rfl

/-- A new process has bound nothing. -/
theorem bound_fork (b : State) (parent : Parent) (e : String) :
    (b.fork [.new parent e]).bound = b.bound := by
  funext k
  rw [State.bound, procs_fork]
  split
  next hk =>
    rw [hk, State.bound, List.getElem?_eq_none le_rfl, Option.bind_some, Proc.bound, Proc.new, load]
    split_ifs <;> rfl
  next => rfl

/-- A process keeps its index. -/
theorem program_fork {old : Program} (cs : List Proc) (h : b.program i = some old) :
    (b.fork cs).program i = some old := by
  obtain ⟨p, hp, rfl⟩ := Option.map_eq_some_iff.1 h
  rw [State.program, State.fork, List.getElem?_append_left (List.getElem?_eq_some_iff.1 hp).1, hp]
  rfl

/-- A process after a fork is the new one or an old one. -/
theorem program_fork_cases {parent : Parent} {pr : Program}
    (h : (b.fork [.new parent e]).program k = some pr) :
    pr = load e ∧ (b.fork [.new parent e]).exec k = some e ∨
      b.program k = some pr ∧ (b.fork [.new parent e]).exec k = b.exec k := by
  rw [State.program, procs_fork] at h
  rw [exec_fork]
  split at h
  next hk => exact Or.inl ⟨(Option.some.inj h).symm, by rw [hk, Function.update_self]⟩
  next hk => exact Or.inr ⟨h, Function.update_of_ne hk _ _⟩

/-! ### What a step does to the property -/

/-- It is about the processes only. -/
theorem oneInstance_congr (h : b'.procs = b.procs) (hb : OneInstance b) : OneInstance b' := by
  have hexec : b.exec = b'.exec := funext fun i ↦ by rw [State.exec, State.exec, h]
  have hbound : b.bound = b'.bound := funext fun i ↦ by rw [State.bound, State.bound, h]
  exact ⟨hexec ▸ hb.execs, hbound ▸ hb.sockets⟩

/-- A fork keeps it exactly if the executable was not running. -/
theorem oneInstance_fork (h : OneInstance b) (parent : Parent) (e : String) :
    OneInstance (b.fork [.new parent e]) ↔ ¬ ∃ p ∈ b.procs, p.exec = e := by
  have hnone : b.exec b.procs.length = none := by
    rw [State.exec, List.getElem?_eq_none le_rfl, Option.map_none]
  rw [← forall_exec_ne, ← h.execs.update_iff hnone, ← exec_fork b parent e]
  exact ⟨fun h' ↦ h'.execs, fun h' ↦ ⟨h', by rw [bound_fork]; exact h.sockets⟩⟩

/-- Away from its `bind`, what a process does does not matter. -/
theorem oneInstance_goto {program old : Program} (hold : b.program i = some old)
    (h : old ≠ .daemon .bound) (h' : program ≠ .daemon .bound) :
    OneInstance (b.goto i program) ↔ OneInstance b := by
  constructor
  · rintro ⟨hexecs, hsockets⟩
    rw [exec_goto] at hexecs
    rw [bound_goto hold h h'] at hsockets
    exact ⟨hexecs, hsockets⟩
  · rintro ⟨hexecs, hsockets⟩
    refine ⟨?_, ?_⟩
    · rwa [exec_goto]
    · rwa [bound_goto hold h h']

/-- A `bind` keeps it exactly if the path was not bound. -/
theorem oneInstance_bind {old : Program} (hb : OneInstance b) (hold : b.program i = some old)
    (h : old ≠ .daemon .bound) (he : (b.exec i).bind socketPath = some e) :
    OneInstance (b.goto i (.daemon .bound)) ↔ ¬ ∃ p ∈ b.procs, p.bound = some e := by
  have hnone : b.bound i = none := by
    rw [bound_eq, hold, Option.bind_some]
    split
    · exact absurd rfl h
    · rfl
  rw [← forall_bound_ne, ← hb.sockets.update_iff hnone, ← he, ← bound_goto_bound hold]
  exact ⟨fun h' ↦ h'.sockets, fun h' ↦ ⟨by rw [exec_goto]; exact hb.execs, h'⟩⟩

/-! ### What is known of the processes -/

/-- Where a process with this parent and executable comes from. -/
def State.Forked (b : State) (exec : String) : Parent → Prop
  | .init => ∃ k < b.next, phaseServices[k]? = some exec
  | .manager i j =>
    (∃ s, b.program i = some (.manager s) ∧ j ∈ s.forked) ∧
      juliusServices[j]?.map Registration.exec = some exec
  | .monitor => exec = pmExec

/-- The process managers run undisturbed, and each process comes from its parent. -/
structure Wf (b : State) : Prop where
  /-- A process manager is an instance of `julius_pm` that is left alone. -/
  manager : ∀ i s, b.program i = some (.manager s) → b.exec i = some pmExec ∧ Undisturbed s
  /-- A health monitor is an instance of `julius_health`. -/
  monitor : ∀ i h, b.program i = some (.monitor h) → b.exec i = some healthExec
  /-- Both come when `phase_services` has only `julius_pm` left to start. -/
  late : ∀ i, b.exec i = some pmExec ∨ b.exec i = some healthExec → 12 ≤ b.next
  /-- Each process comes from its parent. -/
  forked : ∀ p ∈ b.procs, b.Forked p.exec p.parent

theorem getElem?_juliusServices {s : ProcessManager.State} {j : ℕ} {v : Service}
    (htable : s.shared.services.map Service.exec = juliusServices.map Registration.exec)
    (hv : s.shared.services[j]? = some v) :
    juliusServices[j]?.map Registration.exec = some v.exec := by
  have hj := congrArg (fun execs ↦ execs[j]?) htable
  rwa [List.getElem?_map, List.getElem?_map, hv, Option.map_some, eq_comm] at hj

/-- **What a process comes from** stays, as `phase_services` and the process managers go on. -/
theorem State.Forked.mono {c : State} {parent : Parent} (h : b.Forked e parent)
    (hnext : b.next ≤ c.next)
    (hkeep : ∀ i s, b.program i = some (.manager s) →
      ∃ s', c.program i = some (.manager s') ∧ s.forked ⊆ s'.forked) : c.Forked e parent := by
  cases parent with
  | init =>
    obtain ⟨k, hk, hservice⟩ := h
    exact ⟨k, hk.trans_le hnext, hservice⟩
  | manager i j =>
    obtain ⟨⟨s, hs, hj⟩, hreg⟩ := h
    obtain ⟨s', hs', hsub⟩ := hkeep i s hs
    exact ⟨⟨s', hs', hsub hj⟩, hreg⟩
  | monitor => exact h

/-- A process goes on in its program. -/
theorem Wf.goto {program old : Program} (hb : Wf b) (hold : b.program i = some old)
    (hmanager : ∀ s, program = .manager s → b.exec i = some pmExec ∧ Undisturbed s)
    (hmonitor : ∀ h, program = .monitor h → b.exec i = some healthExec)
    (hkeep : ∀ s, old = .manager s → ∃ s', program = .manager s' ∧ s.forked ⊆ s'.forked) :
    Wf (b.goto i program) where
  manager := by
    intro k s hs
    rw [exec_goto]
    rcases program_goto_cases hs with ⟨rfl, heq⟩ | ⟨-, hs⟩
    · exact hmanager s heq.symm
    · exact hb.manager k s hs
  monitor := by
    intro k h hh
    rw [exec_goto]
    rcases program_goto_cases hh with ⟨rfl, heq⟩ | ⟨-, hh⟩
    · exact hmonitor h heq.symm
    · exact hb.monitor k h hh
  late := by
    intro k hk
    rw [exec_goto] at hk
    exact hb.late k hk
  forked := by
    intro p hp
    obtain ⟨k, hk⟩ := List.mem_iff_getElem?.1 hp
    -- the process was there before, with the same executable and parent
    obtain ⟨q, hq, hexec, hparent⟩ : ∃ q ∈ b.procs, p.exec = q.exec ∧ p.parent = q.parent := by
      rw [procs_goto] at hk
      split at hk
      · obtain ⟨q, hq, rfl⟩ := Option.map_eq_some_iff.1 hk
        exact ⟨q, List.mem_of_getElem? hq, rfl, rfl⟩
      · exact ⟨p, List.mem_of_getElem? hk, rfl, rfl⟩
    rw [hexec, hparent]
    refine (hb.forked q hq).mono le_rfl fun m s hs ↦ ?_
    by_cases hm : m = i
    · obtain rfl := hm
      obtain ⟨s', rfl, hsub⟩ := hkeep s (Option.some.inj (hold.symm.trans hs))
      exact ⟨s', program_goto_self hold, hsub⟩
    · exact ⟨s, (program_goto_of_ne hm).trans hs, List.Subset.refl _⟩

/-- A process is forked. -/
theorem Wf.fork {parent : Parent} (hb : Wf b) (hforked : b.Forked e parent)
    (hlate : e = pmExec ∨ e = healthExec → 12 ≤ b.next) : Wf (b.fork [.new parent e]) where
  manager := by
    intro k s hs
    rcases program_fork_cases hs with ⟨hload, hexec⟩ | ⟨hs, hexec⟩
    · rw [load] at hload
      split_ifs at hload with he
      obtain rfl := Program.manager.inj hload
      exact ⟨hexec.trans (congrArg some he), ProcessManager.undisturbed_start⟩
    · rw [hexec]
      exact hb.manager k s hs
  monitor := by
    intro k h hh
    rcases program_fork_cases hh with ⟨hload, hexec⟩ | ⟨hh, hexec⟩
    · rw [load] at hload
      split_ifs at hload with he he'
      exact hexec.trans (congrArg some he')
    · rw [hexec]
      exact hb.monitor k h hh
  late := by
    intro k hk
    rw [exec_fork] at hk
    by_cases hlast : k = b.procs.length
    · rw [hlast, Function.update_self, Option.some.injEq, Option.some.injEq] at hk
      exact hlate hk
    · rw [Function.update_of_ne hlast] at hk
      exact hb.late k hk
  forked := by
    have hkeep : ∀ p : Proc, b.Forked p.exec p.parent →
        (b.fork [.new parent e]).Forked p.exec p.parent := fun p hp ↦
      hp.mono le_rfl fun _ s hs ↦ ⟨s, program_fork _ hs, List.Subset.refl _⟩
    intro p hp
    rcases List.mem_append.1 hp with hp | hp
    · exact hkeep p (hb.forked p hp)
    · obtain rfl := List.mem_singleton.1 hp
      exact hkeep (.new parent e) hforked

/-- `phase_services` goes on to its next service. -/
theorem Wf.advance (hb : Wf b) : Wf b.advance where
  manager := hb.manager
  monitor := hb.monitor
  late := fun i hi ↦ (hb.late i hi).trans (Nat.le_succ _)
  forked := fun p hp ↦
    (hb.forked p hp).mono (Nat.le_succ _) fun _ s hs ↦ ⟨s, hs, List.Subset.refl _⟩

/-- What is known of the processes does not depend on the paths. -/
theorem Wf.unlink (hb : Wf b) (path : String) : Wf (b.unlink path) :=
  ⟨hb.manager, hb.monitor, hb.late, hb.forked⟩

theorem Wf.create (hb : Wf b) (path : String) : Wf (b.create path) :=
  ⟨hb.manager, hb.monitor, hb.late, hb.forked⟩

/-! ### The tables -/

/-- The services of `phase_services` are distinct, and the last two are `julius_health` and
`julius_pm`. -/
theorem phaseServices_table {n k : ℕ} (h : phaseServices[n]? = some e) :
    (k < n → phaseServices[k]? ≠ some e) ∧ (e = pmExec ∨ e = healthExec → 12 ≤ n + 1) ∧
      (12 ≤ n → e = pmExec) := by
  have hnd : phaseServices.Nodup := by decide
  have hlast : ∀ i < 13, phaseServices[i]? = some pmExec ∨ phaseServices[i]? = some healthExec →
      12 ≤ i + 1 := by decide
  have hn : n < 13 := (List.getElem?_eq_some_iff.1 h).1
  refine ⟨fun hk hk' ↦ ?_, fun he ↦ hlast n hn ?_, fun hle ↦ ?_⟩
  · exact List.nodup_iff_getElem?_ne_getElem?.1 hnd k n hk hn (hk'.trans h.symm)
  · exact he.imp (fun he ↦ h.trans (congrArg some he)) (fun he ↦ h.trans (congrArg some he))
  · obtain rfl : n = 12 := by omega
    exact (Option.some.inj h).symm

/-- The services of `julius_pm` are distinct, and it is none of them. -/
theorem juliusServices_table {j : ℕ} (h : juliusServices[j]?.map Registration.exec = some e)
    (j' : ℕ) : e ≠ pmExec ∧ (juliusServices[j']?.map Registration.exec = some e → j' = j) := by
  have hnd : (juliusServices.map Registration.exec).Nodup := by decide
  have hpm : pmExec ∉ juliusServices.map Registration.exec := by decide
  rw [← List.getElem?_map] at h
  refine ⟨?_, fun h' ↦ ?_⟩
  · rintro rfl
    exact hpm (List.mem_of_getElem? h)
  · rw [← List.getElem?_map] at h'
    exact (List.getElem?_inj (List.getElem?_eq_some_iff.1 h').1 hnd).1 (h'.trans h.symm)

/-- Only `julius_ipc` and `julius_core` bind one path. -/
theorem socketPath_inj {e' path : String} (h : socketPath e = some path)
    (h' : socketPath e' = some path) : e = e' ∨ path = ipcSocket := by
  have htable : ∀ x ∈ sockets, ∀ y ∈ sockets, x.2 = y.2 → x.1 = y.1 ∨ x.2 = ipcSocket := by decide
  have hmem : ∀ {e : String}, socketPath e = some path → (e, path) ∈ sockets := by
    intro e h
    obtain ⟨l₁, l₂, heq, -⟩ := List.lookup_eq_some_iff.1 h
    rw [heq]
    exact List.mem_append_right _ (List.mem_cons_self ..)
  exact htable (e, path) (hmem h) (e', path) (hmem h') rfl

/-! ### The steps -/

theorem fork_nil (b : State) : b.fork [] = b := by
  rw [State.fork, List.append_nil]

/-- `phase_services`. -/
theorem spec_init {forked : Bool} (hb : Wf b) (h : OneInstance b)
    (hstep : step b (.init forked) = some b') :
    Wf b' ∧ (¬ Collides b (.init forked) ↔ OneInstance b') := by
  obtain ⟨e, he, rfl⟩ := Option.map_eq_some_iff.1 hstep
  have hadvance : OneInstance b.advance := oneInstance_congr (b := b) rfl h
  cases forked with
  | false =>
    rw [if_neg Bool.false_ne_true, fork_nil]
    exact ⟨hb.advance, iff_of_true (fun hc ↦ Bool.false_ne_true hc.1) hadvance⟩
  | true =>
    rw [if_pos rfl, oneInstance_fork hadvance]
    refine ⟨hb.advance.fork ⟨b.next, Nat.lt_succ_self _, he⟩
      (phaseServices_table (k := 0) he).2.1, ?_⟩
    refine not_congr ⟨?_, ?_⟩
    · rintro ⟨-, hpm, p, hp, hexec⟩
      exact ⟨p, hp, hexec.trans (Option.some.inj (hpm.symm.trans he))⟩
    · rintro ⟨p, hp, rfl⟩
      have hpm : p.exec = pmExec := by
        have hforked := hb.forked p hp
        cases hpar : p.parent with
        | init =>
          rw [hpar] at hforked
          obtain ⟨k, hk, hk'⟩ := hforked
          exact absurd hk' ((phaseServices_table he).1 hk)
        | manager m j =>
          rw [hpar] at hforked
          obtain ⟨⟨s, hs, -⟩, -⟩ := hforked
          have hlate := hb.late m (Or.inl (hb.manager m s hs).1)
          exact (phaseServices_table (k := 0) he).2.2 hlate
        | monitor =>
          rw [hpar] at hforked
          exact hforked
      exact ⟨rfl, he.trans (congrArg some hpm), p, hp, hpm⟩

/-- The system of a health monitor. -/
theorem spec_system {forked : Bool} (hb : Wf b) (h : OneInstance b)
    (hstep : step b (.system i forked) = some b') :
    Wf b' ∧ (¬ Collides b (.system i forked) ↔ OneInstance b') := by
  rw [step] at hstep
  split at hstep
  next m hm =>
    obtain ⟨m', -, rfl⟩ := Option.map_eq_some_iff.1 hstep
    have hexec := hb.monitor i m hm
    have hgoto : Wf (b.goto i (.monitor m')) :=
      hb.goto hm (by simp) (fun _ _ ↦ hexec) (by simp)
    have hsame : OneInstance (b.goto i (.monitor m')) ↔ OneInstance b :=
      oneInstance_goto hm (by simp) (by simp)
    cases forked with
    | false =>
      rw [if_neg Bool.false_ne_true, fork_nil]
      exact ⟨hgoto, iff_of_true (fun hc ↦ Bool.false_ne_true hc.1) (hsame.2 h)⟩
    | true =>
      rw [if_pos rfl, oneInstance_fork (hsame.2 h), ← forall_exec_ne, exec_goto, forall_exec_ne]
      refine ⟨hgoto.fork rfl fun _ ↦ hb.late i (Or.inr hexec), not_congr ⟨?_, ?_⟩⟩
      · exact fun hc ↦ hc.2
      · exact fun hc ↦ ⟨rfl, hc⟩
  next => cases hstep

/-- A daemon, whose `unlink` and `bind` are steps from one phase to another. -/
theorem Wf.daemon {phase phase' : Daemon} (hb : Wf b) (hi : b.program i = some (.daemon phase)) :
    Wf (b.goto i (.daemon phase')) :=
  hb.goto hi (by simp) (by simp) (by simp)

theorem spec_unlink (hb : Wf b) (h : OneInstance b) (hstep : step b (.unlink i) = some b') :
    Wf b' ∧ (¬ Collides b (.unlink i) ↔ OneInstance b') := by
  rw [step] at hstep
  split at hstep
  next hi _ =>
    obtain rfl := Option.some.inj hstep
    refine ⟨(hb.daemon hi).unlink _, iff_of_true id ?_⟩
    exact oneInstance_congr (b := b.goto i (.daemon .unlinked)) rfl
      ((oneInstance_goto hi (by simp) (by simp)).2 h)
  next => cases hstep

theorem spec_bind (hb : Wf b) (h : OneInstance b) (hstep : step b (.bind i) = some b') :
    Wf b' ∧ (¬ Collides b (.bind i) ↔ OneInstance b') := by
  rw [step] at hstep
  split at hstep
  next path hi hpath =>
    obtain rfl := Option.some.inj hstep
    by_cases hex : path ∈ b.paths
    · rw [if_pos hex, oneInstance_goto hi (by simp) (by simp)]
      refine ⟨hb.daemon hi, iff_of_true ?_ h⟩
      rintro ⟨hipc, hnot, -⟩
      obtain rfl := Option.some.inj (hpath.symm.trans hipc)
      exact hnot hex
    · have hsame : OneInstance ((b.goto i (.daemon .bound)).create path) ↔
          OneInstance (b.goto i (.daemon .bound)) :=
        ⟨oneInstance_congr rfl, oneInstance_congr rfl⟩
      rw [if_neg hex, hsame, oneInstance_bind h hi (by simp) hpath]
      refine ⟨(hb.daemon hi).create path, not_congr ⟨?_, ?_⟩⟩
      · rintro ⟨hipc, -, p, hp, hbound⟩
        exact ⟨p, hp, hbound.trans (hipc.symm.trans hpath)⟩
      · rintro ⟨p, hp, hbound⟩
        obtain ⟨e, hexec, he⟩ := Option.bind_eq_some_iff.1 hpath
        -- the other process is another one, so it runs another executable
        have hipc : path = ipcSocket := by
          obtain ⟨k, hk⟩ := List.mem_iff_getElem?.1 hp
          have hki : k ≠ i := by
            rintro rfl
            rw [State.program, hk, Option.map_some, Option.some.injEq] at hi
            rw [Proc.bound, hi] at hbound
            cases hbound
          have hsocket : socketPath p.exec = some path := by
            rw [Proc.bound] at hbound
            split at hbound
            · exact hbound
            · cases hbound
          have hkexec : b.exec k = some p.exec := by rw [State.exec, hk, Option.map_some]
          refine (socketPath_inj he hsocket).resolve_left fun heq ↦ hki ?_
          exact h.execs (heq ▸ hkexec) hexec
        exact ⟨hipc ▸ hpath, hipc ▸ hex, p, hp, hipc ▸ hbound⟩
  next => cases hstep

/-- A check of a health monitor. -/
theorem spec_probe {up : Bool} (hb : Wf b) (h : OneInstance b)
    (hstep : step b (.probe i up) = some b') :
    Wf b' ∧ (¬ Collides b (.probe i up) ↔ OneInstance b') := by
  rw [step] at hstep
  split at hstep
  next m hm =>
    obtain ⟨m', -, rfl⟩ := Option.map_eq_some_iff.1 hstep
    refine ⟨hb.goto hm (by simp) (fun _ _ ↦ hb.monitor i m hm) (by simp), iff_of_true id ?_⟩
    exact (oneInstance_goto hm (by simp) (by simp)).2 h
  next => cases hstep

/-- What a statement of a process manager forks, if it does. -/
theorem children_cases {s : ProcessManager.State} (hi : b.program i = some (.manager s))
    (l : ProcessManager.Label) :
    b.children i l = [] ∨ ∃ j v, s.forks l = some j ∧ s.shared.services[j]? = some v ∧
      b.children i l = [.new (.manager i j) v.exec] := by
  have hchildren : b.children i l = ((s.forks l).bind fun j ↦ s.shared.services[j]?.map fun v ↦
      Proc.new (.manager i j) v.exec).toList := by
    rw [State.children, hi]
  cases hj : s.forks l with
  | none =>
    rw [hchildren, hj]
    exact Or.inl rfl
  | some j =>
    rw [hchildren, hj, Option.bind_some]
    cases hv : s.shared.services[j]? with
    | none => exact Or.inl rfl
    | some v => exact Or.inr ⟨j, v, rfl, hv, rfl⟩

/-- A process manager. -/
theorem spec_manager {l : ProcessManager.Label} (hb : Wf b) (h : OneInstance b)
    (hstep : step b (.manager i l) = some b') :
    Wf b' ∧ (¬ Collides b (.manager i l) ↔ OneInstance b') := by
  rw [step] at hstep
  split at hstep
  next s hs =>
    obtain ⟨hown, hout⟩ := Option.ite_none_right_eq_some.1 hstep
    obtain ⟨s', hs', rfl⟩ := Option.map_eq_some_iff.1 hout
    obtain ⟨hexec, hund⟩ := hb.manager i s hs
    have hforked := hund.forked_step hown hs'
    have hgoto : Wf (b.goto i (.manager s')) := by
      refine hb.goto hs (fun t ht ↦ ?_) (by simp) (fun t ht ↦ ?_)
      · obtain rfl := Program.manager.inj ht
        exact ⟨hexec, hund.step hown hs'⟩
      · obtain rfl := Program.manager.inj ht
        exact ⟨s', rfl, hforked ▸ List.subset_append_left _ _⟩
    have hsame : OneInstance (b.goto i (.manager s')) :=
      (oneInstance_goto hs (by simp) (by simp)).2 h
    rcases children_cases hs l with hnil | ⟨j, v, hj, hv, hcons⟩
    · rw [hnil, fork_nil]
      refine ⟨hgoto, iff_of_true ?_ hsame⟩
      rintro ⟨c, hc, -⟩
      rw [hnil] at hc
      cases hc
    · rw [hcons, oneInstance_fork hsame, ← forall_exec_ne, exec_goto, forall_exec_ne]
      obtain ⟨hnew, htable⟩ := hund.fork hown hj
      have hreg := getElem?_juliusServices htable hv
      have hparent : (b.goto i (.manager s')).Forked v.exec (.manager i j) := by
        refine ⟨⟨s', program_goto_self hs, ?_⟩, hreg⟩
        rw [hforked, hj]
        exact List.mem_append_right _ (List.mem_singleton_self j)
      refine ⟨hgoto.fork hparent fun _ ↦ hb.late i (Or.inl hexec), not_congr ⟨?_, ?_⟩⟩
      · rintro ⟨c, hc, p, hp, -, hpexec⟩
        rw [hcons, List.mem_singleton] at hc
        exact ⟨p, hp, hpexec.trans (congrArg Proc.exec hc)⟩
      · rintro ⟨p, hp, hpexec⟩
        refine ⟨_, by rw [hcons]; exact List.mem_singleton_self _, p, hp, ?_, hpexec⟩
        have hfrom := hb.forked p hp
        cases hpar : p.parent with
        | init => rfl
        | manager m k =>
          -- only one process manager is running, and it has not forked for this service
          rw [hpar, hpexec] at hfrom
          obtain ⟨⟨t, ht, hk⟩, hregk⟩ := hfrom
          obtain rfl := h.execs (hb.manager m t ht).1 hexec
          obtain rfl : k = j := (juliusServices_table hreg k).2 hregk
          obtain rfl := Program.manager.inj (Option.some.inj (ht.symm.trans hs))
          exact absurd hk hnew
        | monitor =>
          rw [hpar, hpexec] at hfrom
          exact absurd hfrom (juliusServices_table hreg j).1
  next => cases hstep

/-- **A step from a state with one instance of each service leads to such a state exactly if it
does not collide.** -/
theorem spec_step {l : Label} (hb : Wf b) (h : OneInstance b) (hstep : boot.step b l = some b') :
    Wf b' ∧ (¬ Collides b l ↔ OneInstance b') := by
  cases l with
  | init forked => exact spec_init hb h hstep
  | unlink i => exact spec_unlink hb h hstep
  | bind i => exact spec_bind hb h hstep
  | manager i l => exact spec_manager hb h hstep
  | probe i up => exact spec_probe hb h hstep
  | system i forked => exact spec_system hb h hstep

theorem wf_start : Wf .start where
  manager := by simp [State.program, State.start]
  monitor := by simp [State.program, State.start]
  late := by simp [State.exec, State.start]
  forked := by simp [State.start]

theorem oneInstance_start : OneInstance .start where
  execs := by
    intro i k e hi
    simp [State.exec, State.start] at hi
  sockets := by
    intro i k e hi
    simp [State.bound, State.start] at hi

/-! ### Every boot -/

/-- **In every state of a boot each service has one instance exactly if no step of the boot
collides.** -/
theorem one_instance_iff {b₀ b : State} {ls : List Label} (hinit : boot.Init b₀)
    (hrun : boot.run b₀ ls = some b) :
    boot.Guarded (fun c l ↦ ¬ Collides c l) b₀ ls ↔
      ∀ n c, boot.run b₀ (ls.take n) = some c → OneInstance c := by
  obtain rfl : b₀ = .start := hinit
  exact Machine.guarded_iff_forall_take (fun c l c' hc h hstep ↦ spec_step hc h hstep)
    wf_start oneInstance_start hrun

/-- `phase_services` starts its services, and `julius_pm` registers its own. -/
def startLabels : List Label :=
  List.replicate 13 (.init true) ++ List.replicate 12 (.manager 12 (.main none))

/-- Then it starts `julius_core`, which binds its path. -/
def coreLabels : List Label :=
  startLabels ++ List.replicate 6 (.manager 12 (.main (some 100))) ++ [.unlink 13, .bind 13]

/-- So far each service has one instance. -/
theorem one_instance_core :
    ∃ b, boot.run .start coreLabels = some b ∧
      ∀ n c, boot.run .start (coreLabels.take n) = some c → OneInstance c := by
  have hrun : (boot.run .start coreLabels).isSome = true := by decide +kernel
  obtain ⟨b, hb⟩ := Option.isSome_iff_exists.1 hrun
  exact ⟨b, hb, (one_instance_iff rfl hb).1 (by decide +kernel)⟩

/-- It starts `julius_core` and `julius_enclave`. -/
def enclaveLabels : List Label :=
  startLabels ++ List.replicate 6 (.manager 12 (.main (some 100))) ++
    List.replicate 4 (.manager 12 (.main (some 101)))

/-- `julius_enclave` has two processes then. -/
theorem not_one_instance_enclave :
    ∃ b, boot.run .start enclaveLabels = some b ∧ ¬ OneInstance b := by
  have hrun : (boot.run .start enclaveLabels).map (fun b ↦ (b.exec 1, b.exec 14)) =
      some (some "/usr/bin/julius_enclave", some "/usr/bin/julius_enclave") := by decide +kernel
  obtain ⟨b, hb, hexecs⟩ := Option.map_eq_some_iff.1 hrun
  obtain ⟨h1, h14⟩ := Prod.mk.inj hexecs
  exact ⟨b, hb, fun h ↦ absurd (h.execs h1 h14) (by decide)⟩

end JuliusOS.Boot
