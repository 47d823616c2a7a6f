import JuliusOS.ProcessManager.StrayKill
import JuliusOS.ProcessManager.Undisturbed

/-!
# The budget of restarts

What the process manager does about services that exit, in runs without signals. A service's
**ledger** compares the forks made for it, and those that may still come of statements already
under way, with `restart_count`; and it says where the `pid` of a service that does not run is -1.

* `Calm.step`: every step keeps the ledgers;
* `restart_budget`: so each service is forked for at most `1 + max_restarts` times, and a service
  that is not restarted stays as it is.
-/

namespace JuliusOS.ProcessManager

/-- No signal is delivered. -/
def Label.isSignal : Label → Bool
  | .signal _ => true
  | _ => false

/-- A successful `fork` for service `i`. -/
def Obs.isFork (i : ℕ) : Obs → Bool
  | .fork k _ => k = i
  | _ => false

/-- How many times service `i` was forked for. -/
def Shared.forks (σ : Shared) (i : ℕ) : ℕ := σ.trace.countP (Obs.isFork i)

/-- The forks that may still come of a call of `pm_start`. -/
def StartPc.due : StartPc → ℕ
  | .check | .setStarting | .fork => 1
  | _ => 0

/-- The forks that may still come of a restart that was counted. -/
def BodyPc.due : BodyPc → ℕ
  | .unlock | .sleep => 1
  | .start _ pc => pc.due
  | _ => 0

/-- The statements before which a service that does not run may have another `pid` than -1. -/
def BodyPc.Between : BodyPc → Prop
  | .clearPid | .start _ .setRunning => True
  | _ => False

/-- The ledger of a service: `due` forks may still come, `forks` were made, and the watchdog and the
main thread are at the given statements. -/
structure Ledger (due forks : ℕ) (body : Option BodyPc) (start : Option StartPc) (v : Service) :
    Prop where
  /-- The forks are paid for. -/
  budget : forks + due ≤ 1 + v.restartCount
  /-- The budget is not exceeded. -/
  count : v.restartCount ≤ v.maxRestarts
  /-- Nor is it when the watchdog comes to count. -/
  restarts : body = some .count → v.restartCount < v.maxRestarts
  /-- A service that does not run has no child. -/
  pid : v.state ≠ .running → (∀ pc, body = some pc → ¬ pc.Between) → start ≠ some .setRunning →
    v.pid = -1

/-- The forks for service `i` that may still come. -/
def State.due (s : State) (i : ℕ) : ℕ :=
  s.main.unforked.count i + (s.roles i).body.elim 0 BodyPc.due

/-- The ledger of service `i`. -/
def State.Ledger (s : State) (i : ℕ) (v : Service) : Prop :=
  ProcessManager.Ledger (s.due i) (s.shared.forks i) (s.roles i).body (s.roles i).start v

/-- All ledgers are in order. -/
def State.Ledgers (s : State) : Prop := ∀ i v, s.shared.services[i]? = some v → s.Ledger i v

/-! ### The statements -/

variable {σ σ' : Shared} {v : Service} {i j k : ℕ} {forked : Option ℤ} {reaped : ℤ}

/-- What a statement about service `i` leaves alone. -/
structure Frame (σ σ' : Shared) (i : ℕ) : Prop where
  /-- Nobody asks the threads to end. -/
  running : σ'.running = σ.running
  /-- Nothing is forked for the other services. -/
  others : ∀ k ≠ i, σ'.forks k = σ.forks k

/-- What a statement of `pm_start` for service `i` does to its ledger. -/
structure StartEffect (σ σ' : Shared) (i : ℕ) (v : Service) (pc : StartPc) (pc' : Option StartPc)
    (f : Service → Service) : Prop extends Frame σ σ' i where
  services : σ'.services = σ.services.modify i f
  count : (f v).restartCount = v.restartCount ∧ (f v).maxRestarts = v.maxRestarts
  forks : σ'.forks i + pc'.elim 0 StartPc.due ≤ σ.forks i + pc.due
  pid : (v.state ≠ .running → pc ≠ .setRunning → v.pid = -1) →
    (f v).state ≠ .running → pc' ≠ some .setRunning → (f v).pid = -1

theorem startEffect_of_pmStart {pc : StartPc} {pc' : Option StartPc}
    (hstate : pc ≠ .check → v.state ≠ .running)
    (h : pmStart σ i v forked pc = some (pc', σ')) : ∃ f, StartEffect σ σ' i v pc pc' f := by
  cases pc with
  | check =>
    obtain ⟨rfl, rfl⟩ := Prod.mk.inj (Option.some.inj h)
    refine ⟨id, ⟨rfl, fun _ _ ↦ rfl⟩, (List.modify_id i _).symm, ⟨rfl, rfl⟩, ?_,
      fun hpid hrun _ ↦ hpid hrun nofun⟩
    split
    · exact Nat.le_add_right ..
    · exact Nat.le_refl _
  | setStarting =>
    obtain ⟨rfl, rfl⟩ := Prod.mk.inj (Option.some.inj h)
    exact ⟨_, ⟨rfl, fun _ _ ↦ rfl⟩, rfl, ⟨rfl, rfl⟩, Nat.le_refl _, fun hpid _ _ ↦
      hpid (hstate nofun) nofun⟩
  | fork =>
    cases forked with
    | none =>
      obtain ⟨rfl, rfl⟩ := Prod.mk.inj (Option.some.inj h)
      exact ⟨id, ⟨rfl, fun _ _ ↦ rfl⟩, (List.modify_id i _).symm, ⟨rfl, rfl⟩, Nat.le_add_right ..,
        fun hpid hrun _ ↦ hpid hrun nofun⟩
    | some pid =>
      obtain ⟨-, hout⟩ := Option.ite_none_right_eq_some.1 h
      obtain ⟨rfl, rfl⟩ := Prod.mk.inj (Option.some.inj hout)
      have hforks (k : ℕ) : (σ.fork i pid).forks k = σ.forks k + if i = k then 1 else 0 := by
        show (σ.trace ++ [Obs.fork i pid]).countP (Obs.isFork k) = _
        rw [List.countP_append, List.countP_singleton]
        simp [Obs.isFork, Shared.forks]
      refine ⟨id, ⟨rfl, fun k hk ↦ ?_⟩, (List.modify_id i _).symm, ⟨rfl, rfl⟩, ?_,
        fun hpid hrun _ ↦ hpid hrun nofun⟩
      · rw [hforks, if_neg (Ne.symm hk), Nat.add_zero]
      · rw [hforks, if_pos rfl]
        exact Nat.le_refl _
  | setFailed =>
    obtain ⟨rfl, rfl⟩ := Prod.mk.inj (Option.some.inj h)
    exact ⟨_, ⟨rfl, fun _ _ ↦ rfl⟩, rfl, ⟨rfl, rfl⟩, Nat.le_refl _, fun hpid _ _ ↦
      hpid (hstate nofun) nofun⟩
  | setPid pid =>
    obtain ⟨rfl, rfl⟩ := Prod.mk.inj (Option.some.inj h)
    exact ⟨_, ⟨rfl, fun _ _ ↦ rfl⟩, rfl, ⟨rfl, rfl⟩, Nat.le_refl _, fun _ _ hne ↦ absurd rfl hne⟩
  | setRunning =>
    obtain ⟨rfl, rfl⟩ := Prod.mk.inj (Option.some.inj h)
    exact ⟨_, ⟨rfl, fun _ _ ↦ rfl⟩, rfl, ⟨rfl, rfl⟩, Nat.le_refl _, fun _ hrun _ ↦ absurd rfl hrun⟩

/-- A `waitpid` forks for nobody. -/
theorem frame_poll {pid ret : ℤ} (h : σ.poll i pid reaped = some (ret, σ')) :
    Frame σ σ' i ∧ σ'.forks i = σ.forks i := by
  obtain ⟨rest, -, rfl⟩ := poll_eq_some h
  have hforks (k : ℕ) :
      Shared.forks { σ.call .waitpid i pid with children := rest } k = σ.forks k := by
    show (σ.trace ++ [_]).countP (Obs.isFork k) = _
    rw [List.countP_append]
    rfl
  exact ⟨⟨rfl, fun k _ ↦ hforks k⟩, hforks i⟩

/-- The watchdog goes on, or leaves the loop body, and leaves the entry as it is. -/
theorem Ledger.goOn {due due' forks : ℕ} {pc : BodyPc} {body : Option BodyPc}
    (h : Ledger due forks (some pc) none v) (hpc : ¬ pc.Between) (hdue : due' ≤ due)
    (hcount : body = some .count → v.restartCount < v.maxRestarts) :
    Ledger due' forks body none v where
  budget := Nat.le_trans (Nat.add_le_add_left hdue _) h.budget
  count := h.count
  restarts := hcount
  pid hrun _ _ := h.pid hrun (fun _ heq ↦ Option.some.inj heq ▸ hpc) nofun

/-- A statement of a restart keeps the ledger; `body` is where the watchdog is after it. -/
theorem Ledger.start {m : ℕ} {pc : StartPc} {pc' : Option StartPc} {f : Service → Service}
    {body : BodyPc} (hledger : Ledger (m + pc.due) (σ.forks i) (some (.start i pc)) none v)
    (heffect : StartEffect σ σ' i v pc pc' f) (hdue : body.due = pc'.elim 0 StartPc.due)
    (hne : body ≠ .count) (hbetween : ¬ body.Between → pc' ≠ some .setRunning) :
    Ledger (m + body.due) (σ'.forks i) (some body) none (f v) := by
  have hbudget := hledger.budget
  have hforks := heffect.forks
  have hcount := hledger.count
  obtain ⟨hrestarts, hmax⟩ := heffect.count
  have hpid (hrun : v.state ≠ .running) (hpc : pc ≠ .setRunning) : v.pid = -1 := by
    refine hledger.pid hrun (fun b hb hbetween ↦ ?_) nofun
    obtain rfl := Option.some.inj hb
    cases pc <;> first | exact hpc rfl | exact hbetween
  constructor
  · rw [hdue]
    omega
  · omega
  · exact fun heq ↦ absurd (Option.some.inj heq) hne
  · exact fun hrun hb _ ↦ heffect.pid hpid hrun (hbetween (hb _ rfl))

/-- **A statement of the watchdog's loop body** keeps the service's ledger, whatever the main
thread may still fork for. -/
theorem ledger_watchdogBody {m : ℕ} {pc : BodyPc} {w : WatchdogPc}
    (hledger : Ledger (m + pc.due) (σ.forks i) (some pc) none v)
    (hstate : pc.Restarting → v.state ≠ .running) (htarget : ∀ j p, pc = .start j p → j = i)
    (hfind : findService σ.services v.name = some i) (hv : σ.services[i]? = some v)
    (h : watchdogBody σ i v forked reaped pc = some (w, σ')) :
    ∃ f : Service → Service, σ'.services = σ.services.modify i f ∧
      Ledger (m + (w.bodyAt i).elim 0 BodyPc.due) (σ'.forks i) (w.bodyAt i) none (f v) ∧
      Frame σ σ' i := by
  have hid : σ.services = σ.services.modify i id := (List.modify_id i _).symm
  cases pc with
  | poll =>
    obtain ⟨⟨ret, σ₀⟩, hpoll, hout⟩ := Option.map_eq_some_iff.1 h
    obtain ⟨rfl, rfl⟩ := Prod.mk.inj hout
    obtain ⟨rest, -, hσ⟩ := poll_eq_some hpoll
    obtain ⟨hframe, hforks⟩ := frame_poll hpoll
    refine ⟨id, ?_, ?_, hframe⟩
    · rw [hσ]
      exact hid
    · rw [hforks]
      split
      · rw [bodyAt_body_self]
        exact hledger.goOn id (Nat.le_refl _) nofun
      · exact hledger.goOn id (Nat.le_refl _) nofun
  | setFailed =>
    obtain ⟨rfl, rfl⟩ := Prod.mk.inj (Option.some.inj h)
    refine ⟨_, rfl, ?_, ⟨rfl, fun _ _ ↦ rfl⟩⟩
    rw [bodyAt_body_self]
    exact ⟨hledger.budget, hledger.count, nofun, fun _ hbetween _ ↦
      absurd trivial (hbetween _ rfl)⟩
  | clearPid =>
    obtain ⟨rfl, rfl⟩ := Prod.mk.inj (Option.some.inj h)
    refine ⟨_, rfl, ?_, ⟨rfl, fun _ _ ↦ rfl⟩⟩
    rw [bodyAt_body_self]
    exact ⟨hledger.budget, hledger.count, nofun, fun _ _ _ ↦ rfl⟩
  | test =>
    obtain ⟨rfl, rfl⟩ := Prod.mk.inj (Option.some.inj h)
    refine ⟨id, hid, ?_, ⟨rfl, fun _ _ ↦ rfl⟩⟩
    split
    next hrestarts =>
      rw [bodyAt_body_self]
      exact hledger.goOn id (Nat.le_refl _) fun _ ↦ hrestarts.2
    next => exact hledger.goOn id (Nat.le_refl _) nofun
  | count =>
    obtain ⟨rfl, rfl⟩ := Prod.mk.inj (Option.some.inj h)
    refine ⟨_, rfl, ?_, ⟨rfl, fun _ _ ↦ rfl⟩⟩
    have hbudget := hledger.budget
    have hout : Ledger _ _ none none _ := hledger.goOn id (Nat.le_refl _) nofun
    have hpid := hout.pid
    rw [bodyAt_body_self]
    refine ⟨?_, hledger.restarts rfl, nofun, fun hrun _ _ ↦ hpid hrun nofun nofun⟩
    -- the fork that may come is paid for by the count
    show σ.forks i + (m + 1) ≤ 1 + (v.restartCount + 1)
    simp only [BodyPc.due] at hbudget
    omega
  | unlock =>
    obtain ⟨rfl, rfl⟩ := Prod.mk.inj (Option.some.inj h)
    refine ⟨id, hid, ?_, ⟨rfl, fun _ _ ↦ rfl⟩⟩
    rw [bodyAt_body_self]
    exact hledger.goOn id (Nat.le_refl _) nofun
  | sleep =>
    obtain ⟨rfl, rfl⟩ := Prod.mk.inj (Option.some.inj h)
    refine ⟨id, hid, ?_, ⟨rfl, fun _ _ ↦ rfl⟩⟩
    rw [hfind]
    dsimp only
    rw [bodyAt_body_self]
    exact hledger.goOn id (Nat.le_refl _) nofun
  | start j p =>
    obtain rfl := htarget j p rfl
    obtain ⟨⟨p', σ₀⟩, hstart, hout⟩ := Option.map_eq_some_iff.1 h
    obtain ⟨rfl, rfl⟩ := Prod.mk.inj hout
    rw [hv, Option.bind_some] at hstart
    obtain ⟨f, heffect⟩ := startEffect_of_pmStart (fun _ ↦ hstate trivial) hstart
    refine ⟨f, heffect.services, ?_, heffect.toFrame⟩
    cases p' with
    | none =>
      dsimp only
      rw [bodyAt_body_self]
      show Ledger (m + BodyPc.relock.due) _ _ _ _
      exact hledger.start heffect rfl (by rintro ⟨⟩) fun _ ↦ by rintro ⟨⟩
    | some p' =>
      dsimp only
      rw [bodyAt_body_self]
      show Ledger (m + (BodyPc.start j p').due) _ _ _ _
      refine hledger.start heffect rfl (by rintro ⟨⟩) fun hbetween ↦ ?_
      rintro ⟨⟩
      exact hbetween trivial
  | relock =>
    obtain ⟨-, hout⟩ := Option.ite_none_left_eq_some.1 h
    obtain ⟨rfl, rfl⟩ := Prod.mk.inj (Option.some.inj hout)
    exact ⟨id, hid, hledger.goOn id (Nat.le_refl _) nofun, ⟨rfl, fun _ _ ↦ rfl⟩⟩

/-- The forks that may still come of a call of `pm_start` in the main thread. -/
theorem count_unforked_start (todo : List ℕ) (j : ℕ) (pc : StartPc) (k : ℕ) :
    (MainPc.start todo j pc).unforked.count k = todo.count k + if j = k then pc.due else 0 := by
  cases pc with
  | check | setStarting | fork =>
    show (j :: todo).count k = todo.count k + if j = k then 1 else 0
    rw [List.count_cons]
    simp
  | setFailed | setPid | setRunning =>
    show todo.count k = todo.count k + if j = k then 0 else 0
    rw [ite_self, Nat.add_zero]

/-! ### The threads -/

variable {s s' : State} {l : Label}

/-- While nobody asks it to end, the main thread does not end. -/
theorem going_mainThread {m m' : MainPc} (hm : m ≠ .cancel ∧ m ≠ .exit)
    (hrunning : σ.running = true)
    (h : mainThread σ forked m = some (m', σ')) : (m' ≠ .cancel ∧ m' ≠ .exit) ∧
      ∀ todo, m' = .register todo → ∃ todo', m = .register todo' ∧ σ'.trace = σ.trace := by
  cases m with
  | register todo =>
    cases todo with
    | nil | cons =>
      obtain ⟨rfl, rfl⟩ := Prod.mk.inj (Option.some.inj h)
      exact ⟨⟨nofun, nofun⟩, fun _ _ ↦ ⟨_, rfl, rfl⟩⟩
  | starting todo =>
    cases todo with
    | nil => cases h
    | cons i todo =>
      obtain ⟨v, -, hout⟩ := Option.map_eq_some_iff.1 h
      obtain ⟨rfl, rfl⟩ := Prod.mk.inj hout
      split <;> exact ⟨⟨nofun, nofun⟩, nofun⟩
  | start todo j pc =>
    obtain ⟨⟨pc₁, σ₁⟩, -, hout⟩ := Option.map_eq_some_iff.1 h
    obtain ⟨rfl, rfl⟩ := Prod.mk.inj hout
    split <;> exact ⟨⟨nofun, nofun⟩, nofun⟩
  | loop =>
    obtain ⟨rfl, rfl⟩ := Prod.mk.inj (Option.some.inj h)
    rw [if_pos hrunning]
    exact ⟨⟨nofun, nofun⟩, nofun⟩
  | cancel => exact absurd rfl hm.1
  | exit => exact absurd rfl hm.2
  | exited => cases h

/-- Once it has created the watchdog, the main thread changes nothing. -/
theorem shared_mainThread {m m' : MainPc} (hboot : ¬ m.Booting)
    (h : mainThread σ forked m = some (m', σ')) : σ = σ' := by
  cases m with
  | register | starting | start => exact absurd trivial hboot
  | loop | cancel | exit =>
    obtain ⟨rfl, rfl⟩ := Prod.mk.inj (Option.some.inj h)
    rfl
  | exited => cases h

/-- What holds in every state of a run without signals. -/
structure Calm (s : State) : Prop extends Inv s where
  /-- No signal is being handled. -/
  handler : s.handler = none
  /-- Nobody has asked the threads to end. -/
  running : s.shared.running = true
  /-- The main thread does not end. -/
  going : s.main ≠ .cancel ∧ s.main ≠ .exit
  /-- Nothing is forked before all services are registered. -/
  registering : ∀ todo, s.main = .register todo → ∀ i, s.shared.forks i = 0
  /-- The ledgers are in order. -/
  ledger : s.Ledgers

namespace Calm

/-- A run without signals needs no guard. -/
theorem inv (hs : Calm s) (hl : l.isSignal = false) (h : ProcessManager.step s l = some s') :
    Inv s' := by
  have hstop (i : ℕ) : (s.roles i).stop = none := by rw [State.roles, hs.handler, Option.bind_none]
  refine hs.toInv.step ?_ h
  cases l with
  | watchdog forked reaped =>
    intro i v _ _ _ pc hpc
    rw [hstop] at hpc
    cases hpc
  | handler reaped =>
    intro i v _ pc hpc
    rw [hstop] at hpc
    cases hpc
  | cancelled =>
    cases does_of_step h with
    | cancelled hexit => exact absurd hexit hs.going.2
  | main | signal | childExit => trivial

/-- The ledgers after a statement about one service. -/
theorem ledger_update {f : Service → Service} (hs : Calm s)
    (hv : s.shared.services[i]? = some v)
    (hservices : s'.shared.services = s.shared.services.modify i f) (hledger : s'.Ledger i (f v))
    (hothers : ∀ k ≠ i, s'.due k = s.due k ∧ s'.shared.forks k = s.shared.forks k ∧
      s'.roles k = s.roles k) :
    s'.Ledgers := by
  intro k w hw
  rw [hservices] at hw
  by_cases hk : i = k
  · obtain rfl := hk
    rw [List.getElem?_modify_eq, hv] at hw
    exact Option.some.inj hw ▸ hledger
  · rw [List.getElem?_modify_ne _ _ hk] at hw
    obtain ⟨hdue, hforks, hroles⟩ := hothers k (Ne.symm hk)
    rw [State.Ledger, hdue, hforks, hroles]
    exact hs.ledger k w hw

/-- The ledgers after a statement about no service. -/
theorem ledger_same (hs : Calm s) (hservices : s'.shared.services = s.shared.services)
    (htrace : s'.shared.trace = s.shared.trace) (hdue : ∀ k, s'.due k = s.due k)
    (hroles : ∀ k, s'.roles k = s.roles k) :
    s'.Ledgers := by
  intro k w hw
  rw [hservices] at hw
  rw [State.Ledger, hdue, hroles, Shared.forks, htrace]
  exact hs.ledger k w hw

/-- **A statement of the watchdog** keeps the ledgers, and asks nobody to end. -/
theorem ledger_watchdog {w w' : WatchdogPc} (hs : Calm s) (hw : s.watchdog = some w)
    (h : watchdogThread s.shared forked reaped w = some (w', σ')) :
    State.Ledgers { s with watchdog := some w', shared := σ' } ∧
      σ'.running = s.shared.running := by
  have hstart := hs.start_eq_none (by rw [hw]; rintro ⟨⟩)
  have hbody : ∀ i, (s.roles i).body = w.bodyAt i := fun i ↦ by
    rw [State.roles, hw, Option.bind_some]
  -- a statement about no service
  have hsame : ∀ {w₁ : WatchdogPc} {σ₁ : Shared}, (∀ i, w.bodyAt i = none) →
      (∀ i, w₁.bodyAt i = none) → σ₁.services = s.shared.services → σ₁.trace = s.shared.trace →
      σ₁.running = s.shared.running →
      State.Ledgers { s with watchdog := some w₁, shared := σ₁ } ∧
        σ₁.running = s.shared.running := by
    intro w₁ σ₁ h₀ h₁ hservices htrace hrunning
    have hroles (i : ℕ) :
        State.roles { s with watchdog := some w₁, shared := σ₁ } i = s.roles i := by
      rw [roles_watchdog, h₁, ← h₀ i, ← hbody]
    refine ⟨hs.ledger_same hservices htrace (fun i ↦ ?_) hroles, hrunning⟩
    rw [State.due, hroles, State.due]
  cases w with
  | test =>
    obtain ⟨rfl, rfl⟩ := Prod.mk.inj (Option.some.inj h)
    refine hsame (fun _ ↦ rfl) (fun i ↦ ?_) rfl rfl rfl
    split <;> rfl
  | lock =>
    obtain ⟨-, hout⟩ := Option.ite_none_left_eq_some.1 h
    obtain ⟨rfl, rfl⟩ := Prod.mk.inj (Option.some.inj hout)
    exact hsame (fun _ ↦ rfl) (fun _ ↦ rfl) rfl rfl rfl
  | loop i =>
    obtain ⟨rfl, rfl⟩ := Prod.mk.inj (Option.some.inj h)
    cases hv : s.shared.services[i]? with
    | none => exact hsame (fun _ ↦ rfl) (fun _ ↦ rfl) rfl rfl rfl
    | some v =>
      dsimp only
      split
      next hrun =>
        have hledger := hs.ledger i v hv
        rw [State.Ledger, State.due, hbody] at hledger
        refine ⟨hs.ledger_update (f := id) hv (List.modify_id i _).symm ?_ fun k hk ↦ ?_, rfl⟩
        · rw [State.Ledger, State.due, roles_watchdog, bodyAt_body_self]
          exact ⟨hledger.budget, hledger.count, by rintro ⟨⟩, fun hne ↦ absurd hrun hne⟩
        · have hroles : State.roles { s with watchdog := some (.body i .poll) } k = s.roles k := by
            rw [roles_watchdog, bodyAt_body_of_ne hk, show none = (s.roles k).body from
              (hbody k).symm]
          exact ⟨by rw [State.due, hroles, State.due], rfl, hroles⟩
      next => exact hsame (fun _ ↦ rfl) (fun _ ↦ rfl) rfl rfl rfl
  | body i pc =>
    obtain ⟨v, hv, hout⟩ := Option.bind_eq_some_iff.1 h
    have hpc : (s.roles i).body = some pc := (hbody i).trans (bodyAt_body_self i pc)
    have hledger := hs.ledger i v hv
    rw [State.Ledger, State.due, hpc, hstart i] at hledger
    obtain ⟨f, hservices, hledger', hframe⟩ := ledger_watchdogBody hledger
      (fun hr ↦ (hs.good i v hv).restarting (Or.inl ⟨pc, hpc, hr⟩))
      (fun j p hp ↦ hs.starts i j p (hp ▸ hw)) (hs.findService hv) hv hout
    refine ⟨hs.ledger_update hv hservices ?_ fun k hk ↦ ?_, hframe.running⟩
    · rw [State.Ledger, State.due, roles_watchdog, hstart i]
      exact hledger'
    · have hnone : (s.roles k).body = none := (hbody k).trans (bodyAt_body_of_ne hk pc)
      have hroles :
          State.roles { s with watchdog := some w', shared := σ' } k = s.roles k := by
        rw [roles_watchdog, bodyAt_watchdogBody hout hk, ← hnone]
      exact ⟨by rw [State.due, hroles, State.due], hframe.others k hk, hroles⟩
  | unlock | sleep =>
    obtain ⟨rfl, rfl⟩ := Prod.mk.inj (Option.some.inj h)
    exact hsame (fun _ ↦ rfl) (fun _ ↦ rfl) rfl rfl rfl
  | done => cases h

/-- The end of the registrations. -/
theorem ledger_registered (hs : Calm s) (hm : s.main = .register []) (hb : s.watchdog = none) :
    State.Ledgers { s with main := .starting (startOrder s.shared.services) } := by
  intro k v hv
  have hforks := hs.registering [] hm k
  have hledger := hs.ledger k v hv
  rw [State.Ledger, State.roles, hb, hm] at hledger
  rw [State.Ledger, State.due, State.roles, hb]
  refine ⟨?_, hledger.count, by rintro ⟨⟩, hledger.pid⟩
  -- each service is started once
  have hcount := List.nodup_iff_count_le_one.1 (nodup_startOrder s.shared.services) k
  show s.shared.forks k + ((startOrder s.shared.services).count k + 0) ≤ 1 + v.restartCount
  omega

/-- A registration. -/
theorem ledger_register {reg : Registration} {todo : List Registration} (hs : Calm s)
    (hm : s.main = .register (reg :: todo)) (hb : s.watchdog = none) :
    State.Ledgers { s with
      main := .register todo
      shared := { s.shared with services := pmRegister s.shared.services reg } } := by
  intro k v hv
  have hforks := hs.registering _ hm k
  have hold (hv : s.shared.services[k]? = some v) := hs.ledger k v hv
  rw [State.Ledger, State.due, State.roles, hb, hm] at hold
  rw [State.Ledger, State.due, State.roles, hb]
  rw [pmRegister] at hv
  split at hv
  · rcases Nat.lt_or_ge k s.shared.services.length with hlt | hge
    · rw [List.getElem?_append_left hlt] at hv
      exact hold hv
    · rw [List.getElem?_append_right hge] at hv
      obtain rfl := List.mem_singleton.1 (List.mem_of_getElem? hv)
      refine ⟨?_, Nat.zero_le _, by rintro ⟨⟩, fun _ _ _ ↦ rfl⟩
      show s.shared.forks k + 0 ≤ 1 + 0
      omega
  · exact hold hv

/-- A statement of `pm_start`. -/
theorem ledger_mainStart {todo : List ℕ} {pc : StartPc} {pc' : Option StartPc} {m' : MainPc}
    (hs : Calm s) (hm : s.main = .start todo j pc) (hb : s.watchdog = none)
    (hv : s.shared.services[j]? = some v)
    (h : pmStart s.shared j v forked pc = some (pc', σ'))
    (hcount : ∀ k, m'.unforked.count k =
      todo.count k + if j = k then pc'.elim 0 StartPc.due else 0)
    (hstart : ∀ k, m'.startAt k = if j = k then pc' else none) :
    State.Ledgers { s with main := m', shared := σ' } ∧ σ'.running = s.shared.running := by
  have hpc : (s.roles j).start = some pc := by
    rw [State.roles, hm]
    exact startAt_start_self todo j pc
  have hbody (k : ℕ) : (s.roles k).body = none := by
    rw [State.roles, hb]
    rfl
  obtain ⟨f, heffect⟩ := startEffect_of_pmStart
    (fun hne ↦ (hs.good j v hv).restarting (Or.inr ⟨pc, hpc, hne⟩)) h
  have hledger := hs.ledger j v hv
  rw [State.Ledger, State.due, hm, count_unforked_start, if_pos rfl, hpc, hbody] at hledger
  refine ⟨hs.ledger_update hv heffect.services ?_ fun k hk ↦ ⟨?_, heffect.others k hk, ?_⟩,
    heffect.running⟩
  · rw [State.Ledger, State.due, hcount, if_pos rfl, roles_main, hbody, hstart, if_pos rfl]
    have hbudget := hledger.budget
    have hforks := heffect.forks
    have hmax := hledger.count
    obtain ⟨hrestarts, hmax'⟩ := heffect.count
    rw [Option.elim_none] at hbudget
    refine ⟨?_, by omega, by rintro ⟨⟩, fun hrun _ hsome ↦ ?_⟩
    · show σ'.forks j + (todo.count j + pc'.elim 0 StartPc.due + 0) ≤ 1 + (f v).restartCount
      omega
    · have hbetween : ∀ pc, (none : Option BodyPc) = some pc → ¬ pc.Between := by rintro _ ⟨⟩
      refine heffect.pid (fun hrun hne ↦ hledger.pid hrun hbetween fun heq ↦ ?_) hrun hsome
      exact hne (Option.some.inj heq)
  · rw [State.due, State.due, roles_main, hcount, hm, count_unforked_start, if_neg (Ne.symm hk),
      if_neg (Ne.symm hk)]
  · rw [roles_main, hstart, if_neg (Ne.symm hk), State.roles, hm, startAt_start_of_ne hk]

/-- **A statement of the main thread**, other than the creation of the watchdog, keeps the ledgers,
and asks nobody to end. -/
theorem ledger_main {m m' : MainPc} (hs : Calm s) (hm : s.main = m)
    (h : mainThread s.shared forked m = some (m', σ')) :
    State.Ledgers { s with main := m', shared := σ' } ∧ σ'.running = s.shared.running := by
  have hb (hboot : m.Booting) : s.watchdog = none := hs.booting (hm ▸ hboot)
  cases m with
  | register todo =>
    cases todo with
    | nil =>
      obtain ⟨rfl, rfl⟩ := Prod.mk.inj (Option.some.inj h)
      exact ⟨hs.ledger_registered hm (hb trivial), rfl⟩
    | cons reg todo =>
      obtain ⟨rfl, rfl⟩ := Prod.mk.inj (Option.some.inj h)
      exact ⟨hs.ledger_register hm (hb trivial), rfl⟩
  | starting todo =>
    cases todo with
    | nil => cases h
    | cons i todo =>
      obtain ⟨v, hv, hout⟩ := Option.map_eq_some_iff.1 h
      rw [hs.findService hv] at hout
      obtain ⟨rfl, rfl⟩ := Prod.mk.inj hout
      have hroles (k : ℕ) (hk : k ≠ i) :
          State.roles { s with main := .start todo i .check } k = s.roles k := by
        rw [roles_main, startAt_start_of_ne hk, State.roles, hm]
        rfl
      have hledger := hs.ledger i v hv
      rw [State.Ledger, State.due, State.roles, hb trivial, hm] at hledger
      refine ⟨hs.ledger_update (f := id) hv (List.modify_id i _).symm ?_ fun k hk ↦
        ⟨?_, rfl, hroles k hk⟩, rfl⟩
      · rw [State.Ledger, State.due, State.roles, startAt_start_self, hb trivial]
        exact ⟨hledger.budget, hledger.count, by rintro ⟨⟩, fun hrun hbody _ ↦
          hledger.pid hrun hbody (by rintro ⟨⟩)⟩
      · rw [State.due, State.due, hroles k hk, hm]
        rfl
  | start todo j pc =>
    obtain ⟨⟨pc₁, σ₁⟩, hbind, hout⟩ := Option.map_eq_some_iff.1 h
    obtain ⟨v, hv, hpm⟩ := Option.bind_eq_some_iff.1 hbind
    obtain ⟨rfl, rfl⟩ := Prod.mk.inj hout
    have hidle := hb trivial
    cases pc₁ with
    | none =>
      refine hs.ledger_mainStart hm hidle hv hpm (fun k ↦ ?_) fun k ↦ (ite_self none).symm
      rw [Option.elim_none, ite_self]
      rfl
    | some pc₁ =>
      exact hs.ledger_mainStart hm hidle hv hpm (count_unforked_start todo j pc₁) fun k ↦ rfl
  | loop =>
    obtain ⟨rfl, rfl⟩ := Prod.mk.inj (Option.some.inj h)
    rw [if_pos hs.running, ← hm]
    exact ⟨hs.ledger, rfl⟩
  | cancel => exact absurd hm hs.going.1
  | exit => exact absurd hm hs.going.2
  | exited => cases h

/-- **Every step without a signal** keeps the ledgers in order. -/
theorem step (hs : Calm s) (hl : l.isSignal = false) (h : ProcessManager.step s l = some s') :
    Calm s' := by
  have hinv := hs.inv hl h
  cases does_of_step h with
  | create hfree hm =>
    have hb := hs.booting (hm ▸ trivial)
    have hroles (k : ℕ) :
        State.roles { s with main := .loop, watchdog := some .test } k = s.roles k := by
      rw [State.roles, State.roles, hb, hm]
      rfl
    refine ⟨hinv, hs.handler, hs.running, ⟨by rintro ⟨⟩, by rintro ⟨⟩⟩, by rintro _ ⟨⟩, ?_⟩
    refine hs.ledger_same rfl rfl (fun k ↦ ?_) hroles
    rw [State.due, State.due, hroles, hm]
    rfl
  | main hfree hthread =>
    obtain ⟨hgoing, hregister⟩ := going_mainThread hs.going hs.running hthread
    obtain ⟨hledger, hrunning⟩ := hs.ledger_main rfl hthread
    refine ⟨hinv, hs.handler, hrunning.trans hs.running, hgoing, fun todo htodo i ↦ ?_, hledger⟩
    obtain ⟨todo', hm, htrace⟩ := hregister todo htodo
    show List.countP _ _ = 0
    rw [htrace]
    exact hs.registering todo' hm i
  | watchdog hw hthread =>
    obtain ⟨hledger, hrunning⟩ := hs.ledger_watchdog hw hthread
    refine ⟨hinv, hs.handler, hrunning.trans hs.running, hs.going, fun todo htodo ↦ ?_, hledger⟩
    -- the watchdog is created after the registrations
    rw [hs.booting (htodo ▸ trivial)] at hw
    cases hw
  | handler hpc =>
    rw [hs.handler] at hpc
    cases hpc
  | signal => cases hl
  | childExit =>
    exact ⟨hinv, hs.handler, hs.running, hs.going, hs.registering,
      hs.ledger_same rfl rfl (fun _ ↦ rfl) fun _ ↦ rfl⟩
  | cancelled hexit => exact absurd hexit hs.going.2

end Calm

/-- At the start there are no services. -/
theorem calm_of_init {registrations : List Registration}
    (hnd : (registrations.map Registration.name).Nodup)
    (h : (processManager registrations).Init s) : Calm s := by
  have hinv := inv_of_init hnd h
  obtain rfl : s = _ := h
  exact ⟨hinv, rfl, rfl, ⟨nofun, nofun⟩, fun _ _ _ ↦ rfl, nofun⟩

/-! ### A service that is not restarted -/

/-- The watchdog has waited for service `i` and does not restart it. -/
structure Down (s : State) (i : ℕ) : Prop extends Calm s where
  /-- It marks the service as failed, or has done so and starts nothing. -/
  failed : ∃ w v, s.watchdog = some w ∧ s.shared.services[i]? = some v ∧ ¬ v.Restarts ∧
    (w = .body i .setFailed ∨
      v.state = .failed ∧ ∀ pc, w.bodyAt i = some pc → pc = .clearPid ∨ pc = .test)

namespace Down

/-- A statement of the loop body. -/
theorem watchdogBody {pc : BodyPc} {w' : WatchdogPc}
    (hcalm : Calm { s with watchdog := some w', shared := σ' })
    (hv : s.shared.services[i]? = some v) (hno : ¬ v.Restarts)
    (hstate : WatchdogPc.body i pc = .body i .setFailed ∨
      v.state = .failed ∧ ∀ p, (WatchdogPc.body i pc).bodyAt i = some p → p = .clearPid ∨ p = .test)
    (h : ProcessManager.watchdogBody s.shared i v forked reaped pc = some (w', σ')) :
    Down { s with watchdog := some w', shared := σ' } i := by
  refine ⟨hcalm, ?_⟩
  rcases hstate with heq | ⟨hfailed, hbody⟩
  · obtain rfl := (WatchdogPc.body.inj heq).2
    obtain ⟨rfl, rfl⟩ := Prod.mk.inj (Option.some.inj h)
    refine ⟨_, { v with state := .failed }, rfl, ?_, hno, Or.inr ⟨rfl, fun p hp ↦ ?_⟩⟩
    · show (s.shared.services.modify i _)[i]? = _
      rw [List.getElem?_modify_eq, hv]
      rfl
    · rw [bodyAt_body_self] at hp
      exact Or.inl (Option.some.inj hp).symm
  · rcases hbody pc (bodyAt_body_self i pc) with rfl | rfl
    · obtain ⟨rfl, rfl⟩ := Prod.mk.inj (Option.some.inj h)
      refine ⟨_, { v with pid := -1 }, rfl, ?_, hno, Or.inr ⟨hfailed, fun p hp ↦ ?_⟩⟩
      · show (s.shared.services.modify i _)[i]? = _
        rw [List.getElem?_modify_eq, hv]
        rfl
      · rw [bodyAt_body_self] at hp
        exact Or.inr (Option.some.inj hp).symm
    · obtain ⟨rfl, rfl⟩ := Prod.mk.inj (Option.some.inj h)
      refine ⟨_, v, rfl, hv, hno, Or.inr ⟨hfailed, ?_⟩⟩
      rw [if_neg hno]
      exact nofun

/-- **A statement of the watchdog.** -/
theorem watchdog {w w' : WatchdogPc} (hs : Down s i) (hw : s.watchdog = some w)
    (hcalm : Calm { s with watchdog := some w', shared := σ' })
    (h : watchdogThread s.shared forked reaped w = some (w', σ')) :
    Down { s with watchdog := some w', shared := σ' } i := by
  obtain ⟨w₀, v, hw₀, hv, hno, hstate⟩ := hs.failed
  obtain rfl : w₀ = w := Option.some.inj (hw₀.symm.trans hw)
  -- the entry is left as it is, and the watchdog is not in the service's loop body
  have hkeep : w'.bodyAt i = none → v.state = .failed → σ'.services[i]? = some v →
      Down { s with watchdog := some w', shared := σ' } i := fun hnone hfailed hv' ↦
    ⟨hcalm, w', v, rfl, hv', hno, Or.inr ⟨hfailed, fun pc hpc ↦ by
      rw [hnone] at hpc
      cases hpc⟩⟩
  have hfailed (hne : ∀ pc, w₀ ≠ .body i pc) : v.state = .failed :=
    hstate.elim (fun heq ↦ absurd heq (hne _)) And.left
  cases w₀ with
  | test =>
    obtain ⟨rfl, rfl⟩ := Prod.mk.inj (Option.some.inj h)
    refine hkeep ?_ (hfailed nofun) hv
    split <;> rfl
  | lock =>
    obtain ⟨-, hout⟩ := Option.ite_none_left_eq_some.1 h
    obtain ⟨rfl, rfl⟩ := Prod.mk.inj (Option.some.inj hout)
    exact hkeep rfl (hfailed nofun) hv
  | loop k =>
    have hfailed := hfailed nofun
    obtain ⟨rfl, rfl⟩ := Prod.mk.inj (Option.some.inj h)
    refine hkeep ?_ hfailed hv
    split
    next u hu =>
      split
      next hrun =>
        have hk : i ≠ k := by
          intro hk
          rw [hk, hu] at hv
          rw [Option.some.inj hv, hfailed] at hrun
          cases hrun
        exact bodyAt_body_of_ne hk _
      next => rfl
    next => rfl
  | body k pc =>
    obtain ⟨u, hu, hout⟩ := Option.bind_eq_some_iff.1 h
    by_cases hk : k = i
    · obtain rfl := hk
      obtain rfl := Option.some.inj (hv.symm.trans hu)
      exact Down.watchdogBody hcalm hv hno hstate hout
    · have hfailed := hfailed fun _ heq ↦ hk (WatchdogPc.body.inj heq).1
      obtain ⟨htouches, -⟩ := touches_watchdogBody (fun j p hp ↦ hs.starts k j p (hp ▸ hw))
        (hs.findService hu) hout
      refine hkeep (bodyAt_watchdogBody hout (Ne.symm hk)) hfailed ?_
      rw [htouches.getElem? (Ne.symm hk)]
      exact hv
  | unlock | sleep =>
    obtain ⟨rfl, rfl⟩ := Prod.mk.inj (Option.some.inj h)
    exact hkeep rfl (hfailed nofun) hv
  | done => cases h

/-- **Every step without a signal.** -/
theorem step (hs : Down s i) (hl : l.isSignal = false) (h : ProcessManager.step s l = some s') :
    Down s' i := by
  have hcalm := hs.toCalm.step hl h
  obtain ⟨w, v, hw, hv, hno, hstate⟩ := hs.failed
  have hboot : ¬ s.main.Booting := fun hboot ↦ by
    rw [hs.booting hboot] at hw
    cases hw
  cases does_of_step h with
  | create hfree hm => exact absurd (hm ▸ trivial) hboot
  | main hfree hthread =>
    obtain rfl := shared_mainThread hboot hthread
    exact ⟨hcalm, w, v, hw, hv, hno, hstate⟩
  | watchdog hw hthread => exact hs.watchdog hw hcalm hthread
  | handler hpc =>
    rw [hs.handler] at hpc
    cases hpc
  | signal => cases hl
  | childExit => exact ⟨hcalm, w, v, hw, hv, hno, hstate⟩
  | cancelled hexit => exact absurd hexit hs.going.2

end Down

/-! ### Runs -/

/-- **The budget of restarts.** In a run without signals each service is forked for at most
`1 + max_restarts` times, and `restart_count` does not exceed `max_restarts`. Wherever the watchdog
holds the lock outside its loop body, a service is running exactly if its `pid` is that of a child
that has not been reaped. And once the watchdog has waited for a service that is not restarted, this
stays marked as failed. -/
theorem restart_budget {registrations : List Registration} {s₀ s : State} {ls : List Label}
    (hnd : (registrations.map Registration.name).Nodup)
    (h₀ : (processManager registrations).Init s₀) (hls : ∀ l ∈ ls, l.isSignal = false)
    (hrun : (processManager registrations).run s₀ ls = some s) {i : ℕ} {v : Service}
    (hv : s.shared.services[i]? = some v) :
    s.shared.forks i ≤ 1 + v.maxRestarts ∧ v.restartCount ≤ v.maxRestarts ∧
    ((∃ k, s.watchdog = some (.loop k)) ∨ s.watchdog = some .unlock →
      (v.state = .running ↔ Owns s.shared.children i v.pid)) ∧
    (s.watchdog = some (.body i .setFailed) → ¬ v.Restarts →
      ∀ ls' t, (∀ l ∈ ls', l.isSignal = false) → (processManager registrations).run s ls' = some t →
        t.watchdog = some (.body i .setFailed) ∨
          ∃ u, t.shared.services[i]? = some u ∧ u.state = .failed) := by
  have hs : Calm s := Machine.invariant_of_forall (I := Calm)
    (fun _ _ _ hs hl hstep ↦ hs.step hl (Option.ite_none_left_eq_some.1 hstep).2)
    (calm_of_init hnd h₀) hls hrun
  have hledger := hs.ledger i v hv
  have hbudget := hledger.budget
  have hcount := hledger.count
  refine ⟨by omega, hcount, fun hlock ↦ ?_, fun hw hno ls' t hls' hrun' ↦ ?_⟩
  · obtain ⟨w, hw, hnone⟩ : ∃ w, s.watchdog = some w ∧ w.bodyAt i = none := by
      rcases hlock with ⟨k, hw⟩ | hw
      · exact ⟨_, hw, rfl⟩
      · exact ⟨_, hw, rfl⟩
    have hbody : (s.roles i).body = none := by
      rw [State.roles, hw]
      exact hnone
    refine ⟨fun hrun ↦ (hs.good i v hv).running hrun (by rw [hbody]; rintro ⟨⟩), fun hown ↦ ?_⟩
    by_contra hne
    have hpid := hledger.pid hne (by rw [hbody]; rintro _ ⟨⟩)
      (by rw [hs.start_eq_none (by rw [hw]; rintro ⟨⟩)]; rintro ⟨⟩)
    have hpos := hown.pos hs.children
    omega
  · have ht : Down t i := Machine.invariant_of_forall (I := fun s ↦ Down s i)
      (fun _ _ _ hs hl hstep ↦ hs.step hl (Option.ite_none_left_eq_some.1 hstep).2)
      ⟨hs, _, v, hw, hv, hno, Or.inl rfl⟩ hls' hrun'
    obtain ⟨w, u, hw, hu, -, rfl | ⟨hfailed, -⟩⟩ := ht.failed
    · exact Or.inl hw
    · exact Or.inr ⟨u, hu, hfailed⟩

/-- The child of service 0 exits; the watchdog reaps it and starts the service again. -/
def crashLabels : List Label :=
  bootLabels ++ [.childExit 100] ++ List.replicate 3 (.watchdog none 0) ++
    [.watchdog none 100] ++ List.replicate 6 (.watchdog none 0) ++
    List.replicate 6 (.watchdog (some 200) 0)

theorem restart_budget_crash : ∃ s v,
    (processManager juliusServices).run .start crashLabels = some s ∧
    s.shared.services[0]? = some v ∧ s.shared.forks 0 = 2 ∧
    s.shared.forks 0 ≤ 1 + v.maxRestarts ∧ v.restartCount ≤ v.maxRestarts ∧
    (v.state = .running ↔ Owns s.shared.children 0 v.pid) := by
  have hrun : ((processManager juliusServices).run .start crashLabels).any (fun s ↦
      s.watchdog = some (.loop 1) ∧ s.shared.forks 0 = 2 ∧
        s.shared.services[0]?.isSome) = true := by decide +kernel
  obtain ⟨s, hs, hend⟩ := (Option.any_eq_true _ _).1 hrun
  obtain ⟨hw, hforks, hsome⟩ := of_decide_eq_true hend
  obtain ⟨v, hv⟩ := Option.isSome_iff_exists.1 hsome
  obtain ⟨hbudget, hcount, hstate, -⟩ := restart_budget (by decide) rfl (by decide) hs hv
  exact ⟨s, v, hs, hv, hforks, hbudget, hcount, hstate (Or.inl ⟨1, hw⟩)⟩

end JuliusOS.ProcessManager
