import JuliusOS.ProcessManager.Control

/-!
# Whether a shutdown is final

`signal_handler` clears `running` and stops the services that are running as it looks at them. The
watchdog looks at `running` between its rounds only, so a restart it has decided on is carried out
whatever the handler did; and a handler that runs on the main thread before the last service is
started is followed by the starts that are left.

`RestartsApart` says that neither happens: no signal arrives before the last start, the handler
does not look at a service whose restart the watchdog has decided on, and the watchdog does not
find a service dead, to start it again, which the handler has looked at. In every run that keeps to
it, no service is running once the handler has returned, and no process is forked any more.

* `Quiet.step`: what a guarded step preserves;
* `shutdown_is_final`: what a guarded run does.
-/

namespace JuliusOS.ProcessManager

/-! ### The guard -/

/-- The handler has looked at service `i` when it is at this statement. -/
def HandlerPc.Tested (i : ℕ) : HandlerPc → Prop
  | .setRunning => False
  | .loop k => i < k
  | .stop k _ _ => i ≤ k

/-- The handler has looked at service `i`, or it has returned. -/
def State.Tested (s : State) (i : ℕ) : Prop :=
  .returned ∈ s.shared.trace ∨ ∃ h, s.handler = some h ∧ h.2.Tested i

/-- `main` has services left to start. -/
def MainPc.Starting : MainPc → Prop
  | .register _ | .starting (_ :: _) | .start _ _ _ => True
  | _ => False

/-- From this statement on the watchdog starts the service again. -/
def BodyPc.Committed (v : Service) : BodyPc → Prop
  | .poll | .relock => False
  | .setFailed | .clearPid | .test => v.Restarts
  | .count | .unlock | .sleep | .start _ _ => True

theorem BodyPc.Committed.of_restarts {v v' : Service} {pc : BodyPc} (h : v'.Restarts → v.Restarts)
    (hpc : pc.Committed v') : pc.Committed v := by
  cases pc with
  | setFailed | clearPid | test => exact h hpc
  | _ => exact hpc

/-- **What has to be kept apart.** -/
def RestartsApart (s : State) : Label → Prop
  | .signal _ => ¬ s.main.Starting
  | .watchdog _ reaped => ∀ i v, s.shared.services[i]? = some v → (s.roles i).body = some .poll →
      v.Restarts → Reaps s.shared.children v.pid reaped → ¬ s.Tested i
  | .handler _ => ∀ host i v, s.handler = some (host, .loop i) → s.shared.services[i]? = some v →
      ∀ pc, (s.roles i).body = some pc → ¬ pc.Committed v
  | _ => True

/-! ### What is done -/

/-- A process is forked. -/
def Obs.IsFork : Obs → Prop
  | .fork _ _ => True
  | _ => False

/-- Nothing is forked after a return of the handler. -/
def Final (trace : List Obs) : Prop := trace.Pairwise fun a b ↦ a = .returned → ¬ b.IsFork

variable {σ σ' : Shared} {v : Service} {i j k : ℕ} {forked : Option ℤ} {reaped : ℤ}

/-- A statement does one thing at most, and forks only under a condition. -/
def Logs (σ σ' : Shared) (forks : Prop) : Prop :=
  σ'.trace = σ.trace ∨ ∃ o, σ'.trace = σ.trace ++ [o] ∧ o ≠ .returned ∧ (o.IsFork → forks)

theorem Logs.returned_mem {forks : Prop} (h : Logs σ σ' forks) :
    .returned ∈ σ'.trace ↔ .returned ∈ σ.trace := by
  rcases h with h | ⟨o, h, ho, -⟩
  · rw [h]
  · rw [h, List.mem_append, List.mem_singleton]
    exact or_iff_left fun heq ↦ ho heq.symm

theorem Final.append {trace : List Obs} (h : Final trace) {o : Obs}
    (ho : o.IsFork → .returned ∉ trace) : Final (trace ++ [o]) := by
  refine List.pairwise_append.2 ⟨h, List.pairwise_singleton _ _, fun a ha b hb hret hfork ↦ ?_⟩
  rw [List.mem_singleton.1 hb] at hfork
  exact ho hfork (hret ▸ ha)

theorem Logs.final {forks : Prop} (h : Logs σ σ' forks) (hforks : forks → .returned ∉ σ.trace)
    (hfinal : Final σ.trace) : Final σ'.trace := by
  rcases h with h | ⟨o, h, -, ho⟩
  · exact h ▸ hfinal
  · exact h ▸ hfinal.append fun hfork ↦ hforks (ho hfork)

theorem logs_pmStart {pc : StartPc} {pc' : Option StartPc}
    (h : pmStart σ i v forked pc = some (pc', σ')) : Logs σ σ' True := by
  cases pc with
  | fork =>
    cases forked with
    | none =>
      obtain ⟨-, rfl⟩ := Prod.mk.inj (Option.some.inj h)
      exact Or.inl rfl
    | some pid =>
      obtain ⟨-, hout⟩ := Option.ite_none_right_eq_some.1 h
      obtain ⟨-, rfl⟩ := Prod.mk.inj (Option.some.inj hout)
      exact Or.inr ⟨_, rfl, nofun, fun _ ↦ trivial⟩
  | _ =>
    obtain ⟨-, rfl⟩ := Prod.mk.inj (Option.some.inj h)
    exact Or.inl rfl

theorem logs_poll {pid ret : ℤ} (h : σ.poll i pid reaped = some (ret, σ')) : Logs σ σ' False := by
  obtain ⟨_, -, hout⟩ := Option.map_eq_some_iff.1 h
  obtain ⟨-, rfl⟩ := Prod.mk.inj hout
  exact Or.inr ⟨_, rfl, nofun, id⟩

theorem logs_pmStop {pc : StopPc} {pc' : Option StopPc}
    (h : pmStop σ i v reaped pc = some (pc', σ')) : Logs σ σ' False := by
  cases pc with
  | poll =>
    obtain ⟨⟨ret, σ₀⟩, hpoll, hout⟩ := Option.map_eq_some_iff.1 h
    obtain ⟨-, rfl⟩ := Prod.mk.inj hout
    exact logs_poll hpoll
  | blocked pid =>
    obtain ⟨⟨ret, rest⟩, -, hout⟩ := Option.bind_eq_some_iff.1 h
    obtain ⟨-, hout⟩ := Option.ite_none_left_eq_some.1 hout
    obtain ⟨-, rfl⟩ := Prod.mk.inj (Option.some.inj hout)
    exact Or.inl rfl
  | term | kill | wait =>
    obtain ⟨-, rfl⟩ := Prod.mk.inj (Option.some.inj h)
    exact Or.inr ⟨_, rfl, nofun, id⟩
  | _ =>
    obtain ⟨-, rfl⟩ := Prod.mk.inj (Option.some.inj h)
    exact Or.inl rfl

theorem logs_watchdogBody {pc : BodyPc} {w : WatchdogPc}
    (h : watchdogBody σ i v forked reaped pc = some (w, σ')) :
    Logs σ σ' (∃ j p, pc = .start j p) := by
  cases pc with
  | poll =>
    obtain ⟨⟨ret, σ₀⟩, hpoll, hout⟩ := Option.map_eq_some_iff.1 h
    obtain ⟨-, rfl⟩ := Prod.mk.inj hout
    exact (logs_poll hpoll).imp_right fun ⟨o, ho, hne, hfork⟩ ↦
      ⟨o, ho, hne, fun hf ↦ (hfork hf).elim⟩
  | start j p =>
    obtain ⟨⟨p', σ₀⟩, hbind, hout⟩ := Option.map_eq_some_iff.1 h
    obtain ⟨v', -, hstart⟩ := Option.bind_eq_some_iff.1 hbind
    obtain ⟨-, rfl⟩ := Prod.mk.inj hout
    exact (logs_pmStart hstart).imp_right fun ⟨o, ho, hne, _⟩ ↦ ⟨o, ho, hne, fun _ ↦ ⟨j, p, rfl⟩⟩
  | relock =>
    obtain ⟨-, hout⟩ := Option.ite_none_left_eq_some.1 h
    obtain ⟨-, rfl⟩ := Prod.mk.inj (Option.some.inj hout)
    exact Or.inl rfl
  | _ =>
    obtain ⟨-, rfl⟩ := Prod.mk.inj (Option.some.inj h)
    exact Or.inl rfl

/-- The main thread forks only while it has services left to start; then it does not change what
is shared. -/
theorem logs_mainThread {m m' : MainPc} (h : mainThread σ forked m = some (m', σ')) :
    Logs σ σ' m.Starting ∧
      (¬ m.Starting → σ' = σ ∧ ¬ m'.Starting ∧ ∀ k, m.startAt k = none ∧ m'.startAt k = none) := by
  cases m with
  | register todo =>
    refine ⟨?_, fun hno ↦ absurd trivial hno⟩
    cases todo with
    | nil | cons =>
      obtain ⟨-, rfl⟩ := Prod.mk.inj (Option.some.inj h)
      exact Or.inl rfl
  | starting todo =>
    cases todo with
    | nil => cases h
    | cons i todo =>
      obtain ⟨v, -, hout⟩ := Option.map_eq_some_iff.1 h
      obtain ⟨-, rfl⟩ := Prod.mk.inj hout
      exact ⟨Or.inl rfl, fun hno ↦ absurd trivial hno⟩
  | start todo j pc =>
    obtain ⟨⟨pc₁, σ₁⟩, hbind, hout⟩ := Option.map_eq_some_iff.1 h
    obtain ⟨v, -, hpm⟩ := Option.bind_eq_some_iff.1 hbind
    obtain ⟨-, rfl⟩ := Prod.mk.inj hout
    refine ⟨(logs_pmStart hpm).imp_right ?_, fun hno ↦ absurd trivial hno⟩
    exact fun ⟨o, ho, hne, _⟩ ↦ ⟨o, ho, hne, fun _ ↦ trivial⟩
  | loop =>
    obtain ⟨rfl, rfl⟩ := Prod.mk.inj (Option.some.inj h)
    refine ⟨Or.inl rfl, fun _ ↦ ⟨rfl, ?_⟩⟩
    split <;> exact ⟨id, fun _ ↦ ⟨rfl, rfl⟩⟩
  | cancel | exit =>
    obtain ⟨rfl, rfl⟩ := Prod.mk.inj (Option.some.inj h)
    exact ⟨Or.inl rfl, fun _ ↦ ⟨rfl, id, fun _ ↦ ⟨rfl, rfl⟩⟩⟩
  | exited => cases h

/-! ### One service -/

/-- What holds of a service that the handler has looked at: the watchdog does not start it again,
and it is running only until `pm_stop` has changed its state. -/
structure Halted (returned : Prop) (r : Roles) (v : Service) : Prop where
  /-- The watchdog does not start it. -/
  body : ∀ pc, r.body = some pc → ¬ pc.Committed v
  /-- It is about to be stopped, where it is running. -/
  state : v.state = .running → ¬ returned ∧ (r.stop = some .check ∨ r.stop = some .setStopping)

namespace Halted

variable {returned : Prop} {r : Roles}

/-- A statement of the loop body that does not find the service dead, to start it again. -/
theorem watchdogBody {pc : BodyPc} {w : WatchdogPc} (h : Halted returned r v)
    (hpc : r.body = some pc)
    (hguard : pc = .poll → v.Restarts → ¬ Reaps σ.children v.pid reaped)
    (hstep : watchdogBody σ i v forked reaped pc = some (w, σ')) :
    ∃ f : Service → Service, σ'.services = σ.services.modify i f ∧
      Halted returned { r with body := w.bodyAt i } (f v) := by
  have hbody := h.body pc hpc
  -- where it goes on with the next service
  have hleave : Halted returned { r with body := none } v := ⟨nofun, h.state⟩
  cases pc with
  | poll =>
    obtain ⟨⟨ret, σ₀⟩, hpoll, hout⟩ := Option.map_eq_some_iff.1 hstep
    obtain ⟨rest, hwait, rfl⟩ := poll_eq_some hpoll
    obtain ⟨rfl, rfl⟩ := Prod.mk.inj hout
    refine ⟨id, (List.modify_id i _).symm, ?_⟩
    split
    next hpos =>
      rw [bodyAt_body_self]
      refine ⟨fun pc' hpc' ↦ ?_, h.state⟩
      obtain rfl := Option.some.inj hpc'
      exact fun hrestarts ↦ hguard rfl hrestarts ⟨_, _, hwait, hpos⟩
    next => exact hleave
  | setFailed =>
    obtain ⟨rfl, rfl⟩ := Prod.mk.inj (Option.some.inj hstep)
    rw [bodyAt_body_self]
    refine ⟨fun v ↦ { v with state := .failed }, rfl, fun pc' hpc' ↦ ?_, nofun⟩
    obtain rfl := Option.some.inj hpc'
    exact hbody
  | clearPid =>
    obtain ⟨rfl, rfl⟩ := Prod.mk.inj (Option.some.inj hstep)
    rw [bodyAt_body_self]
    refine ⟨fun v ↦ { v with pid := -1 }, rfl, fun pc' hpc' ↦ ?_, h.state⟩
    obtain rfl := Option.some.inj hpc'
    exact hbody
  | test =>
    obtain ⟨rfl, rfl⟩ := Prod.mk.inj (Option.some.inj hstep)
    rw [if_neg (show ¬ v.Restarts from hbody)]
    exact ⟨id, (List.modify_id i _).symm, hleave⟩
  | relock =>
    obtain ⟨-, hout⟩ := Option.ite_none_left_eq_some.1 hstep
    obtain ⟨rfl, rfl⟩ := Prod.mk.inj (Option.some.inj hout)
    exact ⟨id, (List.modify_id i _).symm, hleave⟩
  | count | unlock | sleep | start => exact absurd trivial hbody

/-- A statement of `pm_stop`. -/
theorem pmStop {pc : StopPc} {pc' : Option StopPc} (h : Halted returned r v)
    (hpc : r.stop = some pc) (hstep : pmStop σ i v reaped pc = some (pc', σ')) :
    ∃ f : Service → Service, σ'.services = σ.services.modify i f ∧
      Halted returned { r with stop := pc' } (f v) := by
  -- past the change of the state the service is not running
  have hpast : pc ≠ .check → pc ≠ .setStopping → ∀ p, Halted returned { r with stop := p } v := by
    intro hcheck hset p
    refine ⟨h.body, fun hrun ↦ ?_⟩
    rcases (h.state hrun).2 with heq | heq
    · exact absurd (Option.some.inj (hpc.symm.trans heq)) hcheck
    · exact absurd (Option.some.inj (hpc.symm.trans heq)) hset
  have hbody : ∀ {v' : Service}, (v'.Restarts → v.Restarts) → ∀ p, r.body = some p →
      ¬ p.Committed v' := fun hrestarts p hp hcommitted ↦
    h.body p hp (hcommitted.of_restarts hrestarts)
  cases pc with
  | check =>
    obtain ⟨rfl, rfl⟩ := Prod.mk.inj (Option.some.inj hstep)
    refine ⟨id, (List.modify_id i _).symm, h.body, fun hrun ↦ ⟨(h.state hrun).1, Or.inr ?_⟩⟩
    exact if_pos hrun
  | setStopping =>
    obtain ⟨rfl, rfl⟩ := Prod.mk.inj (Option.some.inj hstep)
    exact ⟨fun v ↦ { v with state := .stopping }, rfl, hbody id, nofun⟩
  | setStopped =>
    obtain ⟨rfl, rfl⟩ := Prod.mk.inj (Option.some.inj hstep)
    exact ⟨fun v ↦ { v with state := .stopped }, rfl, hbody id, nofun⟩
  | clearPid =>
    obtain ⟨rfl, rfl⟩ := Prod.mk.inj (Option.some.inj hstep)
    exact ⟨fun v ↦ { v with pid := -1 }, rfl, hbody id, (hpast nofun nofun none).state⟩
  | poll =>
    obtain ⟨⟨ret, σ₀⟩, hpoll, hout⟩ := Option.map_eq_some_iff.1 hstep
    obtain ⟨rest, -, rfl⟩ := poll_eq_some hpoll
    obtain ⟨rfl, rfl⟩ := Prod.mk.inj hout
    exact ⟨id, (List.modify_id i _).symm, hpast nofun nofun _⟩
  | blocked pid =>
    obtain ⟨⟨ret, rest⟩, -, hout⟩ := Option.bind_eq_some_iff.1 hstep
    obtain ⟨-, hout⟩ := Option.ite_none_left_eq_some.1 hout
    obtain ⟨rfl, rfl⟩ := Prod.mk.inj (Option.some.inj hout)
    exact ⟨id, (List.modify_id i _).symm, hpast nofun nofun _⟩
  | term | sleep | kill | wait =>
    obtain ⟨rfl, rfl⟩ := Prod.mk.inj (Option.some.inj hstep)
    exact ⟨id, (List.modify_id i _).symm, hpast nofun nofun _⟩

end Halted

/-! ### The process -/

/-- What holds in every state of a guarded run. -/
structure Quiet (s : State) : Prop extends Wired s where
  /-- The handler runs after the last start. -/
  started : s.handler ≠ none ∨ .returned ∈ s.shared.trace → ¬ s.main.Starting
  /-- The services it has looked at are halted. -/
  halted : ∀ i v, s.shared.services[i]? = some v → s.Tested i →
    Halted (.returned ∈ s.shared.trace) (s.roles i) v
  /-- Nothing is forked after its return. -/
  final : Final s.shared.trace

variable {s s' : State} {l : Label}

/-- **A statement of the watchdog.** -/
theorem Quiet.watchdog {w w' : WatchdogPc} (hs : Quiet s) (hw : s.watchdog = some w)
    (hguard : RestartsApart s (.watchdog forked reaped))
    (h : watchdogThread s.shared forked reaped w = some (w', σ')) :
    Quiet { s with watchdog := some w', shared := σ' } := by
  have hwired := hs.toWired.watchdog hw h
  have hbody : ∀ i, (s.roles i).body = w.bodyAt i := fun i ↦ by
    rw [State.roles, hw, Option.bind_some]
  have hquiet : ∀ {forks : Prop}, Logs s.shared σ' forks → (forks → .returned ∉ s.shared.trace) →
      (∀ i v, σ'.services[i]? = some v → s.Tested i →
        Halted (.returned ∈ s.shared.trace) { s.roles i with body := w'.bodyAt i } v) →
      Quiet { s with watchdog := some w', shared := σ' } := fun hlogs hforks hhalted ↦
    { hwired with
      started := fun hor ↦ hs.started (hor.imp_right hlogs.returned_mem.1)
      halted := fun i v hv htest ↦ by
        dsimp only
        rw [hlogs.returned_mem, roles_watchdog]
        exact hhalted i v hv (htest.imp_left hlogs.returned_mem.1)
      final := hlogs.final hforks hs.final }
  -- a statement about no service; at most the watchdog is about to wait for one
  have hsame : σ'.services = s.shared.services → σ'.trace = s.shared.trace →
      (∀ i pc, w'.bodyAt i = some pc → pc = .poll) →
      Quiet { s with watchdog := some w', shared := σ' } := by
    intro hservices htrace hpoll
    have hlogs : Logs s.shared σ' False := Or.inl htrace
    refine hquiet hlogs False.elim fun i v hv htest ↦ ?_
    refine ⟨fun pc hpc ↦ ?_, (hs.halted i v (hservices ▸ hv) htest).state⟩
    rw [hpoll i pc hpc]
    exact id
  cases w with
  | test =>
    obtain ⟨rfl, rfl⟩ := Prod.mk.inj (Option.some.inj h)
    refine hsame rfl rfl fun i pc hpc ↦ ?_
    split at hpc <;> cases hpc
  | lock =>
    obtain ⟨-, hout⟩ := Option.ite_none_left_eq_some.1 h
    obtain ⟨rfl, rfl⟩ := Prod.mk.inj (Option.some.inj hout)
    exact hsame rfl rfl fun _ _ ↦ by rintro ⟨⟩
  | loop i =>
    obtain ⟨rfl, rfl⟩ := Prod.mk.inj (Option.some.inj h)
    refine hsame rfl rfl fun k pc hpc ↦ ?_
    split at hpc
    · split at hpc
      · exact (Option.some.inj (Option.ite_none_right_eq_some.1 hpc).2).symm
      · cases hpc
    · cases hpc
  | body i pc =>
    obtain ⟨v, hv, hout⟩ := Option.bind_eq_some_iff.1 h
    have hpc : (s.roles i).body = some pc := (hbody i).trans (bodyAt_body_self i pc)
    refine hquiet (logs_watchdogBody hout) (fun hstart hret ↦ ?_) fun k u hu htest ↦ ?_
    · obtain ⟨j, p, rfl⟩ := hstart
      exact (hs.halted i v hv (Or.inl hret)).body _ hpc trivial
    · by_cases hk : k = i
      · obtain rfl := hk
        obtain ⟨f, hservices, hhalted⟩ := (hs.halted k v hv htest).watchdogBody hpc
          (fun hp hrestarts hreaps ↦ hguard k v hv (hp ▸ hpc) hrestarts hreaps htest) hout
        rw [hservices, List.getElem?_modify_eq, hv] at hu
        rw [← Option.some.inj hu]
        exact hhalted
      · have htouches := (touches_watchdogBody (fun j p hp ↦ hs.starts i j p (hp ▸ hw))
          (hs.findService hv) hout).1
        rw [htouches.getElem? hk] at hu
        rw [bodyAt_watchdogBody hout hk]
        exact ⟨by rintro _ ⟨⟩, (hs.halted k u hu htest).state⟩
  | unlock | sleep =>
    obtain ⟨rfl, rfl⟩ := Prod.mk.inj (Option.some.inj h)
    exact hsame rfl rfl fun _ _ ↦ by rintro ⟨⟩
  | done => cases h

section Handler

variable {host : Host} {pc : HandlerPc} {pc' : Option HandlerPc}

/-- The handler runs after the last start. -/
theorem Quiet.not_starting (hs : Quiet s) (hpc : s.handler = some (host, pc)) :
    ¬ s.main.Starting :=
  hs.started (Or.inl (by rw [hpc]; rintro ⟨⟩))

/-- The service the handler is in `pm_stop` for is the one its statement says. -/
theorem stop_eq_stopAt (hpc : s.handler = some (host, pc)) (i : ℕ) :
    (s.roles i).stop = pc.stopAt i := by
  rw [State.roles, hpc, Option.bind_some]

/-- What the handler has tested is halted. -/
theorem Quiet.halted_of_tested (hs : Quiet s) (hpc : s.handler = some (host, pc)) {i : ℕ}
    {v : Service} (hv : s.shared.services[i]? = some v)
    (hor : .returned ∈ s.shared.trace ∨ pc.Tested i) :
    Halted (.returned ∈ s.shared.trace) (s.roles i) v :=
  hs.halted i v hv (hor.imp_right fun htest ↦ ⟨_, hpc, htest⟩)

/-- A statement of the handler other than its return. -/
theorem Quiet.goes {p : HandlerPc} (hs : Quiet s) (hmain : ¬ s.main.Starting)
    (hwired : Wired { s with handler := some (host, p), shared := σ' })
    (hlogs : Logs s.shared σ' False)
    (hhalted : ∀ i v, σ'.services[i]? = some v → .returned ∈ s.shared.trace ∨ p.Tested i →
      Halted (.returned ∈ s.shared.trace) { s.roles i with stop := p.stopAt i } v) :
    Quiet { s with handler := some (host, p), shared := σ' } := by
  refine { hwired with
    started := fun _ ↦ hmain
    halted := fun i v hv htest ↦ ?_
    final := hlogs.final False.elim hs.final }
  dsimp only
  rw [hlogs.returned_mem]
  refine hhalted i v hv (htest.imp hlogs.returned_mem.1 ?_)
  rintro ⟨_, hp, htest⟩
  obtain rfl := Option.some.inj hp
  exact htest

/-- The handler looks at a service, or returns. -/
theorem Quiet.handlerLoop {i : ℕ} (hs : Quiet s) (hpc : s.handler = some (host, .loop i))
    (hguard : RestartsApart s (.handler reaped))
    (h : signalHandler s.shared reaped (.loop i) = some (pc', σ')) :
    Quiet { s with handler := pc'.map (host, ·), shared := σ' } := by
  have hwired := hs.toWired.handler hpc h
  have hmain := hs.not_starting hpc
  have hnone : ∀ k v, s.shared.services[k]? = some v → .returned ∈ s.shared.trace ∨ k < i →
      (∀ p, (s.roles k).body = some p → ¬ p.Committed v) ∧ v.state ≠ .running := by
    intro k v hv hor
    have hhalted := hs.halted_of_tested hpc hv hor
    refine ⟨hhalted.body, fun hrun ↦ ?_⟩
    rcases (hhalted.state hrun).2 with heq | heq
    · cases (stop_eq_stopAt hpc k).symm.trans heq
    · cases (stop_eq_stopAt hpc k).symm.trans heq
  rw [signalHandler] at h
  cases hv : s.shared.services[i]? with
  | none =>
    rw [hv] at h
    obtain ⟨rfl, rfl⟩ := Prod.mk.inj (Option.some.inj h)
    refine { hwired with
      started := fun _ ↦ hmain
      halted := fun k u hu _ ↦ ?_
      final := hs.final.append False.elim }
    have hlt : k < i :=
      (List.getElem?_eq_some_iff.1 hu).1.trans_le (List.getElem?_eq_none_iff.1 hv)
    obtain ⟨hbody, hstate⟩ := hnone k u hu (Or.inr hlt)
    exact ⟨hbody, fun hrun ↦ absurd hrun hstate⟩
  | some v =>
    rw [hv] at h
    obtain ⟨rfl, rfl⟩ := Prod.mk.inj (Option.some.inj h)
    have hbody : ∀ k u, s.shared.services[k]? = some u →
        .returned ∈ s.shared.trace ∨ k < i + 1 →
        ∀ p, (s.roles k).body = some p → ¬ p.Committed u := by
      intro k u hu hor
      by_cases hk : k = i
      · exact hguard host k u (hk ▸ hpc) hu
      · exact (hnone k u hu (hor.imp_right fun hlt ↦ by omega)).1
    have hstate : ∀ k u, s.shared.services[k]? = some u →
        .returned ∈ s.shared.trace ∨ k < i + 1 → k ≠ i → u.state ≠ .running := fun k u hu hor hk ↦
      (hnone k u hu (hor.imp_right fun hlt ↦ by omega)).2
    by_cases hrun : v.state = .running
    · -- it calls `pm_stop` for this service
      rw [if_pos hrun, hs.findService hv] at hwired ⊢
      refine hs.goes hmain hwired (Or.inl rfl) fun k u hu hor ↦ ?_
      have hor : .returned ∈ s.shared.trace ∨ k < i + 1 := hor.imp_right Nat.lt_succ_of_le
      refine ⟨hbody k u hu hor, fun hrun' ↦ ?_⟩
      by_cases hk : k = i
      · obtain rfl := hk
        exact ⟨fun hret ↦ (hnone k u hu (Or.inl hret)).2 hrun',
          Or.inl (stopAt_stop_self k k .check)⟩
      · exact absurd hrun' (hstate k u hu hor hk)
    · rw [if_neg hrun] at hwired ⊢
      refine hs.goes hmain hwired (Or.inl rfl) fun k u hu hor ↦
        ⟨hbody k u hu hor, fun hrun' ↦ ?_⟩
      by_cases hk : k = i
      · obtain rfl := hk
        rw [hv] at hu
        exact absurd (Option.some.inj hu ▸ hrun') hrun
      · exact absurd hrun' (hstate k u hu hor hk)

/-- The handler is in `pm_stop`. -/
theorem Quiet.handlerStop {i j : ℕ} {pc : StopPc} (hs : Quiet s)
    (hpc : s.handler = some (host, .stop i j pc))
    (h : signalHandler s.shared reaped (.stop i j pc) = some (pc', σ')) :
    Quiet { s with handler := pc'.map (host, ·), shared := σ' } := by
  have hwired := hs.toWired.handler hpc h
  obtain ⟨⟨pc₁, σ₁⟩, hbind, hout⟩ := Option.map_eq_some_iff.1 h
  obtain ⟨v, hv, hpm⟩ := Option.bind_eq_some_iff.1 hbind
  obtain ⟨rfl, rfl⟩ := Prod.mk.inj hout
  obtain rfl := hs.stops host i j pc hpc
  have hat : (s.roles j).stop = some pc :=
    (stop_eq_stopAt hpc j).trans (stopAt_stop_self j j pc)
  -- it stays in `pm_stop` for this service, or has left it
  have hgo : ∀ {p : HandlerPc}, Wired { s with handler := some (host, p), shared := σ₁ } →
      p.stopAt j = pc₁ → (∀ k ≠ j, p.stopAt k = none) → (∀ k, p.Tested k → k ≤ j) →
      Quiet { s with handler := some (host, p), shared := σ₁ } := by
    intro p hwired hself hothers htested
    refine hs.goes (hs.not_starting hpc) hwired (logs_pmStop hpm) fun k u hu hor ↦ ?_
    have hor : .returned ∈ s.shared.trace ∨ (HandlerPc.stop j j pc).Tested k :=
      hor.imp_right (htested k)
    by_cases hk : k = j
    · obtain rfl := hk
      obtain ⟨f, hservices, hhalted⟩ := (hs.halted_of_tested hpc hv hor).pmStop hat hpm
      rw [hservices, List.getElem?_modify_eq, hv] at hu
      rw [hself, ← Option.some.inj hu]
      exact hhalted
    · rw [(touches_pmStop hpm).getElem? hk] at hu
      rw [hothers k hk, ← (stop_eq_stopAt hpc k).trans (stopAt_stop_of_ne hk j pc)]
      exact hs.halted_of_tested hpc hu hor
  cases pc₁ with
  | none => exact hgo hwired rfl (fun _ _ ↦ rfl) fun k ↦ Nat.le_of_lt_succ
  | some p =>
    exact hgo hwired (stopAt_stop_self j j p) (fun k hk ↦ stopAt_stop_of_ne hk j p) fun k ↦ id

/-- **A statement of the handler.** -/
theorem Quiet.handler (hs : Quiet s) (hpc : s.handler = some (host, pc))
    (hguard : RestartsApart s (.handler reaped))
    (h : signalHandler s.shared reaped pc = some (pc', σ')) :
    Quiet { s with handler := pc'.map (host, ·), shared := σ' } := by
  cases pc with
  | setRunning =>
    have hwired := hs.toWired.handler hpc h
    obtain ⟨rfl, rfl⟩ := Prod.mk.inj (Option.some.inj h)
    refine hs.goes (hs.not_starting hpc) hwired (Or.inl rfl) fun i v hv hor ↦ ?_
    have hret := hor.resolve_right (Nat.not_lt_zero i)
    have hhalted := hs.halted_of_tested hpc hv (Or.inl hret)
    exact ⟨hhalted.body, fun hrun ↦ absurd hret (hhalted.state hrun).1⟩
  | loop i => exact hs.handlerLoop hpc hguard h
  | stop i j pc => exact hs.handlerStop hpc h

end Handler

/-- **A statement of the main thread**, other than the creation of the watchdog. -/
theorem Quiet.main {m m' : MainPc} (hs : Quiet s) (hm : s.main = m)
    (hwired : Wired { s with main := m', shared := σ' })
    (h : mainThread s.shared forked m = some (m', σ')) :
    Quiet { s with main := m', shared := σ' } := by
  obtain ⟨hlogs, hidle⟩ := logs_mainThread h
  by_cases hstarting : m.Starting
  · -- no handler has run
    have hnone : ¬ (s.handler ≠ none ∨ .returned ∈ s.shared.trace) := fun hor ↦
      hs.started hor (hm ▸ hstarting)
    have hnot : ∀ i, ¬ State.Tested { s with main := m', shared := σ' } i := by
      rintro i (hret | ⟨h, hhandler, -⟩)
      · exact hnone (Or.inr (hlogs.returned_mem.1 hret))
      · exact hnone (Or.inl (hhandler ▸ nofun))
    exact { hwired with
      started := fun hor ↦ absurd (hor.imp_right hlogs.returned_mem.1) hnone
      halted := fun i v _ htest ↦ absurd htest (hnot i)
      final := hlogs.final (fun _ hret ↦ hnone (Or.inr hret)) hs.final }
  · obtain ⟨rfl, hstarting', hstart⟩ := hidle hstarting
    refine { hwired with
      started := fun _ ↦ hstarting'
      halted := fun i v hv htest ↦ ?_
      final := hs.final }
    have hroles : State.roles { s with main := m', shared := s.shared } i = s.roles i := by
      rw [roles_main, (hstart i).2, ← (hstart i).1, ← hm]
      rfl
    rw [hroles]
    exact hs.halted i v hv htest

/-- The end of the watchdog's thread. -/
theorem Quiet.cancelled (hs : Quiet s)
    (hwired : Wired { s with
      watchdog := some .done
      handler := if s.suspended .watchdog then none else s.handler }) :
    Quiet { s with
      watchdog := some .done
      handler := if s.suspended .watchdog then none else s.handler } := by
  refine { hwired with
    started := fun hor ↦ hs.started (hor.imp_left fun hne heq ↦ hne (by rw [heq, ite_self]))
    halted := fun i v hv htest ↦ ?_
    final := hs.final }
  refine ⟨by rintro _ ⟨⟩, fun hrun ↦ ?_⟩
  -- a handler that runs on the thread ends with it
  by_cases hsus : s.suspended .watchdog = true
  · have hret : .returned ∈ s.shared.trace := htest.resolve_right fun htested ↦ by
      obtain ⟨_, hh, -⟩ := htested
      dsimp only at hh
      rw [if_pos hsus] at hh
      cases hh
    exact absurd hret ((hs.halted i v hv (Or.inl hret)).state hrun).1
  · have htest' : s.Tested i := htest.imp_right fun htested ↦ by
      obtain ⟨hpc, hh, htest⟩ := htested
      exact ⟨hpc, (Option.ite_none_left_eq_some.1 hh).2, htest⟩
    have hstate := (hs.halted i v hv htest').state hrun
    rw [State.roles, if_neg hsus]
    exact hstate

/-- **Every step that meets the guard preserves this.** -/
theorem Quiet.step (hs : Quiet s) (hguard : RestartsApart s l)
    (h : ProcessManager.step s l = some s') : Quiet s' := by
  have hwired := hs.toWired.step h
  cases does_of_step h with
  | create hfree hm =>
    have hw := hs.booting (hm ▸ trivial)
    refine { hwired with
      started := fun _ ↦ id
      halted := fun i v hv htest ↦ ?_
      final := hs.final }
    have hhalted := hs.halted i v hv htest
    rw [State.roles, hw, hm] at hhalted
    exact hhalted
  | main hfree hthread => exact hs.main rfl hwired hthread
  | watchdog hw hthread => exact hs.watchdog hw hguard hthread
  | handler hpc hthread => exact hs.handler hpc hguard hthread
  | signal hnone halive =>
    refine { hwired with
      started := fun _ ↦ hguard
      halted := fun i v hv htest ↦ ?_
      final := hs.final }
    -- a handler that has just been called has looked at nothing
    have hret : .returned ∈ s.shared.trace := htest.resolve_right fun htested ↦ by
      obtain ⟨_, hh, htest⟩ := htested
      obtain rfl := Option.some.inj hh
      exact htest
    have hhalted := hs.halted i v hv (Or.inl hret)
    rw [State.roles, hnone] at hhalted
    exact hhalted
  | childExit => exact { hwired with started := hs.started, halted := hs.halted, final := hs.final }
  | cancelled => exact hs.cancelled hwired

/-- At the start there are no services, and nothing was done. -/
theorem quiet_of_init {registrations : List Registration}
    (hnd : (registrations.map Registration.name).Nodup)
    (h : (processManager registrations).Init s) : Quiet s := by
  have hwired := wired_of_init hnd h
  obtain rfl : s = _ := h
  exact { hwired with
    started := fun hor ↦ hor.elim (absurd rfl) nofun
    halted := nofun
    final := List.Pairwise.nil }

/-- **Shutdown is final** in a run that keeps restarts and the handler apart: once it has returned,
no service is running, and no process is forked any more. -/
theorem shutdown_is_final {s₀ : State} {ls : List Label}
    (h₀ : (processManager juliusServices).Init s₀)
    (hguard : (processManager juliusServices).Guarded RestartsApart s₀ ls)
    (hrun : (processManager juliusServices).run s₀ ls = some s) :
    (.returned ∈ s.shared.trace → ∀ v ∈ s.shared.services, v.state ≠ .running) ∧
      s.shared.trace.Pairwise fun a b ↦ a = .returned → ∀ i p, b ≠ .fork i p := by
  have hs : Quiet s := by
    refine Machine.invariant_of_guarded (I := Quiet) (fun s l s' hs hok hstep ↦ ?_)
      (quiet_of_init (by decide) h₀) hguard hrun
    exact hs.step hok (Option.ite_none_left_eq_some.1 hstep).2
  refine ⟨fun hret v hv hstate ↦ ?_, hs.final.imp fun hab hret i p hb ↦ ?_⟩
  · obtain ⟨i, hi⟩ := List.mem_iff_getElem?.1 hv
    exact ((hs.halted i v hi (Or.inl hret)).state hstate).1 hret
  · exact hab hret (hb ▸ trivial)

/-- No step goes back to the starts. -/
theorem starting_step (h : step s l = some s') (hs : ¬ s.main.Starting) : ¬ s'.main.Starting := by
  cases does_of_step h with
  | create => exact id
  | main hfree hthread => exact ((logs_mainThread hthread).2 hs).2.1
  | watchdog | handler | signal | childExit | cancelled => exact hs

/-- After the last start, a run in which the watchdog does nothing meets the guard. -/
theorem restartsApart_of_idle {ls : List Label} {s : State} (hs : ∀ i, (s.roles i).body = none)
    (hmain : ¬ s.main.Starting) (hls : ∀ l ∈ ls, l.Idle) :
    (processManager juliusServices).Guarded RestartsApart s ls := by
  refine Machine.guarded_of_invariant
    (I := fun s ↦ (∀ i, (s.roles i).body = none) ∧ ¬ s.main.Starting)
    (fun s l hidle hl ↦ ?_) (fun s l s' hidle hl hstep ↦ ?_) ⟨hs, hmain⟩ hls
  · cases l with
    | watchdog forked reaped => exact hl.elim
    | handler reaped => exact fun host i v _ _ pc hpc ↦ nomatch (hidle.1 i).symm.trans hpc
    | signal host => exact hidle.2
    | _ => trivial
  · have hstep := (Option.ite_none_left_eq_some.1 hstep).2
    exact ⟨body_of_idle hidle.1 hl hstep, starting_step hstep hidle.2⟩

/-- So does the boot. -/
theorem restartsApart_boot {s : State} :
    (processManager juliusServices).Guarded RestartsApart s bootLabels := by
  refine Machine.guarded_of_invariant (I := fun _ ↦ True) (P := fun l ↦ ∃ forked, l = .main forked)
    ?_ (fun _ _ _ _ _ _ ↦ trivial) trivial fun l hl ↦ ?_
  · rintro s _ - ⟨forked, rfl⟩
    trivial
  · simp only [bootLabels, List.mem_append, List.mem_flatMap, List.mem_replicate,
      List.mem_singleton] at hl
    rcases hl with (⟨-, rfl⟩ | ⟨i, -, -, rfl⟩) | rfl
    · exact ⟨_, rfl⟩
    · exact ⟨_, rfl⟩
    · exact ⟨_, rfl⟩

/-- The handler stops the services with these pids, one after the other; each exits after the first
signal. -/
def stopAll (pids : List ℤ) : List Label :=
  pids.flatMap fun p ↦
    List.replicate 4 (.handler 0) ++ [.childExit p] ++ List.replicate 3 (.handler p)

/-- The main thread is interrupted after the boot, and the handler stops all services. -/
def haltLabels : List Label :=
  .signal .main :: .handler 0 ::
    stopAll [100, 101, 105, 106, 102, 103, 104, 108, 109, 107, 110] ++ [.handler 0]

theorem shutdown_is_final_halt :
    ∃ s, (processManager juliusServices).run .start (bootLabels ++ haltLabels) = some s ∧
      .returned ∈ s.shared.trace ∧
      (.returned ∈ s.shared.trace → ∀ v ∈ s.shared.services, v.state ≠ .running) ∧
      s.shared.trace.Pairwise fun a b ↦ a = .returned → ∀ i p, b ≠ .fork i p := by
  have hrun : ((processManager juliusServices).run .start (bootLabels ++ haltLabels)).any
      (fun s ↦ .returned ∈ s.shared.trace) = true := by decide +kernel
  have hboot : ((processManager juliusServices).run .start bootLabels).any
      (fun s ↦ s.main = .loop ∧ s.watchdog = some .test) = true := by decide +kernel
  obtain ⟨s, hs, hret⟩ := (Option.any_eq_true _ _).1 hrun
  refine ⟨s, hs, of_decide_eq_true hret, shutdown_is_final rfl ?_ hs⟩
  refine (Machine.guarded_append_iff _).2 ⟨restartsApart_boot, fun t ht ↦ ?_⟩
  rw [show (processManager juliusServices).run .start bootLabels = some t from ht] at hboot
  obtain ⟨hmain, hw⟩ := of_decide_eq_true hboot
  refine restartsApart_of_idle (fun i ↦ ?_) (by rw [hmain]; exact id) (by decide)
  rw [State.roles, hw]
  rfl

/-- Service 0 has exited and the watchdog sleeps before it starts it again; the handler stops the
other services and returns. -/
def lateLabels : List Label :=
  bootLabels ++ List.replicate 3 (.watchdog none 0) ++ [.childExit 100, .watchdog none 100] ++
    List.replicate 5 (.watchdog none 0) ++ [.signal .main, .handler 0, .handler 0] ++
    stopAll [101, 105, 106, 102, 103, 104, 108, 109, 107, 110] ++ [.handler 0] ++
    List.replicate 6 (.watchdog (some 200) 0)

/-- **A late start**: a service is started after the shutdown. -/
theorem late_start : ¬ ∀ s₀ ls s, (processManager juliusServices).Init s₀ →
    (processManager juliusServices).run s₀ ls = some s →
    (.returned ∈ s.shared.trace → ∀ v ∈ s.shared.services, v.state ≠ .running) ∧
      s.shared.trace.Pairwise fun a b ↦ a = .returned → ∀ i p, b ≠ .fork i p := by
  intro hall
  have hrun : ((processManager juliusServices).run .start lateLabels).any
      (fun s ↦ .returned ∈ s.shared.trace ∧ ∃ v ∈ s.shared.services, v.state = .running) =
        true := by decide +kernel
  obtain ⟨s, hs, hlate⟩ := (Option.any_eq_true _ _).1 hrun
  obtain ⟨hret, v, hv, hstate⟩ := of_decide_eq_true hlate
  exact (hall _ _ s rfl hs).1 hret v hv hstate

end JuliusOS.ProcessManager
