import JuliusOS.ProcessManager.Service
import Mathlib.Tactic.Set

/-!
# Whom the process manager kills

`pm_stop` and the watchdog wait for the same children and clear the same `pid` fields, and nothing
keeps them apart. This file says what has to be kept apart, `ReapsApart`, and proves that it is
enough: in every run in which the watchdog does not reap a service's child while the handler is in
`pm_stop` for it, the handler does not reap one between the watchdog's look at the state and its
`waitpid`, and does not find a service running whose child the watchdog has just reaped, every
`kill` and `waitpid` names a child of the service that has not been reaped.

* `Inv.step`: what a guarded step preserves;
* `no_stray_kill`: what a guarded run does.
-/

namespace JuliusOS.ProcessManager

variable {s s' : State} {l : Label} {σ' : Shared} {v : Service} {i j k : ℕ} {pid reaped : ℤ}

/-- The entries, the children and the threads' roles fit together. -/
structure Consistent (s : State) : Prop where
  /-- The children's pids are in order. -/
  children : ChildrenOk s.shared.children
  /-- The services are. -/
  good : ∀ i v, s.shared.services[i]? = some v → Good (s.roles i) v (Owns s.shared.children i)
  /-- All calls were valid. -/
  calls : ∀ o ∈ s.shared.trace, o.Valid

/-- What holds in every state of a guarded run. -/
structure Inv (s : State) : Prop extends Wired s, Consistent s

/-- What a statement about one service preserves. -/
theorem Consistent.update (hcon : Consistent s) (hv : s.shared.services[i]? = some v)
    (hlocal : Local s.shared s'.shared i (s'.roles i) v)
    (hothers : ∀ k ≠ i, s'.roles k = s.roles k) : Consistent s' := by
  obtain ⟨⟨f, hservices, hgood⟩, hothers', hchildren, hcalls⟩ := hlocal
  refine ⟨hchildren, fun k w hw ↦ ?_, fun o ho ↦ (hcalls o ho).elim (hcon.calls o) id⟩
  rw [hservices] at hw
  by_cases hk : i = k
  · obtain rfl := hk
    rw [List.getElem?_modify_eq, hv] at hw
    rw [← Option.some.inj hw]
    exact hgood
  · rw [List.getElem?_modify_ne _ _ hk] at hw
    rw [hothers k (Ne.symm hk)]
    exact (hcon.good k w hw).mono (hothers' k (Ne.symm hk))

/-- What a statement about no service preserves. -/
theorem Consistent.same (hcon : Consistent s) (hservices : s'.shared.services = s.shared.services)
    (hchildren : s'.shared.children = s.shared.children)
    (hcalls : ∀ o ∈ s'.shared.trace, o ∈ s.shared.trace ∨ o.Valid)
    (hroles : ∀ k, s'.roles k = s.roles k) : Consistent s' := by
  refine ⟨hchildren ▸ hcon.children, fun k w hw ↦ ?_,
    fun o ho ↦ (hcalls o ho).elim (hcon.calls o) id⟩
  rw [hservices] at hw
  rw [hroles, hchildren]
  exact hcon.good k w hw

/-! ### The guard -/

/-- **What has to be kept apart.** The watchdog does not reap the child of a service while the
handler is in `pm_stop` for it, past the check. The handler does not reap one while the watchdog
has found the service running and is about to call `waitpid`. Between the watchdog's `waitpid` and
the change of the state the handler does not pass the check, and the watchdog's thread is not
cancelled (which can happen where a handler runs on it). -/
def ReapsApart (s : State) : Label → Prop
  | .watchdog _ reaped => ∀ i v, s.shared.services[i]? = some v → (s.roles i).body = some .poll →
      Reaps s.shared.children v.pid reaped → ∀ pc, (s.roles i).stop = some pc → pc = .check
  | .handler reaped => ∀ i v, s.shared.services[i]? = some v → ∀ pc, (s.roles i).stop = some pc →
      (∀ pid, pc = .poll ∨ pc = .blocked pid → Reaps s.shared.children v.pid reaped →
        (s.roles i).body ≠ some .poll) ∧
      (pc = .check → v.state = .running → (s.roles i).body ≠ some .setFailed)
  | .cancelled => ∀ i, (s.roles i).body ≠ some .setFailed
  | _ => True

/-! ### The threads -/

/-- **A statement of the watchdog.** -/
theorem Inv.watchdog {w w' : WatchdogPc} {forked : Option ℤ} (hinv : Inv s)
    (hw : s.watchdog = some w) (hguard : ReapsApart s (.watchdog forked reaped))
    (h : watchdogThread s.shared forked reaped w = some (w', σ')) :
    Consistent { s with watchdog := some w', shared := σ' } := by
  have hstart := hinv.start_eq_none (by rw [hw]; nofun)
  have hbody : ∀ i, (s.roles i).body = w.bodyAt i := fun i ↦ by
    rw [State.roles, hw, Option.bind_some]
  -- a statement about no service
  have hsame : ∀ {w₁ : WatchdogPc} {σ₁ : Shared}, (∀ i, w.bodyAt i = none) →
      (∀ i, w₁.bodyAt i = none) → σ₁.services = s.shared.services →
      σ₁.children = s.shared.children → σ₁.trace = s.shared.trace →
      Consistent { s with watchdog := some w₁, shared := σ₁ } := by
    intro w₁ σ₁ h₀ h₁ hservices hchildren htrace
    refine hinv.same hservices hchildren (fun o ho ↦ Or.inl (htrace ▸ ho)) fun i ↦ ?_
    rw [roles_watchdog, h₁, ← h₀ i, ← hbody]
  cases w with
  | test =>
    obtain ⟨rfl, rfl⟩ := Prod.mk.inj (Option.some.inj h)
    refine hsame (fun _ ↦ rfl) (fun i ↦ ?_) rfl rfl rfl
    split <;> rfl
  | lock =>
    obtain ⟨-, hout⟩ := Option.ite_none_left_eq_some.1 h
    obtain ⟨rfl, rfl⟩ := Prod.mk.inj (Option.some.inj hout)
    exact hsame (fun _ ↦ rfl) (fun _ ↦ rfl) rfl rfl rfl
  | loop i =>
    obtain ⟨rfl, rfl⟩ := Prod.mk.inj (Option.some.inj h)
    cases hv : s.shared.services[i]? with
    | none => exact hsame (fun _ ↦ rfl) (fun _ ↦ rfl) rfl rfl rfl
    | some v =>
      dsimp only
      split
      next hrun =>
        refine hinv.update hv ?_ fun k hk ↦ ?_
        · rw [roles_watchdog, bodyAt_body_self]
          exact .skip hinv.children ((hinv.good i v hv).enter_poll (hbody i) (hstart i) hrun)
        · rw [roles_watchdog, bodyAt_body_of_ne hk,
            show none = (s.roles k).body from (hbody k).symm]
      next => exact hsame (fun _ ↦ rfl) (fun _ ↦ rfl) rfl rfl rfl
  | body i pc =>
    obtain ⟨v, hv, hout⟩ := Option.bind_eq_some_iff.1 h
    have hpc : (s.roles i).body = some pc := (hbody i).trans (bodyAt_body_self i pc)
    have hlocal := local_watchdogBody hinv.children (hinv.good i v hv) hpc
      (fun j p hp ↦ hinv.starts i j p (hp ▸ hw)) (hinv.findService hv) hv
      (fun hp hreaps ↦ hguard i v hv (hp ▸ hpc) hreaps) hout
    refine hinv.update hv hlocal fun k hk ↦ ?_
    have hnone : (s.roles k).body = none := (hbody k).trans (bodyAt_body_of_ne hk pc)
    rw [roles_watchdog, bodyAt_watchdogBody hout hk, ← hnone]
  | unlock | sleep =>
    obtain ⟨rfl, rfl⟩ := Prod.mk.inj (Option.some.inj h)
    exact hsame (fun _ ↦ rfl) (fun _ ↦ rfl) rfl rfl rfl
  | done => cases h

/-- **A statement of the handler.** -/
theorem Inv.handler {host : Host} {pc : HandlerPc} {pc' : Option HandlerPc} (hinv : Inv s)
    (hpc : s.handler = some (host, pc)) (hguard : ReapsApart s (.handler reaped))
    (h : signalHandler s.shared reaped pc = some (pc', σ')) :
    Consistent { s with handler := pc'.map (host, ·), shared := σ' } := by
  have hstop : ∀ i, (s.roles i).stop = pc.stopAt i := fun i ↦ by
    rw [State.roles, hpc, Option.bind_some]
  -- a statement about no service
  have hsame : ∀ {pc₁ : Option HandlerPc} {σ₁ : Shared}, (∀ i, pc.stopAt i = none) →
      (∀ i, pc₁.bind (HandlerPc.stopAt i) = none) → σ₁.services = s.shared.services →
      σ₁.children = s.shared.children → (∀ o ∈ σ₁.trace, o ∈ s.shared.trace ∨ o.Valid) →
      Consistent { s with handler := pc₁.map (host, ·), shared := σ₁ } := by
    intro pc₁ σ₁ h₀ h₁ hservices hchildren htrace
    refine hinv.same hservices hchildren htrace fun i ↦ ?_
    rw [roles_handler, h₁, ← h₀ i, ← hstop]
  cases pc with
  | setRunning =>
    obtain ⟨rfl, rfl⟩ := Prod.mk.inj (Option.some.inj h)
    exact hsame (fun _ ↦ rfl) (fun _ ↦ rfl) rfl rfl fun _ ↦ Or.inl
  | loop i =>
    rw [signalHandler] at h
    cases hv : s.shared.services[i]? with
    | none =>
      rw [hv] at h
      obtain ⟨rfl, rfl⟩ := Prod.mk.inj (Option.some.inj h)
      refine hsame (fun _ ↦ rfl) (fun _ ↦ rfl) rfl rfl fun o ho ↦ ?_
      refine (List.mem_append.1 ho).imp_right fun ho ↦ ?_
      rw [List.mem_singleton.1 ho]
      trivial
    | some v =>
      rw [hv] at h
      obtain ⟨rfl, rfl⟩ := Prod.mk.inj (Option.some.inj h)
      split
      next j hj =>
        obtain ⟨hrun, hj⟩ := Option.ite_none_right_eq_some.1 hj
        rw [hinv.findService hv] at hj
        obtain rfl := Option.some.inj hj
        refine hinv.update hv ?_ fun k hk ↦ ?_
        · rw [roles_handler, Option.bind_some, stopAt_stop_self]
          exact .skip hinv.children (hinv.good i v hv).enter_stop
        · rw [roles_handler, Option.bind_some, stopAt_stop_of_ne hk,
            show none = (s.roles k).stop from (hstop k).symm]
      next => exact hsame (fun _ ↦ rfl) (fun _ ↦ rfl) rfl rfl fun _ ↦ Or.inl
  | stop i j pc =>
    obtain ⟨⟨pc₁, σ₁⟩, hbind, hout⟩ := Option.map_eq_some_iff.1 h
    obtain ⟨v, hv, hpm⟩ := Option.bind_eq_some_iff.1 hbind
    obtain ⟨rfl, rfl⟩ := Prod.mk.inj hout
    have hat : (s.roles j).stop = some pc := (hstop j).trans (stopAt_stop_self i j pc)
    obtain ⟨hreap, hcheck⟩ := hguard j v hv pc hat
    have hlocal := local_pmStop hinv.children (hinv.good j v hv) hat hcheck hreap hpm
    refine hinv.update hv ?_ fun k hk ↦ ?_
    · rw [roles_handler, Option.bind_some]
      cases pc₁ with
      | none => exact hlocal
      | some pc₁ =>
        dsimp only
        rw [stopAt_stop_self]
        exact hlocal
    · have hnone : (s.roles k).stop = none := (hstop k).trans (stopAt_stop_of_ne hk i pc)
      rw [roles_handler, Option.bind_some]
      cases pc₁ with
      | none =>
        show ({ s.roles k with stop := none } : Roles) = _
        rw [← hnone]
      | some pc₁ =>
        dsimp only
        rw [stopAt_stop_of_ne hk, ← hnone]

/-- A registration adds a stopped service. -/
theorem Inv.register {reg : Registration} {todo : List Registration} (hinv : Inv s)
    (hroles : ∀ k, s.roles k = ⟨none, none, none⟩) :
    Consistent { s with
      main := .register todo
      shared := { s.shared with services := pmRegister s.shared.services reg } } := by
  have hgood : ∀ i v, (pmRegister s.shared.services reg)[i]? = some v →
      Good ⟨none, none, none⟩ v (Owns s.shared.children i) := by
    intro i v hv
    have hold : ∀ v, s.shared.services[i]? = some v →
        Good ⟨none, none, none⟩ v (Owns s.shared.children i) := fun v hv ↦
      hroles i ▸ hinv.good i v hv
    rw [pmRegister] at hv
    split at hv
    · rcases Nat.lt_or_ge i s.shared.services.length with hlt | hge
      · rw [List.getElem?_append_left hlt] at hv
        exact hold v hv
      · rw [List.getElem?_append_right hge] at hv
        obtain rfl := List.mem_singleton.1 (List.mem_of_getElem? hv)
        exact Good.of_check (by rintro _ ⟨⟩) (fun _ ↦ rfl) (by rintro ⟨⟩) (by rintro ⟨⟩)
          (by rintro _ ⟨⟩) (fun _ hp ↦ absurd hp (by simp [Roles.Starts])) fun hp ↦
            absurd hp (by simp [Roles.Starts])
    · exact hold v hv
  refine ⟨hinv.children, fun i v hv ↦ ?_, hinv.calls⟩
  rw [roles_main, hroles]
  exact hgood i v hv

/-- **A statement of the main thread**, other than the creation of the watchdog. -/
theorem Inv.main {m m' : MainPc} {forked : Option ℤ} (hinv : Inv s) (hm : s.main = m)
    (hfree : s.suspended .main = false) (h : mainThread s.shared forked m = some (m', σ')) :
    Consistent { s with main := m', shared := σ' } := by
  -- until the watchdog is created, the main thread is alone
  have hroles : m.Booting → ∀ k, s.roles k = ⟨none, none, m.startAt k⟩ := by
    intro hboot k
    obtain ⟨hw, hh⟩ := hinv.alone (hm ▸ hboot) hfree
    rw [State.roles, hw, hh, hm]
    rfl
  have hstart : ∀ k, (s.roles k).start = m.startAt k := fun k ↦ by rw [State.roles, hm]
  -- a statement about no service
  have hsame : m'.startAt = m.startAt → σ' = s.shared →
      Consistent { s with main := m', shared := σ' } := by
    rintro h₀ rfl
    refine hinv.same rfl rfl (fun _ ↦ Or.inl) fun k ↦ ?_
    rw [roles_main, congrFun h₀ k, ← hstart]
  cases m with
  | register todo =>
    cases todo with
    | nil =>
      obtain ⟨rfl, rfl⟩ := Prod.mk.inj (Option.some.inj h)
      exact hsame rfl rfl
    | cons reg todo =>
      obtain ⟨rfl, rfl⟩ := Prod.mk.inj (Option.some.inj h)
      exact hinv.register (hroles trivial)
  | starting todo =>
    cases todo with
    | nil => cases h
    | cons i todo =>
      obtain ⟨v, hv, hout⟩ := Option.map_eq_some_iff.1 h
      rw [hinv.findService hv] at hout
      obtain ⟨rfl, rfl⟩ := Prod.mk.inj hout
      refine hinv.update hv ?_ fun k hk ↦ ?_
      · have hgood := hinv.good i v hv
        rw [hroles trivial] at hgood
        rw [roles_main, startAt_start_self, hroles trivial]
        exact .skip hinv.children (hgood.enter_start)
      · rw [roles_main, startAt_start_of_ne hk, hroles trivial]
        rfl
  | start todo j pc =>
    obtain ⟨⟨pc₁, σ₁⟩, hbind, hout⟩ := Option.map_eq_some_iff.1 h
    obtain ⟨v, hv, hpm⟩ := Option.bind_eq_some_iff.1 hbind
    obtain ⟨rfl, rfl⟩ := Prod.mk.inj hout
    have hat : s.roles j = .starter none none (some pc) := by
      rw [hroles trivial, startAt_start_self]
      rfl
    have hgood : Good (.starter none none (some pc)) v (Owns s.shared.children j) :=
      hat ▸ hinv.good j v hv
    have hlocal := local_pmStart hinv.children hgood (by rintro _ ⟨⟩) hpm
    refine hinv.update hv ?_ fun k hk ↦ ?_
    · rw [roles_main, hroles trivial]
      cases pc₁ with
      | none => exact hlocal
      | some pc₁ =>
        dsimp only
        rw [startAt_start_self]
        exact hlocal
    · rw [roles_main, hroles trivial, startAt_start_of_ne hk]
      cases pc₁ with
      | none => rfl
      | some pc₁ =>
        dsimp only
        rw [startAt_start_of_ne hk]
  | loop =>
    obtain ⟨rfl, rfl⟩ := Prod.mk.inj (Option.some.inj h)
    refine hsame ?_ rfl
    split <;> rfl
  | cancel | exit =>
    obtain ⟨rfl, rfl⟩ := Prod.mk.inj (Option.some.inj h)
    exact hsame rfl rfl
  | exited => cases h

/-- The end of a child changes nothing but what `waitpid` returns. -/
theorem owns_childExit {p : ℤ} (s : State) (h : Owns s.shared.children i pid) :
    Owns (s.childExit p) i pid := by
  obtain ⟨c, hc, hpid, hservice⟩ := h
  refine ⟨_, List.mem_map_of_mem hc, ?_⟩
  split
  · exact ⟨hpid, hservice⟩
  · exact ⟨hpid, hservice⟩

theorem map_pid_childExit (s : State) (p : ℤ) :
    (s.childExit p).map Child.pid = s.shared.children.map Child.pid := by
  rw [State.childExit, List.map_map]
  refine List.map_congr_left fun c _ ↦ ?_
  rw [Function.comp_apply]
  split <;> rfl

theorem ChildrenOk.childExit {p : ℤ} (hok : ChildrenOk s.shared.children) :
    ChildrenOk (s.childExit p) where
  pos c hc := by
    have hmem := List.mem_map_of_mem (f := Child.pid) hc
    rw [map_pid_childExit] at hmem
    obtain ⟨d, hd, hpid⟩ := List.mem_map.1 hmem
    exact hpid ▸ hok.pos d hd
  nodup := by
    rw [map_pid_childExit]
    exact hok.nodup

/-- The end of the watchdog's thread, unless it is about to mark a service as failed. -/
theorem Inv.cancelled (hinv : Inv s) (hguard : ReapsApart s .cancelled) :
    Consistent { s with
      watchdog := some .done
      handler := if s.suspended .watchdog then none else s.handler } := by
  refine ⟨hinv.children, fun i v hv ↦ ?_, hinv.calls⟩
  have hbody : Good { s.roles i with body := none } v (Owns s.shared.children i) := by
    cases hpc : (s.roles i).body with
    | none =>
      rw [← hpc]
      exact hinv.good i v hv
    | some pc => exact (hinv.good i v hv).leave_body hpc fun heq ↦ hguard i (heq ▸ hpc)
  -- a handler that runs on the thread ends with it
  by_cases hsus : s.suspended .watchdog = true
  · have hstop := hbody.leave_stop
    rw [State.roles, if_pos hsus]
    exact hstop
  · rw [State.roles, if_neg hsus]
    exact hbody

/-- **Every step that meets the guard preserves the invariant.** -/
theorem Inv.step (hinv : Inv s) (hguard : ReapsApart s l) (h : ProcessManager.step s l = some s') :
    Inv s' := by
  refine ⟨hinv.toWired.step h, ?_⟩
  cases does_of_step h with
  | create hfree hm =>
    have hw := hinv.booting (hm ▸ trivial)
    refine hinv.same rfl rfl (fun _ ↦ Or.inl) fun k ↦ ?_
    rw [State.roles, State.roles, hw, hm]
    rfl
  | main hfree hthread => exact hinv.main rfl hfree hthread
  | watchdog hw hthread => exact hinv.watchdog hw hguard hthread
  | handler hpc hthread => exact hinv.handler hpc hguard hthread
  | signal hnone =>
    refine hinv.same rfl rfl (fun _ ↦ Or.inl) fun k ↦ ?_
    rw [State.roles, State.roles, hnone]
    rfl
  | childExit =>
    exact ⟨hinv.children.childExit,
      fun i v hv ↦ (hinv.good i v hv).mono fun _ ↦ owns_childExit s, hinv.calls⟩
  | cancelled => exact hinv.cancelled hguard

/-- At the start there are no services and no children. -/
theorem inv_of_init {registrations : List Registration}
    (hnd : (registrations.map Registration.name).Nodup)
    (h : (processManager registrations).Init s) : Inv s := by
  refine ⟨wired_of_init hnd h, ?_⟩
  obtain rfl : s = _ := h
  exact ⟨⟨nofun, List.nodup_nil⟩, nofun, nofun⟩

/-- **No stray kill.** In a run in which the watchdog and the handler do not get in each other's way
over one service, every `kill` and every `waitpid` names a child of the service in question that
has not been reaped; its pid is positive. -/
theorem no_stray_kill {s₀ : State} {ls : List Label} (h₀ : (processManager juliusServices).Init s₀)
    (hguard : (processManager juliusServices).Guarded ReapsApart s₀ ls)
    (hrun : (processManager juliusServices).run s₀ ls = some s) :
    ∀ sys i pid owner, .call sys i pid owner ∈ s.shared.trace → owner = some i ∧ 0 < pid := by
  have hinv : Inv s := by
    refine Machine.invariant_of_guarded (I := Inv) (fun s l s' hs hok hstep ↦ ?_)
      (inv_of_init (by decide) h₀) hguard hrun
    exact hs.step hok (Option.ite_none_left_eq_some.1 hstep).2
  exact fun sys i pid owner hcall ↦ hinv.calls _ hcall

/-- A run in which the watchdog does nothing meets the guard. -/
theorem guarded_of_idle {ls : List Label} {s : State} (hs : ∀ i, (s.roles i).body = none)
    (hls : ∀ l ∈ ls, l.Idle) : (processManager juliusServices).Guarded ReapsApart s ls := by
  refine Machine.guarded_of_invariant (I := fun s ↦ ∀ i, (s.roles i).body = none)
    (fun s l hidle hl ↦ ?_) (fun s l s' hidle hl hstep ↦ ?_) hs hls
  · have hne : ∀ i pc, (s.roles i).body ≠ some pc := fun i pc hpc ↦ nomatch (hidle i).symm.trans hpc
    cases l with
    | watchdog forked reaped => exact hl.elim
    | handler reaped => exact fun i v hv pc hpc ↦ ⟨fun _ _ _ ↦ hne i _, fun _ _ ↦ hne i _⟩
    | cancelled => exact fun i ↦ hne i _
    | _ => trivial
  · exact body_of_idle hidle hl (Option.ite_none_left_eq_some.1 hstep).2

/-- A run in which the main thread is interrupted after the boot and the handler stops the first
service. -/
def stopLabels : List Label :=
  bootLabels ++ [.signal .main] ++ List.replicate 5 (.handler 0)

theorem no_stray_kill_stop : ∃ s, (processManager juliusServices).run .start stopLabels = some s ∧
    .call .kill 0 100 (some 0) ∈ s.shared.trace ∧
    ∀ sys i pid owner, .call sys i pid owner ∈ s.shared.trace → owner = some i ∧ 0 < pid := by
  have hrun : ((processManager juliusServices).run .start stopLabels).any
      (fun s ↦ .call .kill 0 100 (some 0) ∈ s.shared.trace) = true := by decide +kernel
  obtain ⟨s, hs, hkill⟩ := (Option.any_eq_true _ _).1 hrun
  exact ⟨s, hs, of_decide_eq_true hkill,
    no_stray_kill rfl (guarded_of_idle (fun _ ↦ rfl) (by decide)) hs⟩

/-- Service 0 is found running by the watchdog and is being stopped by the handler when its child
exits. The watchdog reaps the child and clears the pid while the handler sleeps. -/
def strayLabels : List Label :=
  bootLabels ++ List.replicate 3 (.watchdog none 0) ++ [.signal .main] ++
    List.replicate 6 (.handler 0) ++ [.childExit 100, .watchdog none 100] ++
    List.replicate 2 (.watchdog none 0) ++ List.replicate 2 (.handler 0)

/-- **A stray kill**: the handler kills all processes. -/
theorem stray_kill : ¬ ∀ s₀ ls s, (processManager juliusServices).Init s₀ →
    (processManager juliusServices).run s₀ ls = some s →
    ∀ sys i pid owner, .call sys i pid owner ∈ s.shared.trace → owner = some i ∧ 0 < pid := by
  intro hall
  have hrun : ((processManager juliusServices).run .start strayLabels).any
      (fun s ↦ .call .kill 0 (-1) none ∈ s.shared.trace) = true := by decide +kernel
  obtain ⟨s, hs, hkill⟩ := (Option.any_eq_true _ _).1 hrun
  exact nomatch (hall _ _ s rfl hs _ _ _ _ (of_decide_eq_true hkill)).1

end JuliusOS.ProcessManager
