import JuliusOS.ProcessManager.Control

/-!
# One service

What the threads do to one service. `Good` speaks of the service's entry, of the pids of its
children and of the statements the threads are at in it; `Local` says what a statement about the
service leaves alone: the other services' entries and children.

* `local_watchdogBody`, `local_pmStop`, `local_pmStart`: what the statements preserve. The first
  two assume that the threads do not get in each other's way.
-/

namespace JuliusOS.ProcessManager

/-! ### Children -/

variable {children rest : List Child} {pid ret reaped : ℤ} {i j k : ℕ} {c : Child}

/-- The children's pids are positive and distinct. -/
structure ChildrenOk (children : List Child) : Prop where
  /-- They are positive. -/
  pos : ∀ c ∈ children, 0 < c.pid
  /-- They are distinct. -/
  nodup : (children.map Child.pid).Nodup

/-- The pid is that of a child of service `i` which has not been reaped. -/
def Owns (children : List Child) (i : ℕ) (pid : ℤ) : Prop :=
  ∃ c ∈ children, c.pid = pid ∧ c.service = i

theorem Owns.pos (hok : ChildrenOk children) (h : Owns children i pid) : 0 < pid := by
  obtain ⟨c, hc, rfl, -⟩ := h
  exact hok.pos c hc

theorem ownerOf_of_owns (hok : ChildrenOk children) (h : Owns children i pid) :
    ownerOf children pid = some i := by
  obtain ⟨c, hc, rfl, rfl⟩ := h
  obtain ⟨c', hc'⟩ : ∃ c', children.find? (fun d ↦ d.pid = c.pid) = some c' := by
    rw [← Option.isSome_iff_exists, List.find?_isSome]
    exact ⟨c, hc, decide_eq_true rfl⟩
  have hpid : c'.pid = c.pid := of_decide_eq_true (List.find?_some hc' :)
  obtain rfl := List.inj_on_of_nodup_map hok.nodup (List.mem_of_find?_eq_some hc') hc hpid
  rw [ownerOf, hc']
  rfl

/-- **Waiting for a child** finds it alive, or reaps it and no other. -/
theorem waitpid_of_owns (hok : ChildrenOk children) (h : Owns children i pid)
    (hwait : waitpid children pid reaped = some (ret, rest)) :
    ret = 0 ∧ rest = children ∨ ret = pid ∧ rest = children.filter fun c ↦ c.pid ≠ pid := by
  have hpos := h.pos hok
  obtain ⟨c, hc, hpid, -⟩ := h
  rw [waitpid, if_neg fun hnone ↦ hnone c hc (Or.inr hpid)] at hwait
  split at hwait
  next hreap =>
    obtain ⟨c', hc', hmatch, -, hreaped⟩ := hreap
    obtain rfl : reaped = pid := hreaped.symm.trans (hmatch.resolve_left (by omega))
    obtain ⟨rfl, rfl⟩ := Prod.mk.inj (Option.some.inj hwait)
    exact Or.inr ⟨rfl, rfl⟩
  next =>
    split at hwait
    · cases hwait
    · obtain ⟨rfl, rfl⟩ := Prod.mk.inj (Option.some.inj hwait)
      exact Or.inl ⟨rfl, rfl⟩

/-- Reaping a child of one service leaves the other services theirs. -/
theorem owns_filter (hok : ChildrenOk children) (h : Owns children i pid) (hji : j ≠ i) {p : ℤ}
    (hp : Owns children j p) : Owns (children.filter fun c ↦ c.pid ≠ pid) j p := by
  obtain ⟨c, hc, rfl, rfl⟩ := h
  obtain ⟨d, hd, rfl, rfl⟩ := hp
  refine ⟨d, List.mem_filter.2 ⟨hd, decide_eq_true fun heq ↦ hji ?_⟩, rfl, rfl⟩
  rw [List.inj_on_of_nodup_map hok.nodup hd hc heq]

theorem ChildrenOk.filter (hok : ChildrenOk children) (p : Child → Bool) :
    ChildrenOk (children.filter p) where
  pos c hc := hok.pos c (List.mem_of_mem_filter hc)
  nodup := hok.nodup.sublist (List.filter_sublist.map _)

theorem ChildrenOk.fork (hok : ChildrenOk children) (hpos : 0 < pid)
    (hfresh : pid ∉ children.map Child.pid) (i : ℕ) :
    ChildrenOk (children ++ [⟨pid, i, false⟩]) where
  pos c hc := by
    rcases List.mem_append.1 hc with hc | hc
    · exact hok.pos c hc
    · rw [List.mem_singleton.1 hc]
      exact hpos
  nodup := by
    rw [List.map_append]
    refine List.Nodup.append hok.nodup (List.nodup_singleton _) fun p hp hp' ↦ hfresh ?_
    obtain rfl : p = pid := List.mem_singleton.1 hp'
    exact hp
/-! ### One service -/

/-- The statements of `pm_stop` from its check on to its last use of the pid. -/
def StopPc.Holds : StopPc → Prop
  | .check | .setStopped | .clearPid => False
  | _ => True

/-- The statements after the state was changed. -/
def StopPc.Stopping : StopPc → Prop
  | .check | .setStopping => False
  | _ => True

/-- The statements of the watchdog's loop body from the one after the change of the state to the
return of `pm_start`. -/
def BodyPc.Restarting : BodyPc → Prop
  | .poll | .setFailed | .relock => False
  | _ => True

namespace Roles

variable (r : Roles)

/-- A thread is at a statement of `pm_start` for the service. -/
def Starts (pc : StartPc) : Prop := (∃ j, r.body = some (.start j pc)) ∨ r.start = some pc

/-- The watchdog is restarting the service, or the main thread is past the check in `pm_start`. -/
def Restarting : Prop :=
  (∃ pc, r.body = some pc ∧ pc.Restarting) ∨ ∃ pc, r.start = some pc ∧ pc ≠ .check

end Roles

/-- The roles when `pm_start` was called by the watchdog (from which it came for `some j`) or by
the main thread, at a statement or after the return. -/
def Roles.starter (caller : Option ℕ) (stop : Option StopPc) (pc : Option StartPc) : Roles :=
  match caller, pc with
  | some j, some pc => ⟨some (.start j pc), stop, none⟩
  | some _, none => ⟨some .relock, stop, none⟩
  | none, pc => ⟨none, stop, pc⟩

/-- What holds of a service, given its roles, its entry and the pids of its children. -/
structure Good (r : Roles) (v : Service) (own : ℤ → Prop) : Prop where
  /-- Only one thread starts services, and the watchdog does so only after the main thread. -/
  single : r.start ≠ none → r.body = none
  /-- A running service has a child, unless the watchdog has just reaped it. -/
  running : v.state = .running → r.body ≠ some .setFailed → own v.pid
  /-- The watchdog waits for a child. -/
  poll : r.body = some .poll → own v.pid
  /-- The handler stops a child. -/
  stop : ∀ pc, r.stop = some pc → pc.Holds → own v.pid
  /-- It goes on waiting for a child. -/
  blocked : ∀ pid, r.stop = some (.blocked pid) → pid = v.pid
  /-- A service that is being stopped is not running. -/
  stopping : ∀ pc, r.stop = some pc → pc.Stopping → v.state ≠ .running
  /-- Nor is one whose child the watchdog has reaped. -/
  restarting : r.Restarting → v.state ≠ .running
  /-- What the watchdog or the main thread works on, the handler does not stop. -/
  apart : r.Restarting ∨ r.body = some .setFailed → ∀ pc, r.stop = some pc → pc = .check
  /-- What the handler has reaped, the watchdog does not wait for. -/
  reaped : r.body = some .poll → r.stop ≠ some .setStopped ∧ r.stop ≠ some .clearPid
  /-- A forked pid is that of a child. -/
  forked : ∀ pid, r.Starts (.setPid pid) → own pid
  /-- So is the one in the entry. -/
  started : r.Starts .setRunning → own v.pid

namespace Good

variable {r : Roles} {v : Service} {own own' : ℤ → Prop}

/-- Whoever has forked is restarting. -/
theorem restarting_of_starts {pc : StartPc} (h : r.Starts pc) (hpc : pc ≠ .check) :
    r.Restarting := by
  rcases h with ⟨j, hj⟩ | h
  · exact Or.inl ⟨_, hj, trivial⟩
  · exact Or.inr ⟨_, h, hpc⟩

/-- The watchdog's statements leave the main thread nothing to do. -/
theorem start_eq_none {pc : BodyPc} (h : Good r v own) (hb : r.body = some pc) :
    r.start = none := by
  by_contra hne
  rw [h.single hne] at hb
  cases hb

/-- There may be more children. -/
theorem mono (h : Good r v own) (hown : ∀ pid, own pid → own' pid) : Good r v own' :=
  { h with
    running := fun hr hb ↦ hown _ (h.running hr hb)
    poll := fun hb ↦ hown _ (h.poll hb)
    stop := fun pc hpc hh ↦ hown _ (h.stop pc hpc hh)
    forked := fun pid hp ↦ hown _ (h.forked pid hp)
    started := fun hs ↦ hown _ (h.started hs) }

/-! #### The watchdog -/

/-- The watchdog finds the service running. -/
theorem enter_poll (h : Good r v own) (hb : r.body = none) (hs : r.start = none)
    (hrun : v.state = .running) : Good { r with body := some .poll } v own :=
  have hown : own v.pid := h.running hrun (by rw [hb]; nofun)
  { h with
    single := fun hne ↦ absurd hs hne
    running := fun _ _ ↦ hown
    poll := fun _ ↦ hown
    restarting := by simp [Roles.Restarting, BodyPc.Restarting, hs]
    apart := by simp [Roles.Restarting, BodyPc.Restarting, hs]
    reaped := fun _ ↦ ⟨fun hst ↦ h.stopping _ hst trivial hrun,
      fun hst ↦ h.stopping _ hst trivial hrun⟩
    forked := by simp [Roles.Starts, hs]
    started := by simp [Roles.Starts, hs] }

/-- It is done with the service. -/
theorem leave_body {pc : BodyPc} (h : Good r v own) (hb : r.body = some pc)
    (hpc : pc ≠ .setFailed) : Good { r with body := none } v own :=
  have hs := h.start_eq_none hb
  { h with
    single := fun _ ↦ rfl
    running := fun hr _ ↦ h.running hr (by rw [hb]; simpa using hpc)
    poll := nofun
    restarting := by simp [Roles.Restarting, hs]
    apart := by simp [Roles.Restarting, hs]
    reaped := nofun
    forked := by simp [Roles.Starts, hs]
    started := by simp [Roles.Starts, hs] }

/-- It reaps the service's child while the handler is not in `pm_stop` for it. -/
theorem reap_body (h : Good r v own) (hb : r.body = some .poll)
    (hstop : ∀ pc, r.stop = some pc → pc = .check) (own' : ℤ → Prop) :
    Good { r with body := some .setFailed } v own' :=
  have hs := h.start_eq_none hb
  { h with
    single := fun hne ↦ absurd hs hne
    running := fun _ hne ↦ absurd rfl hne
    poll := nofun
    stop := fun pc hpc hh ↦ by
      rw [hstop pc hpc] at hh
      exact hh.elim
    restarting := by simp [Roles.Restarting, BodyPc.Restarting, hs]
    apart := fun _ ↦ hstop
    reaped := nofun
    forked := by simp [Roles.Starts, hs]
    started := by simp [Roles.Starts, hs] }

/-- **While the handler is not past its check**, only the other threads matter. -/
theorem of_check (hcheck : ∀ pc, r.stop = some pc → pc = .check)
    (hsingle : r.start ≠ none → r.body = none) (hpoll : r.body ≠ some .poll)
    (hrun : v.state = .running → own v.pid)
    (hrestart : r.Restarting → v.state ≠ .running)
    (hforked : ∀ pid, r.Starts (.setPid pid) → own pid)
    (hstarted : r.Starts .setRunning → own v.pid) : Good r v own where
  single := hsingle
  running hr _ := hrun hr
  poll hb := absurd hb hpoll
  stop pc hpc hh := by
    rw [hcheck pc hpc] at hh
    exact hh.elim
  blocked pid hpid := nomatch hcheck _ hpid
  stopping pc hpc hh := by
    rw [hcheck pc hpc] at hh
    exact hh.elim
  restarting := hrestart
  apart _ := hcheck
  reaped hb := absurd hb hpoll
  forked := hforked
  started := hstarted

/-- The watchdog goes on in the restart of a service that is not running. -/
theorem restart_body {pc pc' : BodyPc} {v' : Service} (h : Good r v own) (hb : r.body = some pc)
    (hpc : pc = .setFailed ∨ pc.Restarting) (hpc' : pc' ≠ .poll)
    (hfork : ∀ j pc, pc' = .start j pc → pc = .check) (hv' : v'.state ≠ .running) :
    Good { r with body := some pc' } v' own := by
  have hs := h.start_eq_none hb
  have hnot : ∀ pc, pc ≠ .check → ¬ Roles.Starts { r with body := some pc' } pc := by
    rintro pc hne (⟨j, hj⟩ | hst)
    · exact hne (hfork j pc (Option.some.inj hj))
    · exact nomatch hs.symm.trans hst
  refine of_check (h.apart ?_) (fun hne ↦ absurd hs hne) (fun heq ↦ hpc' (Option.some.inj heq))
    (fun hr ↦ absurd hr hv') (fun _ ↦ hv') (fun pid hp ↦ absurd hp (hnot _ nofun))
    fun hp ↦ absurd hp (hnot _ nofun)
  rcases hpc with rfl | hr
  · exact Or.inr hb
  · exact Or.inl (Or.inl ⟨pc, hb, hr⟩)

/-- So it does from any statement of the restart that leaves the state alone. -/
theorem go_on_body {pc pc' : BodyPc} {v' : Service} (h : Good r v own) (hb : r.body = some pc)
    (hpc : pc.Restarting) (hpc' : pc' ≠ .poll) (hfork : ∀ j pc, pc' = .start j pc → pc = .check)
    (hv' : v'.state = v.state) : Good { r with body := some pc' } v' own :=
  h.restart_body hb (Or.inr hpc) hpc' hfork (hv' ▸ h.restarting (Or.inl ⟨pc, hb, hpc⟩))

/-! #### `pm_start` -/

variable {caller : Option ℕ} {stop : Option StopPc} {pc pc' : Option StartPc}

theorem starts_starter {p : StartPc} : (Roles.starter caller stop pc).Starts p ↔ pc = some p := by
  rcases caller with _ | j <;> rcases pc with _ | pc <;> simp [Roles.starter, Roles.Starts]

theorem ne_none_of_restarting (h : (Roles.starter caller stop pc).Restarting) : pc ≠ none := by
  rintro rfl
  rcases caller with _ | j <;> simp [Roles.starter, Roles.Restarting, BodyPc.Restarting] at h

theorem restarting_starter {p : StartPc} (h : pc = some p) (hp : p ≠ .check) :
    (Roles.starter caller stop pc).Restarting :=
  restarting_of_starts (starts_starter.2 h) hp

/-- A statement of `pm_start`, while the handler is not past its check: what is left to show is
that the entry fits where it goes on. -/
theorem start_step {v' : Service} (hcheck : ∀ p, stop = some p → p = .check)
    (hrun : v'.state = .running → pc' = none ∧ own v'.pid)
    (hforked : ∀ pid, pc' = some (.setPid pid) → own pid)
    (hstarted : pc' = some .setRunning → own v'.pid) :
    Good (Roles.starter caller stop pc') v' own := by
  refine of_check ?_ ?_ ?_ (fun hr ↦ (hrun hr).2)
    (fun hr hrun' ↦ ne_none_of_restarting hr (hrun hrun').1)
    (fun pid hp ↦ hforked pid (starts_starter.1 hp)) fun hp ↦ hstarted (starts_starter.1 hp)
  all_goals rcases caller with _ | j <;> rcases pc' with _ | pc' <;> simp [Roles.starter]
  all_goals exact hcheck

/-- The main thread calls it, while it is alone. -/
theorem enter_start {stop : Option StopPc} (h : Good ⟨none, stop, none⟩ v own) :
    Good ⟨none, stop, some .check⟩ v own :=
  { h with
    single := fun _ ↦ rfl
    restarting := by simp [Roles.Restarting]
    apart := by simp [Roles.Restarting]
    forked := by simp [Roles.Starts]
    started := by simp [Roles.Starts] }

/-! #### `pm_stop` -/

/-- The handler leaves `pm_stop`, or has not entered it. -/
theorem leave_stop (h : Good r v own) : Good { r with stop := none } v own :=
  { h with
    stop := nofun
    blocked := nofun
    stopping := nofun
    apart := nofun
    reaped := fun _ ↦ ⟨nofun, nofun⟩ }

/-- It calls it. -/
theorem enter_stop (h : Good r v own) : Good { r with stop := some .check } v own :=
  { h with
    stop := fun pc hpc hh ↦ by
      rw [← Option.some.inj hpc] at hh
      exact hh.elim
    blocked := nofun
    stopping := fun pc hpc hh ↦ by
      rw [← Option.some.inj hpc] at hh
      exact hh.elim
    apart := fun _ pc hpc ↦ (Option.some.inj hpc).symm
    reaped := fun _ ↦ ⟨nofun, nofun⟩ }

/-- It passes the check while the watchdog has not just reaped the child. -/
theorem pass_check (h : Good r v own) (hrun : v.state = .running) (hb : r.body ≠ some .setFailed) :
    Good { r with stop := some .setStopping } v own :=
  { h with
    stop := fun _ _ _ ↦ h.running hrun hb
    blocked := nofun
    stopping := fun pc hpc hh ↦ by
      rw [← Option.some.inj hpc] at hh
      exact hh.elim
    apart := fun hor ↦ hor.elim (fun hr ↦ absurd hrun (h.restarting hr)) fun heq ↦ absurd heq hb
    reaped := fun _ ↦ ⟨nofun, nofun⟩ }

/-- It goes on from a statement past the check, with a service that is not running. -/
theorem advance_stop {pc pc' : StopPc} {v' : Service} (h : Good r v own) (hpc : r.stop = some pc)
    (hcheck : pc ≠ .check) (hpid : v'.pid = v.pid) (hstate : v'.state ≠ .running)
    (hholds : pc'.Holds → own v.pid) (hblocked : ∀ pid, pc' = .blocked pid → pid = v.pid)
    (hreaped : r.body = some .poll → pc' ≠ .setStopped ∧ pc' ≠ .clearPid) :
    Good { r with stop := some pc' } v' own :=
  have hnot : ¬ (r.Restarting ∨ r.body = some .setFailed) := fun hor ↦ hcheck (h.apart hor pc hpc)
  { single := h.single
    running := fun hr ↦ absurd hr hstate
    poll := fun hb ↦ hpid ▸ h.poll hb
    stop := fun p hp hh ↦ by
      rw [← Option.some.inj hp] at hh
      exact hpid ▸ hholds hh
    blocked := fun pid hp ↦ hpid ▸ hblocked pid (Option.some.inj hp)
    stopping := fun _ _ _ ↦ hstate
    restarting := fun _ ↦ hstate
    apart := fun hor ↦ absurd hor hnot
    reaped := fun hb ↦ ⟨fun hp ↦ (hreaped hb).1 (Option.some.inj hp),
      fun hp ↦ (hreaped hb).2 (Option.some.inj hp)⟩
    forked := h.forked
    started := fun hs ↦ hpid ▸ h.started hs }

/-- So it does from one statement to another for which the child must be there. -/
theorem go_on_stop {pc : StopPc} (pc' : StopPc) (h : Good r v own) (hpc : r.stop = some pc)
    (hstopping : pc.Stopping) (hown : own v.pid)
    (hblocked : ∀ pid, pc' = .blocked pid → pid = v.pid)
    (hreaped : pc' ≠ .setStopped ∧ pc' ≠ .clearPid) : Good { r with stop := some pc' } v own := by
  have hcheck : pc ≠ .check := by
    rintro rfl
    exact hstopping
  exact h.advance_stop hpc hcheck rfl (h.stopping pc hpc hstopping) (fun _ ↦ hown) hblocked
    fun _ ↦ hreaped

/-- It reaps the child while the watchdog does not wait for it. -/
theorem reap_stop {pc : StopPc} (h : Good r v own) (hpc : r.stop = some pc) (hstop : pc.Stopping)
    (hb : r.body ≠ some .poll) (own' : ℤ → Prop) :
    Good { r with stop := some .setStopped } v own' :=
  have hcheck : pc ≠ .check := by
    rintro rfl
    exact hstop
  have hnot : ¬ (r.Restarting ∨ r.body = some .setFailed) := fun hor ↦ hcheck (h.apart hor pc hpc)
  have hstate := h.stopping pc hpc hstop
  { single := h.single
    running := fun hr ↦ absurd hr hstate
    poll := fun heq ↦ absurd heq hb
    stop := fun p hp hh ↦ by
      rw [← Option.some.inj hp] at hh
      exact hh.elim
    blocked := nofun
    stopping := fun _ _ _ ↦ hstate
    restarting := fun _ ↦ hstate
    apart := fun hor ↦ absurd hor hnot
    reaped := fun heq ↦ absurd heq hb
    forked := fun pid hp ↦ absurd (Or.inl (restarting_of_starts hp nofun)) hnot
    started := fun hp ↦ absurd (Or.inl (restarting_of_starts hp nofun)) hnot }

/-- It clears the pid and returns. -/
theorem clear_stop {v' : Service} (h : Good r v own) (hpc : r.stop = some .clearPid)
    (hstate : v'.state = v.state) : Good { r with stop := none } v' own := by
  have hnot : ¬ (r.Restarting ∨ r.body = some .setFailed) := fun hor ↦ nomatch h.apart hor _ hpc
  have hrun : v'.state ≠ .running := hstate ▸ h.stopping _ hpc trivial
  exact of_check nofun h.single (fun hb ↦ (h.reaped hb).2 hpc) (fun hr ↦ absurd hr hrun)
    (fun _ ↦ hrun) (fun pid hp ↦ absurd (Or.inl (restarting_of_starts hp nofun)) hnot)
    fun hp ↦ absurd (Or.inl (restarting_of_starts hp nofun)) hnot

end Good

/-! ### A statement about one service -/

variable {σ σ' : Shared} {r r' : Roles} {v : Service}

/-- A call names a child of the service that has not been reaped. -/
def Obs.Valid : Obs → Prop
  | .call _ i pid owner => owner = some i ∧ 0 < pid
  | _ => True

/-- What a statement about service `i` does: it changes this service's entry only, so that it fits
the new roles, leaves the other services their children, and makes valid calls only. -/
structure Local (σ σ' : Shared) (i : ℕ) (r' : Roles) (v : Service) : Prop where
  /-- The entry. -/
  entry : ∃ f : Service → Service, σ'.services = σ.services.modify i f ∧
    Good r' (f v) (Owns σ'.children i)
  /-- The other services' children. -/
  others : ∀ k ≠ i, ∀ pid, Owns σ.children k pid → Owns σ'.children k pid
  /-- The children's pids. -/
  children : ChildrenOk σ'.children
  /-- The calls. -/
  calls : ∀ o ∈ σ'.trace, o ∈ σ.trace ∨ o.Valid

namespace Local

theorem skip (hok : ChildrenOk σ.children) (h : Good r' v (Owns σ.children i)) :
    Local σ σ i r' v where
  entry := ⟨id, (List.modify_id i _).symm, h⟩
  others _ _ _ := id
  children := hok
  calls _ := Or.inl

/-- Taking or releasing the lock. -/
theorem lock {locked : Bool} (hok : ChildrenOk σ.children) (h : Good r' v (Owns σ.children i)) :
    Local σ { σ with locked } i r' v where
  entry := ⟨id, (List.modify_id i _).symm, h⟩
  others _ _ _ := id
  children := hok
  calls _ := Or.inl

/-- An assignment to a field of the entry. -/
theorem modify {f : Service → Service} (hok : ChildrenOk σ.children)
    (h : Good r' (f v) (Owns σ.children i)) :
    Local σ { σ with services := σ.services.modify i f } i r' v where
  entry := ⟨f, rfl, h⟩
  others _ _ _ := id
  children := hok
  calls _ := Or.inl

theorem setState {state : ServiceState} (hok : ChildrenOk σ.children)
    (h : Good r' { v with state } (Owns σ.children i)) : Local σ (σ.setState i state) i r' v :=
  modify hok h

theorem setPid (hok : ChildrenOk σ.children)
    (h : Good r' { v with pid } (Owns σ.children i)) : Local σ (σ.setPid i pid) i r' v :=
  modify hok h

/-- The call of a function with the pid of a child is valid. -/
theorem valid_call (hok : ChildrenOk σ.children) (hown : Owns σ.children i pid) (sys : Syscall) :
    ∀ o ∈ (σ.call sys i pid).trace, o ∈ σ.trace ∨ o.Valid := by
  intro o ho
  rcases List.mem_append.1 ho with ho | ho
  · exact Or.inl ho
  · rw [List.mem_singleton.1 ho]
    exact Or.inr ⟨ownerOf_of_owns hok hown, hown.pos hok⟩

theorem call (hok : ChildrenOk σ.children) (hown : Owns σ.children i pid)
    (h : Good r' v (Owns σ.children i)) (sys : Syscall) : Local σ (σ.call sys i pid) i r' v where
  entry := ⟨id, (List.modify_id i _).symm, h⟩
  others _ _ _ := id
  children := hok
  calls := valid_call hok hown sys

theorem fork (hok : ChildrenOk σ.children) (hpos : 0 < pid)
    (hfresh : pid ∉ σ.children.map Child.pid)
    (h : Good r' v (Owns (σ.fork i pid).children i)) : Local σ (σ.fork i pid) i r' v where
  entry := ⟨id, (List.modify_id i _).symm, h⟩
  others _ _ _ := fun ⟨c, hc, hpid⟩ ↦ ⟨c, List.mem_append_left _ hc, hpid⟩
  children := hok.fork hpos hfresh i
  calls o ho := by
    rcases List.mem_append.1 ho with ho | ho
    · exact Or.inl ho
    · rw [List.mem_singleton.1 ho]
      exact Or.inr trivial

/-- A `waitpid` for a child finds it alive or reaps it. -/
theorem wait {σ₀ : Shared} (hok : ChildrenOk σ.children) (hown : Owns σ.children i pid)
    (hwait : waitpid σ.children pid reaped = some (ret, rest))
    (hservices : σ₀.services = σ.services) (hcalls : ∀ o ∈ σ₀.trace, o ∈ σ.trace ∨ o.Valid)
    (h : ret = 0 → Good r' v (Owns σ.children i))
    (h' : 0 < ret → ∀ own, Good r' v own) : Local σ { σ₀ with children := rest } i r' v := by
  have hpos := hown.pos hok
  have hentry : ∀ own, Good r' v own → ∃ f : Service → Service,
      σ₀.services = σ.services.modify i f ∧ Good r' (f v) own := fun own hgood ↦
    ⟨id, hservices.trans (List.modify_id i _).symm, hgood⟩
  rcases waitpid_of_owns hok hown hwait with ⟨rfl, rfl⟩ | ⟨rfl, rfl⟩
  · exact ⟨hentry _ (h rfl), fun _ _ _ ↦ id, hok, hcalls⟩
  · exact ⟨hentry _ (h' hpos _), fun k hk p ↦ owns_filter hok hown hk, hok.filter _, hcalls⟩

/-- A `waitpid` that does not block. -/
theorem poll (hok : ChildrenOk σ.children) (hown : Owns σ.children i pid)
    (hpoll : σ.poll i pid reaped = some (ret, σ')) (h : ret = 0 → Good r' v (Owns σ.children i))
    (h' : 0 < ret → Reaps σ.children pid reaped → ∀ own, Good r' v own) : Local σ σ' i r' v := by
  obtain ⟨rest, hwait, rfl⟩ := poll_eq_some hpoll
  exact wait hok hown hwait rfl (valid_call hok hown .waitpid) h
    fun hpos ↦ h' hpos ⟨_, _, hwait, hpos⟩

end Local

/-! ### The statements -/

/-- A statement of `pm_start` for a service that is not running, or is not looked at yet. -/
theorem local_pmStart {caller : Option ℕ} {stop : Option StopPc} {pc : StartPc}
    {pc' : Option StartPc} {forked : Option ℤ} (hok : ChildrenOk σ.children)
    (hgood : Good (.starter caller stop (some pc)) v (Owns σ.children i))
    (hcheck : ∀ p, stop = some p → p = .check)
    (h : pmStart σ i v forked pc = some (pc', σ')) :
    Local σ σ' i (.starter caller stop pc') v := by
  have hstate : pc ≠ .check → v.state ≠ .running := fun hne ↦
    hgood.restarting (Good.restarting_starter rfl hne)
  cases pc with
  | check =>
    obtain ⟨rfl, rfl⟩ := Prod.mk.inj (Option.some.inj h)
    have hbody : (Roles.starter caller stop (some .check)).body ≠ some .setFailed := by
      cases caller <;> simp [Roles.starter]
    refine .skip hok (Good.start_step hcheck (fun hr ↦ ?_) (fun pid hp ↦ ?_) fun hp ↦ ?_)
    · exact ⟨if_pos hr, hgood.running hr hbody⟩
    · split at hp <;> cases hp
    · split at hp <;> cases hp
  | setStarting =>
    obtain ⟨rfl, rfl⟩ := Prod.mk.inj (Option.some.inj h)
    exact .setState hok (Good.start_step hcheck nofun nofun nofun)
  | fork =>
    cases forked with
    | none =>
      obtain ⟨rfl, rfl⟩ := Prod.mk.inj (Option.some.inj h)
      exact .skip hok (Good.start_step hcheck (fun hr ↦ absurd hr (hstate nofun)) nofun nofun)
    | some pid =>
      obtain ⟨⟨hpos, hfresh⟩, hout⟩ := Option.ite_none_right_eq_some.1 h
      obtain ⟨rfl, rfl⟩ := Prod.mk.inj (Option.some.inj hout)
      refine .fork hok hpos hfresh
        (Good.start_step hcheck (fun hr ↦ absurd hr (hstate nofun)) (fun pid' hp ↦ ?_) nofun)
      obtain rfl := StartPc.setPid.inj (Option.some.inj hp)
      exact ⟨_, List.mem_append_right _ (List.mem_singleton_self _), rfl, rfl⟩
  | setFailed =>
    obtain ⟨rfl, rfl⟩ := Prod.mk.inj (Option.some.inj h)
    exact .setState hok (Good.start_step hcheck nofun nofun nofun)
  | setPid pid =>
    obtain ⟨rfl, rfl⟩ := Prod.mk.inj (Option.some.inj h)
    have hown := hgood.forked pid (Good.starts_starter.2 rfl)
    exact .setPid hok
      (Good.start_step hcheck (fun hr ↦ absurd hr (hstate nofun)) nofun fun _ ↦ hown)
  | setRunning =>
    obtain ⟨rfl, rfl⟩ := Prod.mk.inj (Option.some.inj h)
    have hown := hgood.started (Good.starts_starter.2 rfl)
    exact .setState hok (Good.start_step hcheck (fun _ ↦ ⟨rfl, hown⟩) nofun nofun)

/-- **A statement of `pm_start` in the watchdog's restart.** -/
theorem local_bodyStart {p : StartPc} {p' : Option StartPc} {forked : Option ℤ}
    (hok : ChildrenOk σ.children) (hgood : Good r v (Owns σ.children i))
    (hpc : r.body = some (.start i p)) (h : pmStart σ i v forked p = some (p', σ')) :
    Local σ σ' i { r with body := some (p'.elim .relock (.start i)) } v := by
  have hs := hgood.start_eq_none hpc
  have hr : r = .starter (some i) r.stop (some p) := by
    rcases r with ⟨body, stop, start⟩
    obtain rfl : body = _ := hpc
    obtain rfl : start = none := hs
    rfl
  have hcheck := hgood.apart (Or.inl (Or.inl ⟨_, hpc, trivial⟩))
  have hlocal := local_pmStart hok (hr ▸ hgood) hcheck h
  have hset : ∀ b, ({ r with body := b } : Roles) = ⟨b, r.stop, none⟩ := fun b ↦
    congrArg (Roles.mk b r.stop) hs
  rw [hset]
  cases p' <;> exact hlocal

/-- **A statement of the watchdog's loop body.** -/
theorem local_watchdogBody {pc : BodyPc} {w : WatchdogPc} {forked : Option ℤ}
    (hok : ChildrenOk σ.children) (hgood : Good r v (Owns σ.children i)) (hpc : r.body = some pc)
    (htarget : ∀ j p, pc = .start j p → j = i) (hfind : findService σ.services v.name = some i)
    (hv : σ.services[i]? = some v)
    (hguard : pc = .poll → Reaps σ.children v.pid reaped → ∀ p, r.stop = some p → p = .check)
    (h : watchdogBody σ i v forked reaped pc = some (w, σ')) :
    Local σ σ' i { r with body := w.bodyAt i } v := by
  cases pc with
  | poll =>
    obtain ⟨⟨ret, σ₀⟩, hpoll, hout⟩ := Option.map_eq_some_iff.1 h
    obtain ⟨rfl, rfl⟩ := Prod.mk.inj hout
    refine .poll hok (hgood.poll hpc) hpoll ?_ ?_
    · rintro rfl
      exact hgood.leave_body hpc nofun
    · intro hpos hreaps own
      rw [if_pos hpos, bodyAt_body_self]
      exact hgood.reap_body hpc (hguard rfl hreaps) own
  | setFailed =>
    obtain ⟨rfl, rfl⟩ := Prod.mk.inj (Option.some.inj h)
    rw [bodyAt_body_self]
    exact .setState hok (hgood.restart_body hpc (Or.inl rfl) nofun nofun nofun)
  | clearPid =>
    obtain ⟨rfl, rfl⟩ := Prod.mk.inj (Option.some.inj h)
    rw [bodyAt_body_self]
    exact .setPid hok (hgood.go_on_body hpc trivial nofun nofun rfl)
  | test =>
    obtain ⟨rfl, rfl⟩ := Prod.mk.inj (Option.some.inj h)
    split
    · rw [bodyAt_body_self]
      exact .skip hok (hgood.go_on_body hpc trivial nofun nofun rfl)
    · exact .skip hok (hgood.leave_body hpc nofun)
  | count =>
    obtain ⟨rfl, rfl⟩ := Prod.mk.inj (Option.some.inj h)
    rw [bodyAt_body_self]
    exact .modify hok (hgood.go_on_body hpc trivial nofun nofun rfl)
  | unlock =>
    obtain ⟨rfl, rfl⟩ := Prod.mk.inj (Option.some.inj h)
    rw [bodyAt_body_self]
    exact .lock hok (hgood.go_on_body hpc trivial nofun nofun rfl)
  | sleep =>
    obtain ⟨rfl, rfl⟩ := Prod.mk.inj (Option.some.inj h)
    rw [hfind]
    dsimp only
    rw [bodyAt_body_self]
    refine .skip hok (hgood.go_on_body hpc trivial nofun (fun j p hp ↦ ?_) rfl)
    exact (BodyPc.start.inj hp).2.symm
  | start j p =>
    obtain rfl := htarget j p rfl
    obtain ⟨⟨p', σ₀⟩, hstart, hout⟩ := Option.map_eq_some_iff.1 h
    obtain ⟨rfl, rfl⟩ := Prod.mk.inj hout
    rw [hv, Option.bind_some] at hstart
    have hlocal := local_bodyStart hok hgood hpc hstart
    cases p' <;> (dsimp only; rw [bodyAt_body_self]; exact hlocal)
  | relock =>
    obtain ⟨-, hout⟩ := Option.ite_none_left_eq_some.1 h
    obtain ⟨rfl, rfl⟩ := Prod.mk.inj (Option.some.inj hout)
    exact .lock hok (hgood.leave_body hpc nofun)

/-- **A statement of `pm_stop`.** -/
theorem local_pmStop {pc : StopPc} {pc' : Option StopPc} (hok : ChildrenOk σ.children)
    (hgood : Good r v (Owns σ.children i)) (hpc : r.stop = some pc)
    (hcheck : pc = .check → v.state = .running → r.body ≠ some .setFailed)
    (hreap : ∀ pid, pc = .poll ∨ pc = .blocked pid → Reaps σ.children v.pid reaped →
      r.body ≠ some .poll)
    (h : pmStop σ i v reaped pc = some (pc', σ')) : Local σ σ' i { r with stop := pc' } v := by
  have hown : pc.Holds → Owns σ.children i v.pid := hgood.stop pc hpc
  cases pc with
  | check =>
    obtain ⟨rfl, rfl⟩ := Prod.mk.inj (Option.some.inj h)
    split
    next hrun => exact .skip hok (hgood.pass_check hrun (hcheck rfl hrun))
    next => exact .skip hok hgood.leave_stop
  | setStopping =>
    obtain ⟨rfl, rfl⟩ := Prod.mk.inj (Option.some.inj h)
    exact .setState hok
      (hgood.advance_stop hpc nofun rfl nofun (fun _ ↦ hown trivial) nofun fun _ ↦ ⟨nofun, nofun⟩)
  | term =>
    obtain ⟨rfl, rfl⟩ := Prod.mk.inj (Option.some.inj h)
    exact .call hok (hown trivial)
      (hgood.go_on_stop .poll hpc trivial (hown trivial) nofun ⟨nofun, nofun⟩) .kill
  | poll =>
    obtain ⟨⟨ret, σ₀⟩, hpoll, hout⟩ := Option.map_eq_some_iff.1 h
    obtain ⟨rfl, rfl⟩ := Prod.mk.inj hout
    refine .poll hok (hown trivial) hpoll ?_ ?_
    · rintro rfl
      rw [if_pos rfl]
      exact hgood.go_on_stop .sleep hpc trivial (hown trivial) nofun ⟨nofun, nofun⟩
    · intro hpos hreaps own
      rw [if_neg (Int.ne_of_gt hpos)]
      exact hgood.reap_stop hpc trivial (hreap 0 (Or.inl rfl) hreaps) own
  | sleep =>
    obtain ⟨rfl, rfl⟩ := Prod.mk.inj (Option.some.inj h)
    exact .skip hok (hgood.go_on_stop .kill hpc trivial (hown trivial) nofun ⟨nofun, nofun⟩)
  | kill =>
    obtain ⟨rfl, rfl⟩ := Prod.mk.inj (Option.some.inj h)
    exact .call hok (hown trivial)
      (hgood.go_on_stop .wait hpc trivial (hown trivial) nofun ⟨nofun, nofun⟩) .kill
  | wait =>
    obtain ⟨rfl, rfl⟩ := Prod.mk.inj (Option.some.inj h)
    have hpid : ∀ pid, StopPc.blocked v.pid = .blocked pid → pid = v.pid := by
      rintro pid ⟨⟩
      rfl
    exact .call hok (hown trivial)
      (hgood.go_on_stop (.blocked v.pid) hpc trivial (hown trivial) hpid ⟨nofun, nofun⟩) .waitpid
  | blocked pid =>
    obtain rfl := hgood.blocked pid hpc
    obtain ⟨⟨ret, rest⟩, hwait, hout⟩ := Option.bind_eq_some_iff.1 h
    obtain ⟨hret, hout⟩ := Option.ite_none_left_eq_some.1 hout
    obtain ⟨rfl, rfl⟩ := Prod.mk.inj (Option.some.inj hout)
    -- a `waitpid` that blocks returns with the child reaped
    refine .wait hok (hown trivial) hwait rfl (fun _ ↦ Or.inl) (fun h0 ↦ absurd h0 hret)
      fun hpos own ↦ ?_
    exact hgood.reap_stop hpc trivial (hreap _ (Or.inr rfl) ⟨_, _, hwait, hpos⟩) own
  | setStopped =>
    obtain ⟨rfl, rfl⟩ := Prod.mk.inj (Option.some.inj h)
    have hb : r.body ≠ some .poll := fun hb ↦ (hgood.reaped hb).1 hpc
    exact .setState hok
      (hgood.advance_stop hpc nofun rfl nofun nofun nofun fun hb' ↦ absurd hb' hb)
  | clearPid =>
    obtain ⟨rfl, rfl⟩ := Prod.mk.inj (Option.some.inj h)
    exact .setPid hok (hgood.clear_stop hpc rfl)

end JuliusOS.ProcessManager
