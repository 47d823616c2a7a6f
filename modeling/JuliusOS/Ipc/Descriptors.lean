import JuliusOS.Ipc.Registry

/-!
# Which descriptors are closed

`remove_client` closes a descriptor where it finds the client in the table, and nothing else in the
broker closes one. A client that connected while all 64 slots were taken is in the table at no time,
so its handler returns with the descriptor still open.

* `lifeCycle_of_run`: what a run has closed, by the phase of the connection's handler;
* `closed_once_iff`: a connection whose handler returned was closed exactly once if and only if
  there was a slot for it.
-/

namespace JuliusOS.Ipc

variable {s s' s₀ : System} {k j : ℕ} {h : Handler} {e : Event} {hist es : List Event}

/-- The calls of `close` in a step, each by the owner that its descriptor has then. -/
def closes (s : System) : Event → List Owner
  | .leave k => match s.handlerIn k .serving with
    | some h => if (removeClient s.broker h.fd).2 then [s.owner h.fd] else []
    | none => []
  | _ => []

/-- How many times a run has closed the descriptor of connection `k`. -/
def timesClosed (k : ℕ) (s : System) (es : List Event) : ℕ :=
  (system.outputs closes s es).count (.conn k)

/-- The table has a slot when connection `k` is registered. -/
def HasSlot (k : ℕ) (s : System) (e : Event) : Prop :=
  ∀ now, e = .register k now → s.broker.clients.count < ipcMaxClients

/-- Connection `k` has an entry in the table. -/
def System.Listed (s : System) (k : ℕ) : Prop := ∃ c ∈ s.broker.clients.live, c.conn = k

/-- Where the handler of connection `k` is. -/
def System.phase (s : System) (k : ℕ) : Option Phase := s.handlers[k]?.map Handler.phase

theorem phase_eq_some {phase : Phase} :
    s.phase k = some phase ↔ ∃ h, s.handlerIn k phase = some h := by
  simp only [System.phase, Option.map_eq_some_iff, handlerIn_eq_some]

theorem map_phase_setPhase (s : System) (k j : ℕ) (phase : Phase) :
    (s.setPhase j phase)[k]?.map Handler.phase =
      if j = k then (s.phase k).map fun _ ↦ phase else s.phase k := by
  rw [getElem?_setPhase, System.phase]
  split
  · rw [Option.map_map, Option.map_map]
    rfl
  · rfl

/-! ### What the events do -/

/-- A serving connection that is listed is listed under its handler's descriptor. -/
theorem System.Inv.listed_iff (hinv : s.Inv) (hk : s.handlerIn k .serving = some h) :
    s.Listed k ↔ ∃ c ∈ s.broker.clients.live, c.fd = h.fd := by
  obtain ⟨hk, hphase⟩ := handlerIn_eq_some.1 hk
  constructor
  · rintro ⟨c, hc, rfl⟩
    rw [hinv.handler_of_mem c hc, Option.some.injEq] at hk
    exact ⟨c, hc, congrArg Handler.fd hk⟩
  · rintro ⟨c, hc, hfd⟩
    refine ⟨c, hc, hinv.conn_eq hk ?_ hc hfd⟩
    rw [hphase]
    rintro ⟨⟩

/-- **A registration** lists the connection if there is a slot. -/
theorem System.Inv.listed_register (hinv : s.Inv) (hk : s.handlerIn k .accepted = some h)
    (now : ℤ) :
    (∃ c ∈ (Ipc.register s.broker k h.fd now).clients.live, c.conn = k) ↔
      s.broker.clients.count < ipcMaxClients := by
  have hfresh : ∀ c ∈ s.broker.clients.live, c.conn ≠ k := by
    rintro c hc rfl
    obtain ⟨hk, hphase⟩ := handlerIn_eq_some.1 hk
    rw [hinv.handler_of_mem c hc, Option.some.injEq] at hk
    rw [← hk] at hphase
    cases hphase
  rw [Ipc.register]
  split
  next hroom =>
    refine iff_of_true ?_ hroom
    exact ⟨_, PackedTable.mem_live_append.2 (Or.inr rfl), rfl⟩
  next hfull =>
    refine iff_of_false ?_ hfull
    rintro ⟨c, hc, hconn⟩
    exact hfresh c hc hconn

/-- **A connection that leaves** is closed if it is listed. -/
theorem System.Inv.closes_leave (hinv : s.Inv) (hk : s.handlerIn k .serving = some h) :
    closes s (.leave k) = if (removeClient s.broker h.fd).2 then [.conn k] else [] := by
  obtain ⟨hk', hphase⟩ := handlerIn_eq_some.1 hk
  rw [closes, hk]
  dsimp only
  rw [hinv.owner_of_handler k h hk' (by rw [hphase]; rintro ⟨⟩)]

/-- The event is not one of connection `k` that matters to its descriptor. -/
def Event.ElsewhereThan (k : ℕ) : Event → Prop
  | .register j _ => j ≠ k
  | .leave j => j ≠ k
  | _ => True

/-- What an event elsewhere leaves as it was. -/
structure Undisturbed (k : ℕ) (s : System) (e : Event) (s' : System) : Prop where
  /-- The descriptor is not closed. -/
  closes : (closes s e).count (.conn k) = 0
  /-- A handler in its loop stays there, and none comes to it. -/
  serving : s'.phase k = some .serving ↔ s.phase k = some .serving
  /-- A handler that returned stays so, and none returns. -/
  done : s'.phase k = some .done ↔ s.phase k = some .done
  /-- The connection is listed as before. -/
  listed : s'.Listed k ↔ s.Listed k

theorem phase_append (s : System) (fd k : ℕ) {phase : Phase} (hphase : phase ≠ .accepted) :
    (s.handlers ++ [⟨fd, .accepted⟩])[k]?.map Handler.phase = some phase ↔
      s.phase k = some phase := by
  rw [System.phase]
  rcases Nat.lt_or_ge k s.handlers.length with hlt | hge
  · rw [List.getElem?_append_left hlt]
  · rw [List.getElem?_append_right hge, List.getElem?_singleton, List.getElem?_eq_none hge]
    split
    · simp [hphase.symm]
    · rfl

theorem listed_of_map_eq {b b' : Broker}
    (h : b'.clients.live.map (fun c ↦ (c.conn, c.fd)) = b.clients.live.map fun c ↦ (c.conn, c.fd)) :
    (∃ c ∈ b'.clients.live, c.conn = k) ↔ ∃ c ∈ b.clients.live, c.conn = k := by
  have hconn := congrArg (List.map Prod.fst) h
  rw [List.map_map, List.map_map] at hconn
  have hmem : ∀ b : Broker, (∃ c ∈ b.clients.live, c.conn = k) ↔
      k ∈ b.clients.live.map (Prod.fst ∘ fun c ↦ (c.conn, c.fd)) := fun b ↦ List.mem_map.symm
  rw [hmem, hmem, hconn]

/-- Another connection's registration lists nobody else. -/
theorem listed_register_of_ne (b : Broker) (fd : ℕ) (now : ℤ) (hjk : j ≠ k) :
    (∃ c ∈ (Ipc.register b j fd now).clients.live, c.conn = k) ↔
      ∃ c ∈ b.clients.live, c.conn = k := by
  constructor
  · rintro ⟨c, hc, hconn⟩
    rcases mem_live_register hc with hc | ⟨hj, -, -⟩
    · exact ⟨c, hc, hconn⟩
    · exact absurd (hj.symm.trans hconn) hjk
  · rintro ⟨c, hc, hconn⟩
    refine ⟨c, ?_, hconn⟩
    rw [Ipc.register]
    split
    · exact PackedTable.mem_live_append.2 (Or.inl hc)
    · exact hc

/-- Another connection that leaves takes nobody else out: the entry that goes is its own. -/
theorem System.Inv.listed_removeClient_of_ne (hinv : s.Inv) (hj : s.handlerIn j .serving = some h)
    (hjk : j ≠ k) :
    (∃ c ∈ (removeClient s.broker h.fd).1.clients.live, c.conn = k) ↔
      ∃ c ∈ s.broker.clients.live, c.conn = k := by
  obtain ⟨hmem, -, -⟩ := removeClient_spec hinv.fdNodup h.fd
  obtain ⟨hj, hserving⟩ := handlerIn_eq_some.1 hj
  constructor
  · rintro ⟨c, hc, hconn⟩
    exact ⟨c, ((hmem c).1 hc).1, hconn⟩
  · rintro ⟨c, hc, hconn⟩
    refine ⟨c, (hmem c).2 ⟨hc, fun hfd ↦ hjk ?_⟩, hconn⟩
    rw [← hconn]
    refine (hinv.conn_eq hj ?_ hc hfd).symm
    rw [hserving]
    rintro ⟨⟩

/-- **Events elsewhere** leave a connection's descriptor alone. -/
theorem System.Inv.undisturbed (hinv : s.Inv) (he : e.ElsewhereThan k)
    (hstep : system.step s e = some s') : Undisturbed k s e s' := by
  cases e with
  | accept fd =>
    obtain ⟨-, hs'⟩ := Option.ite_none_right_eq_some.1 hstep
    rw [← Option.some.inj hs']
    exact ⟨rfl, phase_append s fd k (by rintro ⟨⟩), phase_append s fd k (by rintro ⟨⟩), Iff.rfl⟩
  | register j now =>
    obtain ⟨h, hh, rfl⟩ := Option.map_eq_some_iff.1 hstep
    have hphase := (map_phase_setPhase s k j .serving).trans (if_neg he)
    exact ⟨rfl, by rw [← hphase]; rfl, by rw [← hphase]; rfl,
      listed_register_of_ne s.broker h.fd now he⟩
  | frame j msg =>
    obtain ⟨h, -, rfl⟩ := Option.map_eq_some_iff.1 hstep
    exact ⟨rfl, Iff.rfl, Iff.rfl, listed_of_map_eq (map_conn_fd_handleFrame s.broker h.fd msg)⟩
  | partialRead j =>
    obtain ⟨h, -, rfl⟩ := Option.map_eq_some_iff.1 hstep
    exact ⟨rfl, Iff.rfl, Iff.rfl, Iff.rfl⟩
  | leave j =>
    obtain ⟨h, hh, rfl⟩ := Option.map_eq_some_iff.1 hstep
    have hphase := (map_phase_setPhase s k j .done).trans (if_neg he)
    refine ⟨?_, by rw [← hphase]; rfl, by rw [← hphase]; rfl,
      hinv.listed_removeClient_of_ne hh he⟩
    rw [hinv.closes_leave hh]
    split
    · have hne : j ≠ k := he
      simp [hne]
    · rfl

/-! ### Runs -/

/-- What a run has done about the descriptor of connection `k`. -/
structure LifeCycle (k : ℕ) (s₀ : System) (hist : List Event) (s : System) : Prop where
  /-- The invariant of the client table. -/
  inv : s.Inv
  /-- The descriptor is open until the handler returns. -/
  notDone : s.phase k ≠ some .done → timesClosed k s₀ hist = 0
  /-- In the loop, the client is in the table if there was a slot. -/
  serving : s.phase k ≠ some .done →
    (system.Guarded (HasSlot k) s₀ hist ↔ (s.phase k = some .serving → s.Listed k))
  /-- Afterwards it has been closed if there was a slot. -/
  done : s.phase k = some .done →
    (timesClosed k s₀ hist = 1 ↔ system.Guarded (HasSlot k) s₀ hist)

theorem timesClosed_append_singleton (k : ℕ) (hrun : system.run s₀ hist = some s)
    (hstep : system.step s e = some s') :
    timesClosed k s₀ (hist ++ [e]) = timesClosed k s₀ hist + (closes s e).count (.conn k) := by
  rw [timesClosed, system.outputs_append_singleton hrun hstep, List.count_append]
  rfl

theorem LifeCycle.elsewhere (hlife : LifeCycle k s₀ hist s) (hrun : system.run s₀ hist = some s)
    (hstep : system.step s e = some s') (he : e.ElsewhereThan k) :
    LifeCycle k s₀ (hist ++ [e]) s' := by
  have hun := hlife.inv.undisturbed he hstep
  have hcount := timesClosed_append_singleton k hrun hstep
  rw [hun.closes, Nat.add_zero] at hcount
  have hslot : HasSlot k s e := by
    rintro now rfl
    exact absurd rfl he
  have hguard : system.Guarded (HasSlot k) s₀ (hist ++ [e]) ↔
      system.Guarded (HasSlot k) s₀ hist :=
    (system.guarded_append_singleton hrun).trans (and_iff_left hslot)
  refine ⟨hlife.inv.step hstep, ?_, ?_, ?_⟩
  · rw [Ne, hun.done, hcount]
    exact hlife.notDone
  · rw [Ne, hun.done, hguard, hun.serving, hun.listed]
    exact hlife.serving
  · rw [hun.done, hcount, hguard]
    exact hlife.done

/-- At the registration it turns out whether the client is ever listed. -/
theorem LifeCycle.register (hlife : LifeCycle k s₀ hist s) (hrun : system.run s₀ hist = some s)
    {now : ℤ} (hstep : system.step s (.register k now) = some s') :
    LifeCycle k s₀ (hist ++ [.register k now]) s' := by
  have hinv' := hlife.inv.step hstep
  have hcount := timesClosed_append_singleton k hrun hstep
  obtain ⟨h, hh, rfl⟩ := Option.map_eq_some_iff.1 hstep
  have hacc : s.phase k = some .accepted := phase_eq_some.2 ⟨h, hh⟩
  have hphase := (map_phase_setPhase s k k .serving).trans (if_pos rfl)
  rw [hacc, Option.map_some] at hphase
  have hnow : s.phase k ≠ some .done := by rw [hacc]; rintro ⟨⟩
  have hbefore : system.Guarded (HasSlot k) s₀ hist :=
    (hlife.serving hnow).2 fun hs ↦ by rw [hacc] at hs; cases hs
  refine ⟨hinv', fun _ ↦ hcount.trans (hlife.notDone hnow), fun _ ↦ ?_, fun hd ↦ ?_⟩
  · rw [system.guarded_append_singleton hrun, and_iff_right hbefore]
    refine Iff.trans ⟨fun hslot ↦ hslot now rfl, fun hroom _ _ ↦ hroom⟩
      ((hlife.inv.listed_register hh now).symm.trans ?_)
    exact ⟨fun hl _ ↦ hl, fun hl ↦ hl hphase⟩
  · cases hphase.symm.trans hd

/-- When the handler returns, the one `close` there can be has been. -/
theorem LifeCycle.leave (hlife : LifeCycle k s₀ hist s) (hrun : system.run s₀ hist = some s)
    (hstep : system.step s (.leave k) = some s') : LifeCycle k s₀ (hist ++ [.leave k]) s' := by
  have hinv' := hlife.inv.step hstep
  have hcount := timesClosed_append_singleton k hrun hstep
  obtain ⟨h, hh, rfl⟩ := Option.map_eq_some_iff.1 hstep
  have hserving : s.phase k = some .serving := phase_eq_some.2 ⟨h, hh⟩
  have hphase := (map_phase_setPhase s k k .done).trans (if_pos rfl)
  rw [hserving, Option.map_some] at hphase
  have hnow : s.phase k ≠ some .done := by rw [hserving]; rintro ⟨⟩
  have hslot : HasSlot k s (.leave k) := by rintro now ⟨⟩
  refine ⟨hinv', fun hd ↦ absurd hphase hd, fun hd ↦ absurd hphase hd, fun _ ↦ ?_⟩
  have hlisted : (removeClient s.broker h.fd).2 = true ↔ s.Listed k :=
    (removeClient_spec hlife.inv.fdNodup h.fd).2.1.trans (hlife.inv.listed_iff hh).symm
  rw [system.guarded_append_singleton hrun, and_iff_left hslot, hlife.serving hnow, hcount,
    hlife.notDone hnow, hlife.inv.closes_leave hh, ← hlisted]
  -- `remove_client` closes the descriptor where it finds the client
  split
  next hclosed => simp [hclosed]
  next hopen => simp [hopen, hserving]

/-- **A step keeps the account.** -/
theorem LifeCycle.step (hlife : LifeCycle k s₀ hist s) (hrun : system.run s₀ hist = some s)
    (hstep : system.step s e = some s') : LifeCycle k s₀ (hist ++ [e]) s' := by
  by_cases he : e.ElsewhereThan k
  · exact hlife.elsewhere hrun hstep he
  -- what is not elsewhere is the connection's own registration or its end
  cases e with
  | register j now =>
    obtain rfl : j = k := not_not.1 he
    exact hlife.register hrun hstep
  | leave j =>
    obtain rfl : j = k := not_not.1 he
    exact hlife.leave hrun hstep
  | accept | frame | partialRead => exact absurd trivial he

theorem lifeCycle_of_run (hinit : system.Init s₀) (hrun : system.run s₀ es = some s) (k : ℕ) :
    LifeCycle k s₀ es s := by
  refine Machine.invariant_of_past (I := fun hist s ↦ LifeCycle k s₀ hist s)
    (fun hist s e s' hpast hlife hstep ↦ hlife.step hpast hstep) ?_ hrun
  have hnone : s₀.phase k = none := by
    rw [System.phase, hinit.2.1]
    rfl
  refine ⟨System.inv_of_init hinit, fun _ ↦ rfl, fun _ ↦ iff_of_true trivial fun hs ↦ ?_,
    fun hd ↦ ?_⟩
  · rw [hnone] at hs
    cases hs
  · rw [hnone] at hd
    cases hd

/-- **Which connections are closed.** In every run, the descriptor of a connection whose handler
has returned was closed exactly once if and only if the table had a slot for it when it was
registered. -/
theorem closed_once_iff (hinit : system.Init s₀) (hrun : system.run s₀ es = some s)
    (hdone : s.phase k = some .done) :
    timesClosed k s₀ es = 1 ↔ system.Guarded (HasSlot k) s₀ es :=
  (lifeCycle_of_run hinit hrun k).done hdone

/-- A connection that found a slot and left. -/
theorem closed_once_one_client :
    ∃ s, system.run .start [.accept 5, .register 0 0, .leave 0] = some s ∧
      s.phase 0 = some .done ∧ timesClosed 0 .start [.accept 5, .register 0 0, .leave 0] = 1 := by
  refine ⟨_, rfl, rfl, (closed_once_iff System.init_start rfl rfl).2 ?_⟩
  refine ⟨by rintro now ⟨⟩, fun s hs ↦ ⟨?_, fun s' _ ↦ ⟨by rintro now ⟨⟩, fun _ _ ↦ trivial⟩⟩⟩
  obtain rfl := Option.some.inj hs
  rintro now -
  decide

/-- 65 connections, the last of which leaves. -/
def crowd : List Event :=
  (List.range 65).map Event.accept ++ (List.range 65).map (Event.register · 0) ++ [.leave 64]

/-- The last one's handler returns and its descriptor was not closed. -/
theorem not_closed_in_crowd :
    system.Init .start ∧ ∃ s, system.run .start crowd = some s ∧ s.phase 64 = some .done ∧
      timesClosed 64 .start crowd = 0 := by
  have hrun : (system.run .start crowd).map (fun s ↦ s.phase 64) = some (some .done) := by
    decide +kernel
  obtain ⟨s, hs, hphase⟩ := Option.map_eq_some_iff.1 hrun
  exact ⟨System.init_start, s, hs, hphase, by decide +kernel⟩

end JuliusOS.Ipc
