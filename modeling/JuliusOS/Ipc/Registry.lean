import JuliusOS.Ipc.Broker

/-!
# The client table and the descriptors

A descriptor number can be handed to a new connection while the old connection's handler is
still about, so an entry of the client table is only worth something as long as its number
still belongs to the connection that wrote it. `System.Inv` says that it always does: every
handler that has not finished owns its descriptor, and every entry is that of a handler in its
loop.

What keeps this true is that `remove_client` closes the descriptor and deletes the entry in one
critical section, and that a connection which found the table full is never closed at all, so
its number is not handed out again.

* `inv_of_reachable`: the invariant holds in every reachable state;
* `registry_safe`: hence the entries' descriptors are distinct, open and their connections' own,
  and no write goes anywhere else.
-/

namespace JuliusOS.Ipc

/-- Every unfinished handler owns its descriptor, every entry is that of a handler in its loop,
and no two entries have the same descriptor. -/
structure System.Inv (s : System) : Prop where
  /-- Every unfinished handler owns its descriptor. -/
  owner_of_handler : ∀ k h, s.handlers[k]? = some h → h.phase ≠ .done → s.owner h.fd = .conn k
  /-- Every entry is that of a handler in its loop. -/
  handler_of_mem : ∀ c ∈ s.broker.clients.live, s.handlers[c.conn]? = some ⟨c.fd, .serving⟩
  /-- No two entries have the same descriptor. -/
  fdNodup : s.broker.clients.KeysNodup IPCClient.fd

variable {s s' : System} {b : Broker} {k fd : ℕ} {h : Handler} {e : Event}

/-- The descriptor of an entry is open and its connection's own. -/
theorem System.Inv.owner_of_mem (hinv : s.Inv) {c : IPCClient}
    (hc : c ∈ s.broker.clients.live) : s.owner c.fd = .conn c.conn :=
  hinv.owner_of_handler _ _ (hinv.handler_of_mem c hc) nofun

/-- An entry with a handler's descriptor is that handler's. -/
theorem System.Inv.conn_eq (hinv : s.Inv) (hk : s.handlers[k]? = some h)
    (hdone : h.phase ≠ .done) {c : IPCClient} (hc : c ∈ s.broker.clients.live)
    (hfd : c.fd = h.fd) : c.conn = k := by
  have hown := hinv.owner_of_mem hc
  rw [hfd, hinv.owner_of_handler k h hk hdone, Owner.conn.injEq] at hown
  exact hown.symm

/-- Two entries of the same connection are the same. -/
theorem System.Inv.connNodup (hinv : s.Inv) : s.broker.clients.KeysNodup IPCClient.conn := by
  refine List.Nodup.map_on (fun c hc c' hc' hconn ↦ ?_) (List.Nodup.of_map _ hinv.fdNodup)
  have hfd : c.fd = c'.fd := by
    have h := hinv.handler_of_mem c hc
    rw [hconn, hinv.handler_of_mem c' hc'] at h
    exact (congrArg Handler.fd (Option.some.inj h)).symm
  exact List.inj_on_of_nodup_map hinv.fdNodup hc hc' hfd

/-! ### What the operations do to the client table -/

@[simp]
theorem conn_addSubscription (topic : Bytes) (c : IPCClient) :
    (addSubscription topic c).conn = c.conn := by
  rw [addSubscription]
  split <;> rfl

@[simp]
theorem fd_addSubscription (topic : Bytes) (c : IPCClient) :
    (addSubscription topic c).fd = c.fd := by
  rw [addSubscription]
  split <;> rfl

@[simp]
theorem conn_dropSubscription (topic : Bytes) (c : IPCClient) :
    (dropSubscription topic c).conn = c.conn := by
  rw [dropSubscription]
  split <;> rfl

@[simp]
theorem fd_dropSubscription (topic : Bytes) (c : IPCClient) :
    (dropSubscription topic c).fd = c.fd := by
  rw [dropSubscription]
  split <;> rfl

/-- An operation on messages changes at most one entry, and only its subscriptions. -/
theorem handleFrame_clients (b : Broker) (fd : ℕ) (msg : IPCMessage) :
    (handleFrame b fd msg).1.clients = b.clients ∨
      ∃ i f, (f = addSubscription msg.data ∨ f = dropSubscription msg.data) ∧
        (handleFrame b fd msg).1.clients = b.clients.modify i f := by
  rw [handleFrame]
  split
  · rw [ipcSubscribe]
    split
    · exact Or.inl rfl
    · split
      · exact Or.inl rfl
      · split
        · exact Or.inr ⟨_, _, Or.inl rfl, rfl⟩
        · exact Or.inl rfl
  · split
    · rw [ipcUnsubscribe]
      split
      · exact Or.inl rfl
      · exact Or.inr ⟨_, _, Or.inr rfl, rfl⟩
    · exact Or.inl rfl

/-- Hence it keeps the list of connections and descriptors. -/
theorem map_conn_fd_handleFrame (b : Broker) (fd : ℕ) (msg : IPCMessage) :
    (handleFrame b fd msg).1.clients.live.map (fun c ↦ (c.conn, c.fd)) =
      b.clients.live.map fun c ↦ (c.conn, c.fd) := by
  rcases handleFrame_clients b fd msg with heq | ⟨i, f, hf, heq⟩
  · rw [heq]
  · rw [heq]
    refine PackedTable.map_key_modify fun c ↦ ?_
    rcases hf with rfl | rfl <;> simp

theorem handlerIn_eq_some {phase : Phase} :
    s.handlerIn k phase = some h ↔ s.handlers[k]? = some h ∧ h.phase = phase := by
  simp [System.handlerIn, Option.filter_eq_some_iff]

theorem getElem?_setPhase (s : System) (k j : ℕ) (phase : Phase) :
    (s.setPhase k phase)[j]? =
      if k = j then s.handlers[j]?.map fun h ↦ { h with phase } else s.handlers[j]? := by
  rw [System.setPhase, List.getElem?_modify]
  split <;> simp

/-! ### Each event preserves the invariant -/

/-- A new connection gets a number that nobody owned. -/
theorem System.Inv.accept (hinv : s.Inv) (hfree : s.owner fd = .free) :
    System.Inv { s with
      handlers := s.handlers ++ [⟨fd, .accepted⟩]
      owner := Function.update s.owner fd (.conn s.handlers.length) } where
  owner_of_handler := by
    intro k h hk hdone
    rcases Nat.lt_or_ge k s.handlers.length with hlt | hge
    · rw [List.getElem?_append_left hlt] at hk
      have hown := hinv.owner_of_handler k h hk hdone
      have hne : h.fd ≠ fd := by
        rintro rfl
        rw [hfree] at hown
        cases hown
      exact (Function.update_of_ne hne _ _).trans hown
    · rw [List.getElem?_append_right hge, List.getElem?_singleton] at hk
      split at hk
      · obtain rfl : k = s.handlers.length := by omega
        rw [← Option.some.inj hk]
        exact Function.update_self _ _ _
      · cases hk
  handler_of_mem := by
    intro c hc
    have hk := hinv.handler_of_mem c hc
    rwa [List.getElem?_append_left (List.getElem?_eq_some_iff.1 hk).1]
  fdNodup := hinv.fdNodup

/-- An entry after a registration is an earlier one, or that of the new client, which starts
without subscriptions. -/
theorem mem_live_register {c : IPCClient} {now : ℤ}
    (hc : c ∈ (register b k fd now).clients.live) :
    c ∈ b.clients.live ∨ c.conn = k ∧ c.fd = fd ∧ c.subscriptions.live = [] := by
  rw [register] at hc
  split at hc
  next hroom =>
    rcases PackedTable.mem_live_append.1 hc with hc | rfl
    · exact Or.inl hc
    · exact Or.inr ⟨rfl, rfl, rfl⟩
  next => exact Or.inl hc

/-- A registration adds the entry of a handler that had none, or does nothing. -/
theorem System.Inv.register (hinv : s.Inv) (hk : s.handlers[k]? = some h)
    (hphase : h.phase = .accepted) (now : ℤ) :
    System.Inv { s with
      broker := register s.broker k h.fd now
      handlers := s.setPhase k .serving } := by
  have hown := hinv.owner_of_handler k h hk (by rw [hphase]; nofun)
  have hfresh : ∀ c ∈ s.broker.clients.live, c.conn ≠ k := by
    rintro c hc rfl
    have hserving := hinv.handler_of_mem c hc
    rw [hk, Option.some.injEq] at hserving
    rw [hserving] at hphase
    cases hphase
  have hkept : ∀ c ∈ s.broker.clients.live, (s.setPhase k .serving)[c.conn]? =
      some ⟨c.fd, .serving⟩ := by
    intro c hc
    rw [getElem?_setPhase, if_neg (hfresh c hc).symm]
    exact hinv.handler_of_mem c hc
  have hself : (s.setPhase k .serving)[k]? = some ⟨h.fd, .serving⟩ := by
    rw [getElem?_setPhase, if_pos rfl, hk]
    rfl
  refine ⟨fun j g hj hdone ↦ ?_, ?_, ?_⟩
  · rw [getElem?_setPhase] at hj
    split at hj
    next hjk =>
      obtain rfl := hjk
      rw [hk, Option.map_some, Option.some.injEq] at hj
      rw [← hj]
      exact hown
    next => exact hinv.owner_of_handler j g hj hdone
  · intro c hc
    rcases mem_live_register hc with hc | ⟨hconn, hfd, -⟩
    · exact hkept c hc
    · rw [hconn, hfd]
      exact hself
  · show (Ipc.register s.broker k h.fd now).clients.KeysNodup IPCClient.fd
    rw [Ipc.register]
    split
    next hroom =>
      have hnone : s.broker.clients.lookup IPCClient.fd h.fd = none := by
        refine PackedTable.lookup_eq_none_iff.2 fun hmem ↦ ?_
        obtain ⟨c, hc, hfd⟩ := List.mem_map.1 hmem
        exact hfresh c hc (hinv.conn_eq hk (by rw [hphase]; nofun) hc hfd)
      exact hinv.fdNodup.append hnone rfl
    next => exact hinv.fdNodup

/-- Acting on a message changes no descriptor. -/
theorem System.Inv.frame (hinv : s.Inv) (fd : ℕ) (msg : IPCMessage)
    (sent : List (Owner × IPCMessage)) :
    System.Inv { s with broker := (handleFrame s.broker fd msg).1, sent } where
  owner_of_handler := hinv.owner_of_handler
  handler_of_mem := by
    intro c hc
    have hmem := List.mem_map_of_mem (f := fun c : IPCClient ↦ (c.conn, c.fd)) hc
    rw [map_conn_fd_handleFrame] at hmem
    obtain ⟨c', hc', hsame⟩ := List.mem_map.1 hmem
    obtain ⟨hconn, hfd⟩ := Prod.mk.injEq .. ▸ hsame
    have hk := hinv.handler_of_mem c' hc'
    rwa [hconn, hfd] at hk
  fdNodup := by
    have hmap := congrArg (List.map Prod.snd) (map_conn_fd_handleFrame s.broker fd msg)
    rw [List.map_map, List.map_map] at hmap
    exact (congrArg List.Nodup hmap).mpr hinv.fdNodup

/-- Where descriptors are distinct, `remove_client` takes the entry with the descriptor out, and
reports whether there was one. -/
theorem removeClient_spec (hnd : b.clients.KeysNodup IPCClient.fd) (fd : ℕ) :
    (∀ c, c ∈ (removeClient b fd).1.clients.live ↔ c ∈ b.clients.live ∧ c.fd ≠ fd) ∧
      ((removeClient b fd).2 = true ↔ ∃ c ∈ b.clients.live, c.fd = fd) ∧
      (removeClient b fd).1.clients.KeysNodup IPCClient.fd := by
  rw [removeClient]
  split
  next hfind =>
    have hnone : ∀ c ∈ b.clients.live, c.fd ≠ fd := by
      simpa using PackedTable.find?_eq_none.1 hfind
    refine ⟨fun c ↦ ⟨fun hc ↦ ⟨hc, hnone c hc⟩, And.left⟩, ⟨nofun, fun ⟨c, hc, hfd⟩ ↦ ?_⟩, hnd⟩
    exact absurd hfd (hnone c hc)
  next i hfind =>
    refine ⟨fun c ↦ ?_, ⟨fun _ ↦ ?_, fun _ ↦ rfl⟩,
      hnd.eraseAt (PackedTable.lt_count_of_find?_eq_some hfind)⟩
    all_goals
      obtain ⟨pre, a, post, hlive, -, ha, -, -, herase⟩ := PackedTable.exists_split_of_find? hfind
      rw [decide_eq_true_eq] at ha
    · rw [herase, hlive]
      have hne : ∀ c ∈ pre ++ post, c.fd ≠ fd := ha ▸ hnd.ne_of_split hlive
      constructor
      · exact fun hc ↦ ⟨by simp at hc ⊢; tauto, hne c hc⟩
      · rintro ⟨hc, hfd⟩
        have hca : c ≠ a := by
          rintro rfl
          exact hfd ha
        simpa [hca] using hc
    · exact ⟨a, by rw [hlive]; simp, ha⟩

/-- **The critical section of `remove_client`.** The descriptor is closed exactly if the entry
that goes is the connection's own. -/
theorem System.Inv.leave (hinv : s.Inv) (hk : s.handlers[k]? = some h)
    (hphase : h.phase = .serving) :
    System.Inv { s with
      broker := (removeClient s.broker h.fd).1
      handlers := s.setPhase k .done
      owner := if (removeClient s.broker h.fd).2 then Function.update s.owner h.fd .free
        else s.owner } := by
  obtain ⟨hmem, -, hnd⟩ := removeClient_spec hinv.fdNodup h.fd
  have hdone : h.phase ≠ .done := by
    rw [hphase]
    nofun
  refine ⟨fun j g hj hg ↦ ?_, fun c hc ↦ ?_, hnd⟩
  · rw [getElem?_setPhase] at hj
    split at hj
    next hjk =>
      obtain ⟨_, -, rfl⟩ := Option.map_eq_some_iff.1 hj
      exact absurd rfl hg
    next hjk =>
      have hown := hinv.owner_of_handler j g hj hg
      have hne : g.fd ≠ h.fd := by
        intro hfd
        rw [hfd, hinv.owner_of_handler k h hk hdone, Owner.conn.injEq] at hown
        exact hjk hown
      split
      · exact (Function.update_of_ne hne _ _).trans hown
      · exact hown
  · obtain ⟨hlive, hfd⟩ := (hmem c).1 hc
    have hne : k ≠ c.conn := by
      rintro rfl
      rw [hinv.handler_of_mem c hlive, Option.some.injEq] at hk
      exact hfd (congrArg Handler.fd hk)
    rw [getElem?_setPhase, if_neg hne]
    exact hinv.handler_of_mem c hlive

/-- **Every step preserves the invariant.** -/
theorem System.Inv.step (hinv : s.Inv) (hstep : system.step s e = some s') : s'.Inv := by
  cases e with
  | accept fd =>
    obtain ⟨hfree, hs'⟩ := Option.ite_none_right_eq_some.1 hstep
    rw [← Option.some.inj hs']
    exact hinv.accept hfree
  | register k now =>
    obtain ⟨h, hh, rfl⟩ := Option.map_eq_some_iff.1 hstep
    obtain ⟨hk, hphase⟩ := handlerIn_eq_some.1 hh
    exact hinv.register hk hphase now
  | frame k msg =>
    obtain ⟨h, hh, rfl⟩ := Option.map_eq_some_iff.1 hstep
    exact hinv.frame h.fd msg _
  | partialRead k =>
    obtain ⟨h, hh, rfl⟩ := Option.map_eq_some_iff.1 hstep
    exact hinv
  | leave k =>
    obtain ⟨h, hh, rfl⟩ := Option.map_eq_some_iff.1 hstep
    obtain ⟨hk, hphase⟩ := handlerIn_eq_some.1 hh
    exact hinv.leave hk hphase

/-- At the start there is nothing to go wrong. -/
theorem System.inv_of_init (h : system.Init s) : s.Inv := by
  obtain ⟨hbroker, hhandlers, -, -⟩ := h
  refine ⟨fun k h hk ↦ ?_, ?_, ?_⟩
  · rw [hhandlers] at hk
    cases hk
  · rw [hbroker]
    nofun
  · rw [hbroker]
    exact List.nodup_nil

theorem inv_of_reachable (h : system.Reachable s) : s.Inv :=
  h.induction (fun _ ↦ System.inv_of_init) fun _ _ _ ↦ System.Inv.step

/-! ### Writes -/

/-- The delivery loop writes to clients of the table only. -/
theorem exists_mem_of_mem_publishLoop {msg : IPCMessage} {cs : List IPCClient} {w : Write}
    (hw : w ∈ publishLoop msg cs) : ∃ c ∈ cs, w = (c.fd, msg) := by
  induction cs with
  | nil => cases hw
  | cons c cs ih =>
    rw [publishLoop] at hw
    split at hw
    · rcases List.mem_cons.1 hw with rfl | hw
      · exact ⟨c, List.mem_cons_self .., rfl⟩
      · obtain ⟨c', hc', rfl⟩ := ih hw
        exact ⟨c', List.mem_cons_of_mem c hc', rfl⟩
    · obtain ⟨c', hc', rfl⟩ := ih hw
      exact ⟨c', List.mem_cons_of_mem c hc', rfl⟩

/-- **The client table is sound in every reachable state.** The entries' descriptors are distinct
and open, each belongs to the connection whose handler wrote the entry, which is still in its
loop, the counts are in range, and a publish writes to such descriptors only. -/
theorem registry_safe (hs : system.Reachable s) :
    (s.broker.clients.live.map IPCClient.fd).Nodup ∧
      (∀ c ∈ s.broker.clients.live, s.owner c.fd = .conn c.conn ∧
        s.handlers[c.conn]? = some ⟨c.fd, .serving⟩) ∧
      s.broker.clients.count ≤ ipcMaxClients ∧
      (∀ c ∈ s.broker.clients.live, c.subscriptions.count ≤ ipcMaxTopics) ∧
      s.broker.topics.count ≤ ipcMaxTopics ∧
      ∀ msg, ∀ w ∈ (ipcPublish s.broker msg).2, ∃ c ∈ s.broker.clients.live,
        w.1 = c.fd ∧ s.owner w.1 = .conn c.conn := by
  have hinv := inv_of_reachable hs
  refine ⟨hinv.fdNodup, fun c hc ↦ ⟨hinv.owner_of_mem hc, hinv.handler_of_mem c hc⟩,
    s.broker.clients.count_le, fun c _ ↦ c.subscriptions.count_le, s.broker.topics.count_le,
    fun msg w hw ↦ ?_⟩
  obtain ⟨c, hc, rfl⟩ := exists_mem_of_mem_publishLoop hw
  exact ⟨c, hc, rfl, hinv.owner_of_mem hc⟩

/-- The system at the start, with every descriptor free. -/
def System.start : System := ⟨.init, [], fun _ ↦ .free, []⟩

theorem System.init_start : system.Init .start := ⟨rfl, rfl, rfl, nofun⟩

/-- One connection on descriptor 5, accepted and registered. -/
theorem registry_safe_one_client :
    ∃ s, system.run .start [.accept 5, .register 0 0] = some s ∧ s.broker.clients.count = 1 ∧
      (s.broker.clients.live.map IPCClient.fd).Nodup :=
  ⟨_, rfl, rfl,
    (registry_safe ⟨.start, [.accept 5, .register 0 0], System.init_start, rfl⟩).1⟩

end JuliusOS.Ipc
