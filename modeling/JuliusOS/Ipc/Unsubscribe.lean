import JuliusOS.Ipc.Delivery

/-!
# What an end of a subscription ends

`ipc_subscribe` appends a copy of the topic, cut to 63 bytes, whatever is in the list already, and
`ipc_unsubscribe` takes out the first entry that is the whole topic. So a client that subscribed
twice stays subscribed, a topic of 63 bytes is also what is stored of every longer topic that starts
with it, and a longer topic's own entry is never found.

* `Silent.step`: what keeps publishes on a topic away from a descriptor;
* `silences_iff`: when the end of a subscription does so from then on;
* `roundTrips_list_iff`: when a subscription and its end leave the list as it was;
* `unsubscribe_iff`: both, in every reachable state.
-/

open CString

namespace JuliusOS.Ipc

variable {s s' s₁ : System} {b : Broker} {c : IPCClient} {e : Event} {k fd : ℕ} {t topic : Bytes}
  {msg pub : IPCMessage}

/-! ### Lists -/

theorem append_singleton_eq_cons_iff {α : Type*} {l : List α} {a : α} :
    l ++ [a] = a :: l ↔ ∀ x ∈ l, x = a := by
  induction l with
  | nil => simp
  | cons b l ih =>
    rw [List.cons_append, List.cons.injEq, List.forall_mem_cons]
    refine and_congr_right fun hb ↦ ?_
    rw [hb]
    exact ih

/-- An item added at the end and erased at its first place leaves the list as it was exactly if
nothing else comes after that place. -/
theorem erase_append_singleton_eq_iff {α : Type*} [BEq α] [LawfulBEq α] [DecidableEq α]
    {l : List α} {a : α} :
    (l ++ [a]).erase a = l ↔ ∀ x ∈ l.dropWhile (· ≠ a), x = a := by
  induction l with
  | nil => simp
  | cons b l ih =>
    by_cases hb : b = a
    · rw [hb, List.cons_append, List.erase_cons_head, List.dropWhile_cons_of_neg (by simp),
        append_singleton_eq_cons_iff, List.forall_mem_cons]
      exact (and_iff_right rfl).symm
    · rw [List.cons_append, List.erase_cons_tail (by simpa using hb), List.cons.injEq,
        List.dropWhile_cons_of_pos (by simpa using hb), and_iff_right rfl]
      exact ih

/-! ### States -/

/-- What is needed of a state: the client table is in order and its strings are terminated. -/
structure Settled (s : System) : Prop where
  /-- The invariant of the client table. -/
  inv : s.Inv
  /-- The subscription fields end in a NUL. -/
  terminated : s.broker.clients.AllSlots IPCClient.Terminated

theorem terminated_handleFrame (h : b.clients.AllSlots IPCClient.Terminated) (fd : ℕ)
    (msg : IPCMessage) : (handleFrame b fd msg).1.clients.AllSlots IPCClient.Terminated := by
  rcases handleFrame_clients b fd msg with heq | ⟨i, f, hf, heq⟩
  · rw [heq]
    exact h
  · rw [heq]
    refine h.modify fun c hc ↦ ?_
    rcases hf with rfl | rfl
    · exact terminated_addSubscription hc msg.data
    · exact terminated_dropSubscription hc msg.data

theorem Settled.step (hs : Settled s) (hstep : system.step s e = some s') : Settled s' := by
  refine ⟨hs.inv.step hstep, ?_⟩
  cases e with
  | accept fd =>
    obtain ⟨-, hs'⟩ := Option.ite_none_right_eq_some.1 hstep
    rw [← Option.some.inj hs']
    exact hs.terminated
  | register k now =>
    obtain ⟨h, -, rfl⟩ := Option.map_eq_some_iff.1 hstep
    exact register_terminated hs.terminated now
  | frame k msg =>
    obtain ⟨h, -, rfl⟩ := Option.map_eq_some_iff.1 hstep
    exact terminated_handleFrame hs.terminated h.fd msg
  | partialRead k =>
    obtain ⟨h, -, rfl⟩ := Option.map_eq_some_iff.1 hstep
    exact hs.terminated
  | leave k =>
    obtain ⟨h, -, rfl⟩ := Option.map_eq_some_iff.1 hstep
    exact (removeClient_frame s.broker h.fd).2 hs.terminated

theorem settled_of_reachable (hs : system.Reachable s) : Settled s := by
  refine hs.induction (fun s hinit ↦ ⟨System.inv_of_init hinit, ?_⟩) fun _ _ _ ↦ Settled.step
  have hzero : LastZero (Buf.zero 64).bytes := lastZero_replicate (by decide)
  rw [hinit.1]
  exact PackedTable.allSlots_empty (PackedTable.allSlots_empty hzero)

/-- No entry is longer than 63 bytes. -/
theorem length_le_of_mem_subscribed (hc : c.Terminated) (ht : t ∈ c.subscribed) :
    t.length ≤ 63 := by
  obtain ⟨s, hs, rfl⟩ := List.mem_map.1 ht
  have hlt := length_cstr_lt_of_mem (PackedTable.AllSlots.of_mem_live hc hs).mem_zero
  rw [s.length_bytes] at hlt
  omega

/-! ### What a client's frame does to its list -/

@[simp]
theorem fd_act (msg : IPCMessage) (c : IPCClient) : (act msg c).fd = c.fd := by
  rw [act]
  split <;> simp

/-- A subscription adds the topic cut to 63 bytes, if there is room. -/
theorem subscribed_act_subscribe (hc : c.Terminated) (hcmd : command msg = .subscribe t) :
    (act msg c).subscribed =
      if c.subscriptions.count < ipcMaxTopics then c.subscribed ++ [t.take 63]
      else c.subscribed := by
  obtain rfl := data_of_command (Or.inl hcmd)
  simp only [act, hcmd]
  rw [← length_subscribed]
  exact subscribed_addSubscription hc msg.data

/-- The end of one erases the first entry that is the topic. -/
theorem subscribed_act_unsubscribe (hcmd : command msg = .unsubscribe t) (c : IPCClient) :
    (act msg c).subscribed = c.subscribed.erase t := by
  obtain rfl := data_of_command (Or.inr hcmd)
  simp only [act, hcmd]
  exact subscribed_dropSubscription msg.data c

/-- **A registered client can always send a frame**, and its entry follows. -/
theorem Settled.exists_frame (hs : Settled s) (hc : c ∈ s.broker.clients.live) (msg : IPCMessage) :
    ∃ s', system.step s (.frame c.conn msg) = some s' ∧ Settled s' ∧
      act msg c ∈ s'.broker.clients.live := by
  have hk : s.handlerIn c.conn .serving = some ⟨c.fd, .serving⟩ :=
    handlerIn_eq_some.2 ⟨hs.inv.handler_of_mem c hc, rfl⟩
  obtain ⟨s', hstep, hbroker⟩ : ∃ s', system.step s (.frame c.conn msg) = some s' ∧
      s'.broker = (handleFrame s.broker c.fd msg).1 :=
    ⟨_, Option.map_eq_some_iff.2 ⟨_, hk, rfl⟩, rfl⟩
  refine ⟨s', hstep, hs.step hstep, ?_⟩
  rw [hbroker, live_handleFrame hs.inv.fdNodup]
  exact List.mem_map.2 ⟨c, hc, if_pos rfl⟩

/-! ### When publishes stay away -/

/-- The event is no subscription to the topic from the descriptor. -/
def NotSubscribing (fd : ℕ) (t : Bytes) (s : System) (e : Event) : Prop :=
  ∀ k msg h, e = .frame k msg → s.handlerIn k .serving = some h → h.fd = fd →
    command msg ≠ .subscribe t

/-- No list of the descriptor's has the topic. -/
def Silent (fd : ℕ) (t : Bytes) (s : System) : Prop :=
  ∀ c ∈ s.broker.clients.live, c.fd = fd → t ∉ c.subscribed

/-- A publish writes to the clients whose list has its topic. -/
theorem exists_write_iff (b : Broker) (pub : IPCMessage) (fd : ℕ) :
    (∃ w ∈ (ipcPublish b pub).2, w.1 = fd) ↔
      ∃ c ∈ b.clients.live, c.fd = fd ∧ cstr pub.topic ∈ c.subscribed := by
  show (∃ w ∈ publishLoop pub b.clients.live, w.1 = fd) ↔ _
  rw [publishLoop_eq]
  constructor
  · rintro ⟨w, hw, hfd⟩
    obtain ⟨c, hc, rfl⟩ := List.mem_map.1 hw
    obtain ⟨hlive, hmem⟩ := List.mem_filter.1 hc
    exact ⟨c, hlive, hfd, of_decide_eq_true hmem⟩
  · rintro ⟨c, hc, hfd, hmem⟩
    exact ⟨(c.fd, pub), List.mem_map.2 ⟨c, List.mem_filter.2 ⟨hc, decide_eq_true hmem⟩, rfl⟩, hfd⟩

/-- Only its own subscription stores a topic of at most 62 bytes. -/
theorem eq_of_take_eq {t' : Bytes} (hlen : t.length ≤ 62) (h : t'.take 63 = t) : t' = t := by
  have hlen' := congrArg List.length h
  rw [List.length_take] at hlen'
  rw [← h, List.take_of_length_le (by omega)]

/-- A frame that does not subscribe to a topic of at most 62 bytes leaves it out of the list. -/
theorem not_mem_subscribed_act (hterm : c.Terminated) (hlen : t.length ≤ 62)
    (hcmd : command msg ≠ .subscribe t) (hold : t ∉ c.subscribed) : t ∉ (act msg c).subscribed := by
  cases heq : command msg with
  | subscribe t' =>
    rw [subscribed_act_subscribe hterm heq]
    split
    · rw [List.mem_append, List.mem_singleton]
      rintro (hmem | hcut)
      · exact hold hmem
      · exact hcmd (by rw [heq, eq_of_take_eq hlen hcut.symm])
    · exact hold
  | unsubscribe t' =>
    rw [subscribed_act_unsubscribe heq]
    exact fun hmem ↦ hold (List.mem_of_mem_erase hmem)
  | publish t' =>
    simp only [act, heq]
    exact hold

/-- **What keeps publishes away**: without a subscription of its own, a topic of at most 62 bytes
does not come back. -/
theorem Silent.step (hsil : Silent fd t s) (hs : Settled s) (hlen : t.length ≤ 62)
    (he : NotSubscribing fd t s e) (hstep : system.step s e = some s') : Silent fd t s' := by
  cases e with
  | accept fd' =>
    obtain ⟨-, hs'⟩ := Option.ite_none_right_eq_some.1 hstep
    rw [← Option.some.inj hs']
    exact hsil
  | register k now =>
    obtain ⟨h, -, rfl⟩ := Option.map_eq_some_iff.1 hstep
    intro c hc hfd
    rcases mem_live_register hc with hc | ⟨-, -, hnone⟩
    · exact hsil c hc hfd
    · rw [IPCClient.subscribed, hnone]
      exact List.not_mem_nil
  | frame k msg =>
    obtain ⟨h, hh, rfl⟩ := Option.map_eq_some_iff.1 hstep
    intro c' hc' hfd
    rw [live_handleFrame hs.inv.fdNodup] at hc'
    obtain ⟨c, hc, rfl⟩ := List.mem_map.1 hc'
    -- only the sender's entry changes
    by_cases hself : c.fd = h.fd
    · rw [if_pos hself] at hfd ⊢
      rw [fd_act] at hfd
      exact not_mem_subscribed_act (hs.terminated.of_mem_live hc) hlen
        (he k msg h rfl hh (hself.symm.trans hfd)) (hsil c hc hfd)
    · rw [if_neg hself] at hfd ⊢
      exact hsil c hc hfd
  | partialRead k =>
    obtain ⟨h, -, rfl⟩ := Option.map_eq_some_iff.1 hstep
    exact hsil
  | leave k =>
    obtain ⟨h, -, rfl⟩ := Option.map_eq_some_iff.1 hstep
    intro c hc hfd
    exact hsil c (((removeClient_spec hs.inv.fdNodup h.fd).1 c).1 hc).1 hfd

/-- A topic that no entry can be is silent in every state. -/
theorem Settled.silent_of_long (hs : Settled s) (hlen : 64 ≤ t.length) : Silent fd t s := by
  intro c hc _ hmem
  have hle := length_le_of_mem_subscribed (hs.terminated.of_mem_live hc) hmem
  omega

/-- **A run that does not subscribe** keeps the topic away. -/
theorem Silent.run {es : List Event} (hsil : Silent fd t s) (hs : Settled s)
    (hlen : 64 ≤ t.length ∨ t.length ≤ 62) (hes : system.Guarded (NotSubscribing fd t) s es)
    (hrun : system.run s es = some s') : Silent fd t s' := by
  refine (Machine.invariant_of_guarded (I := fun s ↦ Settled s ∧ Silent fd t s)
    (fun s e s' hI he hstep ↦ ?_) ⟨hs, hsil⟩ hes hrun).2
  obtain ⟨hs, hsil⟩ := hI
  refine ⟨hs.step hstep, ?_⟩
  rcases hlen with hlong | hshort
  · exact (hs.step hstep).silent_of_long hlong
  · exact hsil.step hs hshort he hstep

/-! ### When a topic comes back -/

/-- A frame that subscribes to a topic. -/
def subscribeMsg (t : Bytes) : IPCMessage := .ofText (Bytes.ofAscii "__subscribe__") t

/-- A frame that ends a subscription. -/
def unsubscribeMsg (t : Bytes) : IPCMessage := .ofText (Bytes.ofAscii "__unsubscribe__") t

/-- A topic that such a frame can carry. -/
structure Carried (t : Bytes) : Prop where
  /-- It has no NUL. -/
  cstr_eq : cstr t = t
  /-- It leaves room for one in the data. -/
  length_le : t.length ≤ 8191

theorem Carried.of_notMem (h : (0 : UInt8) ∉ t) (hlen : t.length ≤ 8191) : Carried t where
  cstr_eq := by simpa [cstr] using cstr_append_of_notMem (b := []) h
  length_le := hlen

theorem command_subscribeMsg (h : Carried t) : command (subscribeMsg t) = .subscribe t := by
  have hdata : cstr (subscribeMsg t).data = t := by
    rw [subscribeMsg, data_ofText _ (by rw [h.cstr_eq]; exact h.length_le), h.cstr_eq]
  rw [command, hdata, subscribeMsg, topic_ofText (by decide)]
  exact if_pos (by decide)

theorem command_unsubscribeMsg (h : Carried t) : command (unsubscribeMsg t) = .unsubscribe t := by
  have hdata : cstr (unsubscribeMsg t).data = t := by
    rw [unsubscribeMsg, data_ofText _ (by rw [h.cstr_eq]; exact h.length_le), h.cstr_eq]
  rw [command, hdata, unsubscribeMsg, topic_ofText (by decide), if_neg (by decide)]
  exact if_pos (by decide)

/-- The entries of a list can be carried. -/
theorem carried_of_mem (hc : c.Terminated) (ht : t ∈ c.subscribed) : Carried t := by
  have hlen := length_le_of_mem_subscribed hc ht
  obtain ⟨s, -, rfl⟩ := List.mem_map.1 ht
  exact .of_notMem (zero_notMem_cstr _) (by omega)

/-- The state has a run without a subscription to the topic after which a publish on the topic
writes to the descriptor. -/
def ComesBack (fd : ℕ) (t : Bytes) (s : System) : Prop :=
  ∃ es s', system.run s es = some s' ∧ system.Guarded (NotSubscribing fd t) s es ∧
    ∃ c ∈ s'.broker.clients.live, c.fd = fd ∧ t ∈ c.subscribed

/-- A step may be put in front. -/
theorem ComesBack.cons (h : ComesBack fd t s') (he : NotSubscribing fd t s e)
    (hstep : system.step s e = some s') : ComesBack fd t s := by
  obtain ⟨es, s₂, hrun, hguard, hentry⟩ := h
  refine ⟨e :: es, s₂, system.run_cons_eq_some.2 ⟨s', hstep, hrun⟩, ⟨he, fun s'' hs'' ↦ ?_⟩, hentry⟩
  obtain rfl : s' = s'' := Option.some.inj (hstep.symm.trans hs'')
  exact hguard

theorem notSubscribing_of_command (h : command msg ≠ .subscribe t) :
    NotSubscribing fd t s (.frame k msg) := by
  rintro j m h' heq - -
  obtain ⟨-, rfl⟩ := Event.frame.inj heq
  exact h

/-- **A topic of 63 bytes comes back** with a subscription to a longer one, where there is room. -/
theorem comesBack_of_room (hs : Settled s) (hc : c ∈ s.broker.clients.live) (ht : Carried t)
    (hlen : t.length = 63) (hroom : c.subscriptions.count < ipcMaxTopics) :
    ComesBack c.fd t s := by
  have hone : cstr (t ++ [1]) = t ++ [1] := by
    rw [cstr_append_of_notMem (by rw [← ht.cstr_eq]; exact zero_notMem_cstr t)]
    rfl
  have hcarried : Carried (t ++ [1]) := ⟨hone, by simp [hlen]⟩
  have hcmd := command_subscribeMsg hcarried
  obtain ⟨s', hstep, -, hmem⟩ := hs.exists_frame hc (subscribeMsg (t ++ [1]))
  -- the longer topic is stored as its first 63 bytes
  have hback : ComesBack c.fd t s' := by
    refine ⟨[], s', rfl, trivial, _, hmem, fd_act _ c, ?_⟩
    rw [subscribed_act_subscribe (hs.terminated.of_mem_live hc) hcmd, if_pos hroom,
      List.take_left' hlen]
    exact List.mem_append_right _ (List.mem_singleton_self t)
  refine hback.cons (notSubscribing_of_command ?_) hstep
  rw [hcmd, Ne, Command.subscribe.injEq]
  simp

/-- Where the list is full, its first entry can be given up first. -/
theorem comesBack_of_length (hs : Settled s) (hc : c ∈ s.broker.clients.live) (ht : Carried t)
    (hlen : t.length = 63) : ComesBack c.fd t s := by
  by_cases hroom : c.subscriptions.count < ipcMaxTopics
  · exact comesBack_of_room hs hc ht hlen hroom
  · have hcount := length_subscribed c
    have hle := c.subscriptions.count_le
    obtain ⟨x, xs, hx⟩ : ∃ x xs, c.subscribed = x :: xs := by
      refine List.exists_cons_of_ne_nil fun hnil ↦ hroom ?_
      rw [← hcount, hnil]
      decide
    have hmem : x ∈ c.subscribed := hx ▸ List.mem_cons_self ..
    have hcmd := command_unsubscribeMsg (carried_of_mem (hs.terminated.of_mem_live hc) hmem)
    obtain ⟨s', hstep, hs', hmem'⟩ := hs.exists_frame hc (unsubscribeMsg x)
    have hroom' : (act (unsubscribeMsg x) c).subscriptions.count < ipcMaxTopics := by
      rw [← length_subscribed, subscribed_act_unsubscribe hcmd, List.length_erase_of_mem hmem,
        hcount]
      have hpos : 0 < c.subscriptions.count := by rw [← hcount, hx]; exact Nat.succ_pos _
      omega
    have hback := comesBack_of_room hs' hmem' ht hlen hroom'
    rw [fd_act] at hback
    refine hback.cons (notSubscribing_of_command ?_) hstep
    rw [hcmd]
    rintro ⟨⟩

/-! ### When the end of a subscription is one -/

/-- Once the client has given the topic up, no publish on it writes to its descriptor until a
subscription to the topic comes from there. -/
def Silences (s : System) (c : IPCClient) (t : Bytes) : Prop :=
  ∀ msg s₁, command msg = .unsubscribe t → system.step s (.frame c.conn msg) = some s₁ →
    ∀ es s₂, system.run s₁ es = some s₂ → system.Guarded (NotSubscribing c.fd t) s₁ es →
      ∀ pub, cstr pub.topic = t → ∀ w ∈ (ipcPublish s₂.broker pub).2, w.1 ≠ c.fd

/-- A subscription to the topic and its end leave the client's list as it was. -/
def RoundTrips (s : System) (c : IPCClient) (t : Bytes) : Prop :=
  ∀ msg msg' s₂, command msg = .subscribe t → command msg' = .unsubscribe t →
    system.run s [.frame c.conn msg, .frame c.conn msg'] = some s₂ →
    ∀ c₂ ∈ s₂.broker.clients.live, c₂.fd = c.fd → c₂.subscribed = c.subscribed

/-- The entry of a descriptor is the only one. -/
theorem Settled.eq_of_fd_eq (hs : Settled s) {c c' : IPCClient} (hc : c ∈ s.broker.clients.live)
    (hc' : c' ∈ s.broker.clients.live) (hfd : c.fd = c'.fd) : c = c' :=
  List.inj_on_of_nodup_map hs.inv.fdNodup hc hc' hfd

/-- The topic is silent after its first entry has gone if it had no second. -/
theorem silent_iff_of_act (hs₁ : Settled s₁) (hcmd : command msg = .unsubscribe t)
    (hc₁ : act msg c ∈ s₁.broker.clients.live) :
    Silent c.fd t s₁ ↔ c.subscribed.count t ≤ 1 := by
  have hcount : t ∉ (act msg c).subscribed ↔ c.subscribed.count t ≤ 1 := by
    rw [subscribed_act_unsubscribe hcmd, ← List.count_eq_zero, List.count_erase_self]
    omega
  rw [← hcount]
  constructor
  · exact fun hsil ↦ hsil _ hc₁ (fd_act msg c)
  · intro hnot c' hc' hfd
    rw [hs₁.eq_of_fd_eq hc' hc₁ (hfd.trans (fd_act msg c).symm)]
    exact hnot

/-- **Otherwise the topic comes back**: there is a second entry, or one of 63 bytes can be made. -/
theorem comesBack_of_act (hs₁ : Settled s₁) (hcmd : command msg = .unsubscribe t)
    (hc₁ : act msg c ∈ s₁.broker.clients.live) (ht : Carried t)
    (hcond : ¬ (64 ≤ t.length ∨ t.length ≤ 62 ∧ c.subscribed.count t ≤ 1)) :
    ComesBack c.fd t s₁ := by
  by_cases hcount : c.subscribed.count t ≤ 1
  · have hlen : t.length = 63 := by omega
    have hback := comesBack_of_length hs₁ hc₁ ht hlen
    rwa [fd_act] at hback
  · refine ⟨[], s₁, rfl, trivial, _, hc₁, fd_act _ c, ?_⟩
    by_contra hnot
    refine hcount ((silent_iff_of_act hs₁ hcmd hc₁).1 fun c' hc' hfd ↦ ?_)
    rw [hs₁.eq_of_fd_eq hc' hc₁ (hfd.trans (fd_act _ c).symm)]
    exact hnot

/-- **When the end of a subscription is one**: if the topic is too long to be found at all, or has
at most 62 bytes and at most one entry. -/
theorem silences_iff (hs : Settled s) (hc : c ∈ s.broker.clients.live) (ht : Carried t) :
    Silences s c t ↔ 64 ≤ t.length ∨ t.length ≤ 62 ∧ c.subscribed.count t ≤ 1 := by
  constructor
  · intro hsil
    by_contra hcond
    obtain ⟨s₁, hstep, hs₁, hc₁⟩ := hs.exists_frame hc (unsubscribeMsg t)
    have hcmd := command_unsubscribeMsg ht
    -- a publish on the topic then writes to the descriptor
    obtain ⟨es, s₂, hrun, hguard, c₂, hc₂, hfd, hmem⟩ := comesBack_of_act hs₁ hcmd hc₁ ht hcond
    have htopic : cstr (IPCMessage.ofText t []).topic = t := by
      rw [topic_ofText (by rw [ht.cstr_eq]; omega), ht.cstr_eq]
    obtain ⟨w, hw, hwfd⟩ := (exists_write_iff s₂.broker (.ofText t []) c.fd).2
      ⟨c₂, hc₂, hfd, by rw [htopic]; exact hmem⟩
    exact hsil _ _ hcmd hstep es s₂ hrun hguard _ htopic w hw hwfd
  · rintro hcond msg s₁ hcmd hstep es s₂ hrun hguard pub hpub w hw hwfd
    obtain ⟨s₁', hstep', hs₁, hc₁⟩ := hs.exists_frame hc msg
    obtain rfl : s₁ = s₁' := Option.some.inj (hstep.symm.trans hstep')
    have hsil : Silent c.fd t s₁ := by
      rcases hcond with hlong | ⟨-, hcount⟩
      · exact hs₁.silent_of_long hlong
      · exact (silent_iff_of_act hs₁ hcmd hc₁).2 hcount
    have hsil₂ := hsil.run hs₁ (hcond.imp id And.left) hguard hrun
    obtain ⟨c₂, hc₂, hfd, hmem⟩ := (exists_write_iff s₂.broker pub c.fd).1 ⟨w, hw, hwfd⟩
    exact hsil₂ c₂ hc₂ hfd (hpub ▸ hmem)

/-- When taking the topic out of the list undoes the entry of its first 63 bytes. -/
theorem erase_append_cut_eq_iff (hterm : c.Terminated) :
    (c.subscribed ++ [t.take 63]).erase t = c.subscribed ↔
      t.length ≤ 63 ∧ ∀ x ∈ c.subscribed.dropWhile (· ≠ t), x = t := by
  by_cases hlen : t.length ≤ 63
  · rw [List.take_of_length_le hlen, and_iff_right hlen]
    exact erase_append_singleton_eq_iff
  · refine iff_of_false (fun h ↦ ?_) fun h ↦ hlen h.1
    -- no entry is as long as the topic
    rw [List.erase_of_not_mem] at h
    · simpa using congrArg List.length h
    · rw [List.mem_append, List.mem_singleton]
      rintro (hmem | hcut)
      · exact hlen (length_le_of_mem_subscribed hterm hmem)
      · rw [hcut] at hlen
        exact hlen (List.length_take_le _ _)

/-- **The two frames** in the machine, and what they make of the entry. -/
theorem Settled.exists_frames (hs : Settled s) (hc : c ∈ s.broker.clients.live)
    (hroom : c.subscriptions.count < ipcMaxTopics) {msg msg' : IPCMessage}
    (hcmd : command msg = .subscribe t) (hcmd' : command msg' = .unsubscribe t) :
    ∃ s₂, system.run s [.frame c.conn msg, .frame c.conn msg'] = some s₂ ∧ Settled s₂ ∧
      act msg' (act msg c) ∈ s₂.broker.clients.live ∧
      (act msg' (act msg c)).subscribed = (c.subscribed ++ [t.take 63]).erase t := by
  obtain ⟨s₁, hstep, hs₁, hc₁⟩ := hs.exists_frame hc msg
  obtain ⟨s₂, hstep', hs₂, hc₂⟩ := hs₁.exists_frame hc₁ msg'
  rw [conn_act] at hstep'
  refine ⟨s₂, ?_, hs₂, hc₂, ?_⟩
  · rw [system.run_cons_eq_some]
    exact ⟨s₁, hstep, system.run_cons_eq_some.2 ⟨s₂, hstep', rfl⟩⟩
  · rw [subscribed_act_unsubscribe hcmd',
      subscribed_act_subscribe (hs.terminated.of_mem_live hc) hcmd, if_pos hroom]

/-- **When a subscription and its end change nothing**: if the topic is stored whole and, from its
first entry on, nothing else is in the list. -/
theorem roundTrips_list_iff (hs : Settled s) (hc : c ∈ s.broker.clients.live) (ht : Carried t)
    (hroom : c.subscriptions.count < ipcMaxTopics) :
    RoundTrips s c t ↔ t.length ≤ 63 ∧ ∀ x ∈ c.subscribed.dropWhile (· ≠ t), x = t := by
  rw [← erase_append_cut_eq_iff (hs.terminated.of_mem_live hc)]
  constructor
  · intro hround
    have hcmd := command_subscribeMsg ht
    have hcmd' := command_unsubscribeMsg ht
    obtain ⟨s₂, hrun, -, hc₂, hsub⟩ := hs.exists_frames hc hroom hcmd hcmd'
    rw [← hsub]
    exact hround _ _ s₂ hcmd hcmd' hrun _ hc₂ ((fd_act _ _).trans (fd_act _ c))
  · intro heq msg msg' s₂ hcmd hcmd' hrun c₂ hc₂ hfd
    obtain ⟨s₂', hrun', hs₂, hc₂', hsub⟩ := hs.exists_frames hc hroom hcmd hcmd'
    obtain rfl : s₂ = s₂' := Option.some.inj (hrun.symm.trans hrun')
    rw [hs₂.eq_of_fd_eq hc₂ hc₂' (hfd.trans ((fd_act _ _).trans (fd_act _ c)).symm), hsub, heq]

/-- **When unsubscribing works.** In every reachable state, for every registered client and every
topic that a frame can carry: the end of a subscription keeps publishes on the topic away until the
next subscription to it if and only if the topic has at least 64 bytes, or at most 62 and at most
one entry in the client's list; and where the client has a free slot, a subscription followed by its
end leaves the list as it was if and only if the topic has at most 63 bytes and nothing else follows
its first entry in the list. -/
theorem unsubscribe_iff (hs : system.Reachable s) (hc : c ∈ s.broker.clients.live)
    (hfree : (0 : UInt8) ∉ t) (hlen : t.length ≤ 8191) :
    (Silences s c t ↔ 64 ≤ t.length ∨ t.length ≤ 62 ∧ c.subscribed.count t ≤ 1) ∧
      (c.subscriptions.count < ipcMaxTopics →
        (RoundTrips s c t ↔ t.length ≤ 63 ∧ ∀ x ∈ c.subscribed.dropWhile (· ≠ t), x = t)) := by
  have hset := settled_of_reachable hs
  have hcarried := Carried.of_notMem hfree hlen
  exact ⟨silences_iff hset hc hcarried, roundTrips_list_iff hset hc hcarried⟩

/-- A client without subscriptions subscribes to `a` and gives it up. -/
theorem unsubscribe_one_client :
    ∃ s c, system.run .start [.accept 5, .register 0 0] = some s ∧ c ∈ s.broker.clients.live ∧
      Silences s c [97] ∧ RoundTrips s c [97] := by
  have hrun : system.run .start [.accept 5, .register 0 0] = some _ := rfl
  have h := unsubscribe_iff (t := [97]) ⟨.start, _, System.init_start, hrun⟩
    (List.mem_cons_self ..) (by decide) (by decide)
  refine ⟨_, _, hrun, List.mem_cons_self .., h.1.2 (Or.inr ⟨by decide, ?_⟩),
    (h.2 ?_).2 ⟨by decide, ?_⟩⟩ <;> decide +kernel

/-- A client subscribes to `a` twice. -/
def subscribedTwice : List Event :=
  [.accept 5, .register 0 0, .frame 0 (subscribeMsg [97]), .frame 0 (subscribeMsg [97])]

/-- It goes on getting what is published there after it has given `a` up. -/
theorem not_silences_twice :
    ∃ s c, system.Reachable s ∧ system.run .start subscribedTwice = some s ∧
      c ∈ s.broker.clients.live ∧ ¬ Silences s c [97] := by
  have hrun : (system.run .start subscribedTwice).map (fun s ↦ s.broker.clients.live.map
      fun c ↦ c.subscribed.count [97]) = some [2] := by decide +kernel
  obtain ⟨s, hs, hlive⟩ := Option.map_eq_some_iff.1 hrun
  obtain ⟨c, cs, hc, hcount, -⟩ := List.map_eq_cons_iff.1 hlive
  have hmem : c ∈ s.broker.clients.live := hc ▸ List.mem_cons_self ..
  have hreach : system.Reachable s := ⟨.start, _, System.init_start, hs⟩
  refine ⟨s, c, hreach, hs, hmem, fun hsil ↦ ?_⟩
  have hcond := (silences_iff (settled_of_reachable hreach) hmem
    (.of_notMem (by decide) (by decide))).1 hsil
  rw [hcount] at hcond
  exact absurd hcond (by decide)

end JuliusOS.Ipc
