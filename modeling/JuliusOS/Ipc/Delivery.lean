import JuliusOS.Ipc.Tables

/-!
# What the broker delivers

The purpose of the broker, in terms of the frames its clients send and nothing else: a client
gets, from its subscription to a topic on, the last message published on the topic before and
every message published on it afterwards, once each and in order; and it gets nothing it has not
subscribed to.

`Faithful` says that the tables agree with a history: each entry's subscription list is the one the
client asked for, and each topic entry retains the last message published on the topic. A topic
without an entry has never been published on as long as there is room for one (`Available`),
because topics are never deleted.

* `Faithful.step`: every event keeps the tables faithful;
* `deliveredTo_step`: what one event delivers to a subscriber;
* `broker_delivery`: what a run does.
-/

open CString StructLayout

namespace JuliusOS.Ipc

/-! ### The tables follow the history -/

/-- The tables agree with a history: names are terminated in every slot, each entry's subscriptions
are those its client asked for, and each available topic retains its last message. -/
structure Faithful (hist : List Event) (s : System) : Prop where
  /-- The descriptors are in order. -/
  inv : s.Inv
  /-- Names in the topic table are terminated. -/
  topicsTerminated : s.broker.topics.AllSlots IPCTopic.Terminated
  /-- So are the subscriptions. -/
  clientsTerminated : s.broker.clients.AllSlots IPCClient.Terminated
  /-- Each entry's subscriptions are those its client asked for. -/
  subscribed : ∀ c ∈ s.broker.clients.live, c.subscribed = subscriptions c.conn hist
  /-- Each available topic retains its last message. -/
  retained : ∀ t, Available s.broker.topics t →
    retained s.broker.topics t = lastPublished t hist

variable {b : Broker} {c : IPCClient} {s s' : System} {hist : List Event} {e : Event}
  {k fd : ℕ} {topic t : Bytes} {msg : IPCMessage}

/-- A subscription retains nothing and makes no topic available. -/
theorem ipcSubscribe_topics (hterm : b.topics.AllSlots IPCTopic.Terminated)
    (hlen : (cstr topic).length ≤ 63) (fd : ℕ) :
    (ipcSubscribe b fd topic).1.topics.AllSlots IPCTopic.Terminated ∧
      ∀ t, Available (ipcSubscribe b fd topic).1.topics t → Available b.topics t ∧
        Ipc.retained (ipcSubscribe b fd topic).1.topics t = Ipc.retained b.topics t := by
  rw [ipcSubscribe]
  split
  · exact ⟨hterm, fun t ht ↦ ⟨ht, rfl⟩⟩
  · split
    · exact ⟨hterm, fun t ht ↦ ⟨ht, rfl⟩⟩
    · split
      · obtain ⟨hterm', hret, havail, -⟩ := findOrCreateTopic_spec hterm hlen
        exact ⟨hterm', fun t ht ↦ ⟨havail t ht, hret t⟩⟩
      · exact ⟨hterm, fun t ht ↦ ⟨ht, rfl⟩⟩

theorem ipcUnsubscribe_topics (b : Broker) (fd : ℕ) (topic : Bytes) :
    (ipcUnsubscribe b fd topic).topics = b.topics := by
  rw [ipcUnsubscribe]
  split <;> rfl

/-- What a frame does to the topic table. -/
theorem handleFrame_topics (hterm : b.topics.AllSlots IPCTopic.Terminated)
    (hok : (command msg).topic.length ≤ 63) (fd : ℕ) :
    (handleFrame b fd msg).1.topics.AllSlots IPCTopic.Terminated ∧
      ∀ t, Available (handleFrame b fd msg).1.topics t → Available b.topics t ∧
        Ipc.retained (handleFrame b fd msg).1.topics t =
          if command msg = .publish t then some msg else Ipc.retained b.topics t := by
  rw [handleFrame_eq]
  cases hcmd : command msg with
  | subscribe t =>
    obtain rfl := data_of_command (Or.inl hcmd)
    rw [hcmd] at hok
    simpa using ipcSubscribe_topics hterm hok fd
  | unsubscribe t =>
    simp only [ipcUnsubscribe_topics]
    exact ⟨hterm, fun t ht ↦ ⟨ht, rfl⟩⟩
  | publish t =>
    obtain rfl := topic_of_command hcmd
    rw [hcmd] at hok
    simpa [eq_comm] using ipcPublish_topics b hterm hok

/-- A frame keeps the tables faithful. -/
theorem Faithful.frame {h : Handler} (hf : Faithful hist s) (hk : s.handlers[k]? = some h)
    (hphase : h.phase = .serving) (hok : EventOk (.frame k msg))
    (sent : List (Owner × IPCMessage)) :
    Faithful (hist ++ [.frame k msg])
      { s with broker := (handleFrame s.broker h.fd msg).1, sent } := by
  obtain ⟨hterm, hret⟩ := handleFrame_topics hf.topicsTerminated hok h.fd
  refine ⟨hf.inv.frame h.fd msg sent, hterm, ?_, fun c hc ↦ ?_, fun t ht ↦ ?_⟩
  · show (handleFrame s.broker h.fd msg).1.clients.AllSlots _
    rcases handleFrame_clients s.broker h.fd msg with heq | ⟨i, f, hf', heq⟩
    · rw [heq]
      exact hf.clientsTerminated
    · rw [heq]
      refine hf.clientsTerminated.modify fun c hc ↦ ?_
      rcases hf' with rfl | rfl
      · exact terminated_addSubscription hc msg.data
      · exact terminated_dropSubscription hc msg.data
  · rw [live_handleFrame hf.inv.fdNodup] at hc
    obtain ⟨c₀, hc₀, rfl⟩ := List.mem_map.1 hc
    rw [subscriptions_concat]
    split
    next hfd =>
      obtain rfl := hf.inv.conn_eq hk (by rw [hphase]; nofun) hc₀ hfd
      rw [subscribed_act (hf.clientsTerminated.of_mem_live hc₀) hok, conn_act,
        hf.subscribed c₀ hc₀]
    next hfd =>
      have hne : ¬ k = c₀.conn := by
        rintro rfl
        rw [hf.inv.handler_of_mem c₀ hc₀, Option.some.injEq] at hk
        exact hfd (congrArg Handler.fd hk)
      rw [subStep, if_neg hne]
      exact hf.subscribed c₀ hc₀
  · rw [lastPublished_concat, ← hf.retained t (hret t ht).1]
    refine (hret t ht).2.trans ?_
    rw [publishes]
    split <;> rfl

/-- What a registration keeps of the subscription fields: they are reused as they are. -/
theorem register_terminated (hterm : b.clients.AllSlots IPCClient.Terminated) (now : ℤ) :
    (Ipc.register b k fd now).clients.AllSlots IPCClient.Terminated := by
  rw [Ipc.register]
  split
  · exact hterm.append fun c hc ↦ hc
  · exact hterm

theorem register_topics (b : Broker) (k fd : ℕ) (now : ℤ) :
    (Ipc.register b k fd now).topics = b.topics := by
  rw [Ipc.register]
  split <;> rfl

/-- A registration keeps them faithful: the new entry has no subscriptions, although its slot may
hold some of an earlier client. -/
theorem Faithful.register {h : Handler} (hf : Faithful hist s) (hk : s.handlers[k]? = some h)
    (hphase : h.phase = .accepted) (now : ℤ) :
    Faithful (hist ++ [.register k now])
      { s with
        broker := Ipc.register s.broker k h.fd now
        handlers := s.setPhase k .serving } := by
  refine ⟨hf.inv.register hk hphase now, (register_topics s.broker k h.fd now).symm ▸
    hf.topicsTerminated, register_terminated hf.clientsTerminated now, fun c hc ↦ ?_,
    fun t ht ↦ ?_⟩
  · rw [subscriptions_concat, subStep]
    rcases mem_live_register hc with hold | ⟨hconn, -, hsub⟩
    · have hne : ¬ k = c.conn := by
        rintro rfl
        rw [hf.inv.handler_of_mem c hold, Option.some.injEq] at hk
        rw [← hk] at hphase
        cases hphase
      rw [if_neg hne]
      exact hf.subscribed c hold
    · rw [if_pos hconn.symm, IPCClient.subscribed, hsub]
      rfl
  · rw [lastPublished_concat]
    simp only [register_topics] at ht ⊢
    exact hf.retained t ht

/-- `remove_client` changes no topic and no slot of the client table. -/
theorem removeClient_frame (b : Broker) (fd : ℕ) :
    (removeClient b fd).1.topics = b.topics ∧
      (b.clients.AllSlots IPCClient.Terminated →
        (removeClient b fd).1.clients.AllSlots IPCClient.Terminated) := by
  rw [removeClient]
  split
  · exact ⟨rfl, id⟩
  next hfind =>
    exact ⟨rfl, fun h ↦ h.eraseAt (PackedTable.lt_count_of_find?_eq_some hfind)⟩

/-- So does a handler's end. -/
theorem Faithful.leave {h : Handler} (hf : Faithful hist s) (hk : s.handlers[k]? = some h)
    (hphase : h.phase = .serving) :
    Faithful (hist ++ [.leave k])
      { s with
        broker := (removeClient s.broker h.fd).1
        handlers := s.setPhase k .done
        owner := if (removeClient s.broker h.fd).2 then Function.update s.owner h.fd .free
          else s.owner } := by
  obtain ⟨htopics, hterm⟩ := removeClient_frame s.broker h.fd
  refine ⟨hf.inv.leave hk hphase, ?_, hterm hf.clientsTerminated, fun c hc ↦ ?_, fun t ht ↦ ?_⟩
  · simp only [htopics]
    exact hf.topicsTerminated
  · rw [subscriptions_concat]
    exact hf.subscribed c (((removeClient_spec hf.inv.fdNodup h.fd).1 c).1 hc).1
  · rw [lastPublished_concat]
    simp only [htopics] at ht ⊢
    exact hf.retained t ht

/-- An event that touches neither table and is no frame. -/
theorem Faithful.of_broker_eq (hf : Faithful hist s) (hinv : s'.Inv)
    (hbroker : s'.broker = s.broker) (hsub : ∀ k subs, subStep k subs e = subs)
    (hpub : ∀ t, publishes t e = none) : Faithful (hist ++ [e]) s' := by
  refine ⟨hinv, ?_, ?_, fun c hc ↦ ?_, fun t ht ↦ ?_⟩
  · rw [hbroker]
    exact hf.topicsTerminated
  · rw [hbroker]
    exact hf.clientsTerminated
  · rw [hbroker] at hc
    rw [subscriptions_concat, hsub]
    exact hf.subscribed c hc
  · rw [hbroker] at ht ⊢
    rw [lastPublished_concat, hpub]
    exact hf.retained t ht

/-- **Every event keeps the tables faithful.** -/
theorem Faithful.step (hf : Faithful hist s) (hok : EventOk e)
    (hstep : system.step s e = some s') : Faithful (hist ++ [e]) s' := by
  have hinv := hf.inv.step hstep
  cases e with
  | accept fd =>
    obtain ⟨-, hs'⟩ := Option.ite_none_right_eq_some.1 hstep
    obtain rfl := Option.some.inj hs'
    exact hf.of_broker_eq hinv rfl (fun _ _ ↦ rfl) fun _ ↦ rfl
  | register k now =>
    obtain ⟨h, hh, rfl⟩ := Option.map_eq_some_iff.1 hstep
    obtain ⟨hk, hphase⟩ := handlerIn_eq_some.1 hh
    exact hf.register hk hphase now
  | frame k msg =>
    obtain ⟨h, hh, rfl⟩ := Option.map_eq_some_iff.1 hstep
    obtain ⟨hk, hphase⟩ := handlerIn_eq_some.1 hh
    exact hf.frame hk hphase hok _
  | partialRead k =>
    obtain ⟨h, hh, rfl⟩ := Option.map_eq_some_iff.1 hstep
    exact hf.of_broker_eq hinv rfl (fun _ _ ↦ rfl) fun _ ↦ rfl
  | leave k =>
    obtain ⟨h, hh, rfl⟩ := Option.map_eq_some_iff.1 hstep
    obtain ⟨hk, hphase⟩ := handlerIn_eq_some.1 hh
    exact hf.leave hk hphase

/-- At the start the tables are empty. -/
theorem Faithful.of_init (h : system.Init s) : Faithful [] s := by
  have hinv := System.inv_of_init h
  have hzero : LastZero (Buf.zero 64).bytes := lastZero_replicate (by decide)
  obtain ⟨hbroker, -⟩ := h
  refine ⟨hinv, ?_, ?_, fun c hc ↦ ?_, fun t ht ↦ ?_⟩
  · rw [hbroker]
    exact PackedTable.allSlots_empty hzero
  · rw [hbroker]
    exact PackedTable.allSlots_empty (PackedTable.allSlots_empty hzero)
  · rw [hbroker] at hc
    cases hc
  · rw [hbroker]
    rfl

/-- **The tables are faithful after every run.** -/
theorem faithful_of_run {s₀ : System} {ls : List Event} (h₀ : system.Init s₀)
    (hrun : system.run s₀ ls = some s) (hok : ∀ e ∈ ls, EventOk e) : Faithful ls s := by
  refine Machine.invariant_of_history (I := fun ls s ↦ (∀ e ∈ ls, EventOk e) → Faithful ls s)
    (fun hist s e s' ih hstep hok ↦ ?_) (fun _ ↦ Faithful.of_init h₀) hrun hok
  have hhist := ih fun e' he' ↦ hok e' (List.mem_append_left _ he')
  exact hhist.step (hok e (by simp)) hstep

/-! ### What an event delivers -/

/-- The messages written, with the owners of the descriptors. -/
def System.addressed (s : System) (writes : List Write) : List (Owner × IPCMessage) :=
  writes.map fun w ↦ (s.owner w.1, w.2)

/-- The topic of a retained message is the one it is retained for. -/
theorem Faithful.topic_of_retained (hf : Faithful hist s)
    (h : Ipc.retained s.broker.topics t = some msg) : cstr msg.topic = t := by
  have havail : Available s.broker.topics t := by
    refine Or.inl fun hnone ↦ ?_
    rw [Ipc.retained, hnone] at h
    cases h
  rw [hf.retained t havail] at h
  exact topic_of_lastPublished h

/-- A subscription with room answers with the retained message. -/
theorem writes_ipcSubscribe (hterm : b.topics.AllSlots IPCTopic.Terminated)
    (hnd : b.clients.KeysNodup IPCClient.fd) (hlen : (cstr topic).length ≤ 63) (fd : ℕ) :
    ((∃ c ∈ b.clients.live, c.fd = fd ∧ c.subscriptions.count < ipcMaxTopics) ∧
      (ipcSubscribe b fd topic).2 =
        (Ipc.retained b.topics (cstr topic)).toList.map fun m ↦ (fd, m)) ∨
    (∀ c ∈ b.clients.live, c.fd = fd → ¬ c.subscriptions.count < ipcMaxTopics) ∧
      (ipcSubscribe b fd topic).2 = [] := by
  rw [ipcSubscribe]
  split
  next hfind =>
    exact Or.inr ⟨fun c hc hfd ↦ absurd hfd (fd_ne_of_findClient_eq_none hfind c hc), rfl⟩
  next i hfind =>
    obtain ⟨pre, c, post, hlive, rfl, hc, -, -, -⟩ := PackedTable.exists_split_of_find? hfind
    have hcfd : c.fd = fd := of_decide_eq_true hc
    have hmem : c ∈ b.clients.live := by simp [hlive]
    rw [show b.clients.live[pre.length]? = some c by simp [hlive]]
    dsimp only
    split
    next hroom =>
      refine Or.inl ⟨⟨c, hmem, hcfd, hroom⟩, ?_⟩
      obtain ⟨-, hret, havail, hj⟩ := findOrCreateTopic_spec hterm hlen
      rw [← hret]
      rcases hj with ⟨j, hj, hfindj⟩ | ⟨hj, hunavail⟩
      · obtain ⟨pre', e, post', hlivej, rfl, hlook⟩ := PackedTable.exists_lookup_of_find? hfindj
        have hget : (findOrCreateTopic b.topics topic).1.live[pre'.length]? = some e := by
          simp [hlivej]
        rw [Ipc.retained, hlook, hj, Option.bind_some, Option.bind_some, hget]
        cases hlast : e.hasLast <;> simp [hlast]
      · have hnone : Ipc.retained (findOrCreateTopic b.topics topic).1 (cstr topic) = none := by
          rw [hret, Ipc.retained, not_not.1 fun h ↦ hunavail (Or.inl h)]
          rfl
        rw [hnone, hj]
        rfl
    next hfull =>
      refine Or.inr ⟨fun c' hc' hfd ↦ ?_, rfl⟩
      rwa [List.inj_on_of_nodup_map hnd hc' hmem (hfd.trans hcfd.symm)]

/-- The delivery loop writes to every client with a subscription to the topic, in table order. -/
theorem publishLoop_eq (msg : IPCMessage) (cs : List IPCClient) :
    publishLoop msg cs =
      (cs.filter fun c ↦ cstr msg.topic ∈ c.subscribed).map fun c ↦ (c.fd, msg) := by
  have hany : ∀ c : IPCClient, (c.subscriptions.live.any fun s ↦ strcmpEq s.bytes msg.topic) =
      decide (cstr msg.topic ∈ c.subscribed) := by
    intro c
    rw [Bool.eq_iff_iff, List.any_eq_true, decide_eq_true_eq, IPCClient.subscribed, List.mem_map]
    simp only [strcmpEq, beq_iff_eq]
  induction cs with
  | nil => rfl
  | cons c cs ih =>
    rw [publishLoop, hany, ih, List.filter_cons]
    split <;> rfl

/-- A publish reaches a client of the table once if it has subscribed to the topic, and not at all
otherwise. -/
theorem deliveredTo_publish (hf : Faithful hist s) (hc : c ∈ s.broker.clients.live)
    (msg : IPCMessage) (t : Bytes) :
    deliveredTo c.conn t (s.addressed (publishLoop msg s.broker.clients.live)) =
      if cstr msg.topic = t ∧ t ∈ subscriptions c.conn hist then [msg] else [] := by
  obtain ⟨pre, post, hlive⟩ := List.append_of_mem hc
  have hne := hf.inv.connNodup.ne_of_split hlive
  have hown : ∀ c' ∈ s.broker.clients.live, s.owner c'.fd = .conn c'.conn :=
    fun c' hc' ↦ hf.inv.owner_of_mem hc'
  have hothers : ∀ cs : List IPCClient, (∀ c' ∈ cs, c' ∈ s.broker.clients.live) →
      (∀ c' ∈ cs, c'.conn ≠ c.conn) →
      deliveredTo c.conn t (s.addressed (publishLoop msg cs)) = [] := by
    intro cs hmem hcs
    rw [publishLoop_eq, deliveredTo, System.addressed, List.map_eq_nil_iff, List.filter_eq_nil_iff]
    intro w hw
    obtain ⟨_, hw', rfl⟩ := List.mem_map.1 hw
    obtain ⟨c', hc', rfl⟩ := List.mem_map.1 hw'
    have hc' := List.mem_of_mem_filter hc'
    simp [hown c' (hmem c' hc'), hcs c' hc']
  have hsplit : publishLoop msg (pre ++ c :: post) =
      publishLoop msg pre ++ (publishLoop msg [c] ++ publishLoop msg post) := by
    simp only [publishLoop_eq, ← List.map_append, ← List.filter_append, List.singleton_append]
  rw [hlive, hsplit, System.addressed, List.map_append, List.map_append, deliveredTo_append,
    deliveredTo_append]
  have hpre := hothers pre (fun c' h ↦ by simp [hlive, h]) fun c' h ↦ hne c' (by simp [h])
  have hpost := hothers post (fun c' h ↦ by simp [hlive, h]) fun c' h ↦ hne c' (by simp [h])
  rw [System.addressed] at hpre hpost
  rw [hpre, hpost, List.nil_append, List.append_nil, publishLoop_eq, ← hf.subscribed c hc]
  by_cases htopic : cstr msg.topic = t
  · by_cases hsub : t ∈ c.subscribed
    · simp [deliveredTo, htopic, hsub, hown c hc]
    · simp [deliveredTo, htopic, hsub]
  · simp only [deliveredTo, htopic, false_and, if_false, List.map_eq_nil_iff,
      List.filter_eq_nil_iff]
    intro w hw
    obtain ⟨_, hw', rfl⟩ := List.mem_map.1 hw
    obtain ⟨c', -, rfl⟩ := List.mem_map.1 hw'
    simp [htopic]

/-- What a frame writes: nothing, the message it publishes, or, to its sender, the message retained
for the topic it subscribes to. -/
theorem sent_frame {h : Handler} (hf : Faithful hist s) (hk : s.handlers[k]? = some h)
    (hphase : h.phase = .serving) (hok : EventOk (.frame k msg)) :
    match command msg with
    | .subscribe t =>
      (∃ c ∈ s.broker.clients.live, c.conn = k ∧ c.subscriptions.count < ipcMaxTopics) ∧
        s.addressed (handleFrame s.broker h.fd msg).2 =
          (Ipc.retained s.broker.topics t).toList.map (fun m ↦ (.conn k, m)) ∨
      (∀ c ∈ s.broker.clients.live, c.conn = k → ¬ c.subscriptions.count < ipcMaxTopics) ∧
        s.addressed (handleFrame s.broker h.fd msg).2 = []
    | .unsubscribe _ => s.addressed (handleFrame s.broker h.fd msg).2 = []
    | .publish _ => s.addressed (handleFrame s.broker h.fd msg).2 =
        s.addressed (publishLoop msg s.broker.clients.live) := by
  have hown := hf.inv.owner_of_handler k h hk (by rw [hphase]; nofun)
  have hconn : ∀ c ∈ s.broker.clients.live, c.fd = h.fd ↔ c.conn = k := by
    refine fun c hc ↦ ⟨hf.inv.conn_eq hk (by rw [hphase]; nofun) hc, ?_⟩
    rintro rfl
    rw [hf.inv.handler_of_mem c hc, Option.some.injEq] at hk
    rw [← hk]
  rw [handleFrame_eq]
  cases hcmd : command msg with
  | subscribe t =>
    obtain rfl := data_of_command (Or.inl hcmd)
    rw [EventOk, hcmd] at hok
    rcases writes_ipcSubscribe hf.topicsTerminated hf.inv.fdNodup hok h.fd with
      ⟨⟨c, hc, hfd, hroom⟩, heq⟩ | ⟨hfull, heq⟩
    · refine Or.inl ⟨⟨c, hc, (hconn c hc).1 hfd, hroom⟩, ?_⟩
      simp [heq, System.addressed, Function.comp_def, hown]
    · refine Or.inr ⟨fun c hc hck ↦ hfull c hc ((hconn c hc).2 hck), ?_⟩
      simp [heq, System.addressed]
  | unsubscribe t => rfl
  | publish t => rfl

/-- The event ends the subscription of `k` to `t`, or repeats it. -/
def Event.Changes (k : ℕ) (t : Bytes) : Event → Prop
  | .leave j => j = k
  | .frame j msg => j = k ∧ (command msg = .subscribe t ∨ command msg = .unsubscribe t)
  | _ => False

/-- Connection `k` has an entry in the client table and is subscribed to `t`. -/
structure Listening (k : ℕ) (t : Bytes) (hist : List Event) (s : System) : Prop where
  /-- The tables agree with the history. -/
  faithful : Faithful hist s
  /-- There is an entry. -/
  entry : ∃ c ∈ s.broker.clients.live, c.conn = k
  /-- The topic is among its subscriptions. -/
  subscribed : t ∈ subscriptions k hist

/-- An entry stays until its connection's handler leaves. -/
theorem entry_step (hinv : s.Inv) (hentry : ∃ c ∈ s.broker.clients.live, c.conn = k)
    (hleave : e ≠ .leave k) (hstep : system.step s e = some s') :
    ∃ c ∈ s'.broker.clients.live, c.conn = k := by
  obtain ⟨c, hc, hck⟩ := hentry
  cases e with
  | accept fd =>
    obtain ⟨-, hs'⟩ := Option.ite_none_right_eq_some.1 hstep
    obtain rfl := Option.some.inj hs'
    exact ⟨c, hc, hck⟩
  | register j now =>
    obtain ⟨h, hh, rfl⟩ := Option.map_eq_some_iff.1 hstep
    refine ⟨c, ?_, hck⟩
    show c ∈ (Ipc.register s.broker j h.fd now).clients.live
    rw [Ipc.register]
    split
    · exact PackedTable.mem_live_append.2 (Or.inl hc)
    · exact hc
  | frame j msg =>
    obtain ⟨h, hh, rfl⟩ := Option.map_eq_some_iff.1 hstep
    have hmap := List.mem_map_of_mem (f := fun c : IPCClient ↦ (c.conn, c.fd)) hc
    rw [← map_conn_fd_handleFrame s.broker h.fd msg] at hmap
    obtain ⟨c', hc', hsame⟩ := List.mem_map.1 hmap
    exact ⟨c', hc', (congrArg Prod.fst hsame).trans hck⟩
  | partialRead j =>
    obtain ⟨h, hh, rfl⟩ := Option.map_eq_some_iff.1 hstep
    exact ⟨c, hc, hck⟩
  | leave j =>
    obtain ⟨h, hh, rfl⟩ := Option.map_eq_some_iff.1 hstep
    obtain ⟨hj, hphase⟩ := handlerIn_eq_some.1 hh
    refine ⟨c, ((removeClient_spec hinv.fdNodup h.fd).1 c).2 ⟨hc, fun hfd ↦ hleave ?_⟩, hck⟩
    rw [← hinv.conn_eq hj (by rw [hphase]; rintro ⟨⟩) hc hfd, hck]

/-- A listening connection goes on listening. -/
theorem Listening.step (hl : Listening k t hist s) (hok : EventOk e) (hkeep : ¬ e.Changes k t)
    (hstep : system.step s e = some s') : Listening k t (hist ++ [e]) s' := by
  have hleave : e ≠ .leave k := by
    rintro rfl
    exact hkeep rfl
  refine ⟨hl.faithful.step hok hstep, entry_step hl.faithful.inv hl.entry hleave hstep, ?_⟩
  rw [subscriptions_concat]
  cases e with
  | register j now =>
    rw [subStep, if_neg]
    · exact hl.subscribed
    -- a handler registers before it has an entry
    rintro rfl
    obtain ⟨h, hh, -⟩ := Option.map_eq_some_iff.1 hstep
    obtain ⟨hj, hphase⟩ := handlerIn_eq_some.1 hh
    obtain ⟨c, hc, rfl⟩ := hl.entry
    rw [hl.faithful.inv.handler_of_mem c hc, Option.some.injEq] at hj
    rw [← hj] at hphase
    cases hphase
  | frame j msg =>
    rw [subStep]
    split
    next hjk =>
      cases hcmd : command msg with
      | subscribe t' =>
        dsimp only
        split
        · exact List.mem_append_left _ hl.subscribed
        · exact hl.subscribed
      | unsubscribe t' =>
        have hne : t ≠ t' := by
          rintro rfl
          exact hkeep ⟨hjk, Or.inr hcmd⟩
        exact (List.mem_erase_of_ne hne).2 hl.subscribed
      | publish t' => exact hl.subscribed
    next => exact hl.subscribed
  | _ => exact hl.subscribed

/-- **What one event delivers to a subscriber**: the message it publishes on the topic, once. -/
theorem deliveredTo_step (hl : Listening k t hist s) (hok : EventOk e) (hkeep : ¬ e.Changes k t)
    (hstep : system.step s e = some s') :
    deliveredTo k t s'.sent = deliveredTo k t s.sent ++ (publishes t e).toList := by
  cases e with
  | frame j msg =>
    obtain ⟨h, hh, rfl⟩ := Option.map_eq_some_iff.1 hstep
    obtain ⟨hj, hphase⟩ := handlerIn_eq_some.1 hh
    have hsent := sent_frame hl.faithful hj hphase hok
    show deliveredTo k t (s.sent ++ s.addressed (handleFrame s.broker h.fd msg).2) = _
    rw [deliveredTo_append, publishes]
    congr 1
    cases hcmd : command msg with
    | subscribe t' =>
      rw [hcmd] at hsent
      rcases hsent with ⟨-, hsent⟩ | ⟨-, hsent⟩
      · rw [hsent, deliveredTo, List.map_eq_nil_iff.2]
        · rfl
        refine List.filter_eq_nil_iff.2 fun w hw ↦ ?_
        obtain ⟨m, hm, rfl⟩ := List.mem_map.1 hw
        have htopic := hl.faithful.topic_of_retained (Option.mem_toList.1 hm)
        -- the answer goes to the sender, which subscribes to another topic if it is `k`
        simp only [Owner.conn.injEq, htopic, decide_eq_true_eq]
        rintro ⟨rfl, rfl⟩
        exact hkeep ⟨rfl, Or.inl hcmd⟩
      · rw [hsent]
        rfl
    | unsubscribe t' =>
      rw [hcmd] at hsent
      rw [hsent]
      rfl
    | publish t' =>
      rw [hcmd] at hsent
      obtain ⟨c, hc, rfl⟩ := hl.entry
      rw [hsent, deliveredTo_publish hl.faithful hc, topic_of_command hcmd]
      by_cases ht : t' = t
      · rw [if_pos ⟨ht, hl.subscribed⟩, ht, if_pos rfl]
        rfl
      · rw [if_neg fun h ↦ ht h.1, if_neg fun h ↦ ht (Command.publish.inj h)]
        rfl
  | accept fd =>
    obtain ⟨-, hs'⟩ := Option.ite_none_right_eq_some.1 hstep
    obtain rfl := Option.some.inj hs'
    exact (List.append_nil _).symm
  | _ =>
    obtain ⟨_, -, rfl⟩ := Option.map_eq_some_iff.1 hstep
    exact (List.append_nil _).symm

/-- A run delivers to a listening connection what it publishes on the topic. -/
theorem deliveredTo_run {ls : List Event} (hl : Listening k t hist s)
    (hls : ∀ e ∈ ls, EventOk e ∧ ¬ e.Changes k t) (hrun : system.run s ls = some s') :
    deliveredTo k t s'.sent = deliveredTo k t s.sent ++ publishedOn t ls := by
  refine (Machine.invariant_of_history
    (I := fun ls s' ↦ (∀ e ∈ ls, EventOk e ∧ ¬ e.Changes k t) → Listening k t (hist ++ ls) s' ∧
      deliveredTo k t s'.sent = deliveredTo k t s.sent ++ publishedOn t ls)
    (fun ls₀ s e s' ih hstep hls₀ ↦ ?_) (fun _ ↦ ?_) hrun hls).2
  · obtain ⟨hl₀, hsent⟩ := ih fun e' he' ↦ hls₀ e' (List.mem_append_left _ he')
    obtain ⟨hok, hkeep⟩ := hls₀ e (by simp)
    refine ⟨List.append_assoc .. ▸ hl₀.step hok hkeep hstep, ?_⟩
    have hpub : (publishes t e).toList = publishedOn t [e] := by
      cases hp : publishes t e <;> simp [publishedOn, hp]
    rw [deliveredTo_step hl₀ hok hkeep hstep, hsent, publishedOn_append, List.append_assoc, hpub]
  · rw [List.append_nil]
    exact ⟨hl, (List.append_nil _).symm⟩

/-- **A subscription is answered with the last message** published on the topic, and from then on
its client is listening. -/
theorem listening_subscribe (hf : Faithful hist s)
    (hentry : ∃ c ∈ s.broker.clients.live, c.conn = k ∧ c.subscriptions.count < ipcMaxTopics)
    (havail : Available s.broker.topics t) (hcmd : command msg = .subscribe t)
    (hok : EventOk (.frame k msg)) (hstep : system.step s (.frame k msg) = some s') :
    Listening k t (hist ++ [.frame k msg]) s' ∧
      deliveredTo k t s'.sent = deliveredTo k t s.sent ++ (lastPublished t hist).toList := by
  obtain ⟨c, hc, hck, hroom⟩ := hentry
  refine ⟨⟨hf.step hok hstep, entry_step hf.inv ⟨c, hc, hck⟩ (by nofun) hstep, ?_⟩, ?_⟩
  · rw [subscriptions_concat, subStep, if_pos rfl, hcmd]
    have hlen : (subscriptions k hist).length < ipcMaxTopics := by
      rwa [← hck, ← hf.subscribed c hc, length_subscribed]
    dsimp only
    rw [if_pos hlen]
    simp
  · obtain ⟨h, hh, rfl⟩ := Option.map_eq_some_iff.1 hstep
    obtain ⟨hk, hphase⟩ := handlerIn_eq_some.1 hh
    have hsent := sent_frame hf hk hphase hok
    rw [hcmd] at hsent
    show deliveredTo k t (s.sent ++ s.addressed (handleFrame s.broker h.fd msg).2) = _
    rcases hsent with ⟨-, hsent⟩ | ⟨hfull, -⟩
    · rw [deliveredTo_append, hsent, hf.retained t havail]
      congr 1
      cases hlast : lastPublished t hist with
      | none => rfl
      | some m => simp [deliveredTo, topic_of_lastPublished hlast]
    · exact absurd hroom (hfull c hc hck)

/-- **Nothing is written but to subscribers of its topic.** -/
theorem sent_to_subscribers (hf : Faithful hist s) (hok : EventOk e)
    (hstep : system.step s e = some s') :
    ∃ writes, s'.sent = s.sent ++ writes ∧
      ∀ w ∈ writes, ∃ k, w.1 = .conn k ∧ cstr w.2.topic ∈ subscriptions k (hist ++ [e]) := by
  cases e with
  | frame j msg =>
    obtain ⟨h, hh, rfl⟩ := Option.map_eq_some_iff.1 hstep
    obtain ⟨hj, hphase⟩ := handlerIn_eq_some.1 hh
    refine ⟨s.addressed (handleFrame s.broker h.fd msg).2, rfl, fun w hw ↦ ?_⟩
    have hsent := sent_frame hf hj hphase hok
    cases hcmd : command msg with
    | subscribe t =>
      rw [hcmd] at hsent
      rcases hsent with ⟨⟨c, hc, hcj, hroom⟩, hsent⟩ | ⟨-, hsent⟩
      · rw [hsent] at hw
        obtain ⟨m, hm, rfl⟩ := List.mem_map.1 hw
        refine ⟨j, rfl, ?_⟩
        have hlen : (subscriptions j hist).length < ipcMaxTopics := by
          rwa [← hcj, ← hf.subscribed c hc, length_subscribed]
        rw [hf.topic_of_retained (Option.mem_toList.1 hm), subscriptions_concat, subStep,
          if_pos rfl, hcmd]
        dsimp only
        rw [if_pos hlen]
        simp
      · rw [hsent] at hw
        cases hw
    | unsubscribe t =>
      rw [hcmd] at hsent
      rw [hsent] at hw
      cases hw
    | publish t =>
      rw [hcmd] at hsent
      rw [hsent, publishLoop_eq] at hw
      obtain ⟨_, hw', rfl⟩ := List.mem_map.1 hw
      obtain ⟨c, hc, rfl⟩ := List.mem_map.1 hw'
      obtain ⟨hlive, hsub⟩ := List.mem_filter.1 hc
      refine ⟨c.conn, hf.inv.owner_of_mem hlive, ?_⟩
      have hmem : cstr msg.topic ∈ c.subscribed := of_decide_eq_true hsub
      rw [hf.subscribed c hlive] at hmem
      rw [subscriptions_concat, subStep, hcmd]
      simpa using hmem
  | accept fd =>
    obtain ⟨-, hs'⟩ := Option.ite_none_right_eq_some.1 hstep
    obtain rfl := Option.some.inj hs'
    exact ⟨[], (List.append_nil _).symm, fun _ hw ↦ absurd hw List.not_mem_nil⟩
  | _ =>
    obtain ⟨_, -, rfl⟩ := Option.map_eq_some_iff.1 hstep
    exact ⟨[], (List.append_nil _).symm, fun _ hw ↦ absurd hw List.not_mem_nil⟩

/-- **Broker delivery.** After any history, a registered client with a free slot that subscribes to
a topic with an entry, or room for one, is sent the last message published on it before, and then
every later one, once each and in order, for as long as it does not unsubscribe, subscribe again
or leave; and no event ever writes a message to anyone who is not subscribed to its topic. -/
theorem broker_delivery {s₀ s₁ : System} {ls₁ : List Event} (h₀ : system.Init s₀)
    (hrun₁ : system.run s₀ ls₁ = some s₁) (hok₁ : ∀ e ∈ ls₁, EventOk e) :
    (∀ k msg t ls₂ s₂,
      (∃ c ∈ s₁.broker.clients.live, c.conn = k ∧ c.subscriptions.count < ipcMaxTopics) →
      Available s₁.broker.topics t → command msg = .subscribe t → EventOk (.frame k msg) →
      (∀ e ∈ ls₂, EventOk e ∧ ¬ e.Changes k t) →
      system.run s₁ (.frame k msg :: ls₂) = some s₂ →
      deliveredTo k t s₂.sent =
        deliveredTo k t s₁.sent ++ ((lastPublished t ls₁).toList ++ publishedOn t ls₂)) ∧
    ∀ e s', EventOk e → system.step s₁ e = some s' → ∃ writes, s'.sent = s₁.sent ++ writes ∧
      ∀ w ∈ writes, ∃ k, w.1 = .conn k ∧ cstr w.2.topic ∈ subscriptions k (ls₁ ++ [e]) := by
  have hf := faithful_of_run h₀ hrun₁ hok₁
  refine ⟨fun k msg t ls₂ s₂ hentry havail hcmd hok hls₂ hrun ↦ ?_,
    fun e s' hok hstep ↦ sent_to_subscribers hf hok hstep⟩
  obtain ⟨s', hstep, hrest⟩ := system.run_cons_eq_some.1 hrun
  obtain ⟨hl, hsub⟩ := listening_subscribe hf hentry havail hcmd hok hstep
  rw [deliveredTo_run hl hls₂ hrest, hsub, List.append_assoc]

/-- A message with a topic and a text. -/
def IPCMessage.ofText (topic data : Bytes) : IPCMessage where
  bytes := [((Buf.zero 64).strncpy topic 63 Buf.le_64).bytes,
    ((Buf.zero 8192).strncpy data 8191 Buf.le_8192).bytes, List.replicate 24 0].flatten
  length_bytes := by
    simp only [List.flatten_cons, List.length_append, Buf.length_bytes]
    rfl

/-- A text stored in an empty field is what a string function reads there. -/
theorem cstr_strncpy_zero_append {n : ℕ} {src : Bytes} (h : (cstr src).length ≤ n) (rest : Bytes) :
    cstr (((Buf.zero (n + 1)).strncpy src n (Nat.le_succ n)).bytes ++ rest) = cstr src := by
  have hzero : LastZero (Buf.zero (n + 1)).bytes := lastZero_replicate (Nat.succ_pos n)
  have hlast : LastZero ((Buf.zero (n + 1)).strncpy src n (Nat.le_succ n)).bytes :=
    lastZero_strncpy (Buf.length_bytes _) hzero
  rw [cstr_append_of_mem hlast.mem_zero]
  exact cstr_strncpy_of_le (Buf.length_bytes _) hzero h

theorem topic_ofText {topic : Bytes} (h : (cstr topic).length ≤ 63) (data : Bytes) :
    cstr (IPCMessage.ofText topic data).topic = cstr topic := by
  rw [IPCMessage.topic, Image.memFrom_flatten [] _ rfl rfl, List.flatten_cons]
  exact cstr_strncpy_zero_append h _

theorem data_ofText {data : Bytes} (topic : Bytes) (h : (cstr data).length ≤ 8191) :
    cstr (IPCMessage.ofText topic data).data = cstr data := by
  rw [IPCMessage.data, Image.memFrom_flatten [_] _ rfl (by simp [Buf.length_bytes]; rfl),
    List.flatten_cons]
  exact cstr_strncpy_zero_append h _

/-- One client subscribes to the topic `a`; another publishes on it. -/
theorem broker_delivery_two_clients :
    ∃ s₁ s₂, system.run .start [.accept 5, .register 0 0, .accept 6, .register 1 0] = some s₁ ∧
      system.run s₁ [.frame 0 (.ofText (.ofAscii "__subscribe__") (.ofAscii "a")),
        .frame 1 (.ofText (.ofAscii "a") (.ofAscii "x"))] = some s₂ ∧
      deliveredTo 0 (.ofAscii "a") s₂.sent = [.ofText (.ofAscii "a") (.ofAscii "x")] := by
  have hsub : command (.ofText (.ofAscii "__subscribe__") (.ofAscii "a")) =
      .subscribe (.ofAscii "a") := by
    rw [command, topic_ofText (by decide), data_ofText _ (by decide)]
    rfl
  have hpub : command (.ofText (.ofAscii "a") (.ofAscii "x")) = .publish (.ofAscii "a") := by
    rw [command, topic_ofText (by decide)]
    rfl
  refine ⟨_, _, rfl, rfl, ?_⟩
  have hrun : system.run .start [.accept 5, .register 0 0, .accept 6, .register 1 0] = some _ := rfl
  have h := (broker_delivery System.init_start hrun (by simp [EventOk])).1 0 _ _
    [.frame 1 (.ofText (.ofAscii "a") (.ofAscii "x"))] _
    ⟨_, List.mem_cons_self .., rfl, by decide⟩ (Or.inr (by decide)) hsub
    (by rw [EventOk, hsub]; decide) (by simp [EventOk, Event.Changes, hpub]; decide) rfl
  rw [h]
  simp [lastPublished, publishedOn, publishes, hpub]
  rfl

end JuliusOS.Ipc
