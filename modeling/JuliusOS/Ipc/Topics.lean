import JuliusOS.Foundations.CutTable
import JuliusOS.Ipc.Unsubscribe

/-!
# The names in the topic table

`find_or_create_topic` looks a topic up in full and stores its first 63 bytes, in a table of 128
entries that never loses one: a `CutTable`. Every publish asks it for a topic, and so does a
subscription of a client that has a free slot.

A subscription may name a topic of up to 8191 bytes, which is then never found again. So the names
are pairwise distinct, and only topics after the first 128 distinct ones are not retained, exactly
as long as no topic is added whose first 63 bytes are an entry's name (`topicsDistinct_iff`).
-/

open CString StructLayout

namespace JuliusOS.Ipc

variable {topics : PackedTable IPCTopic ipcMaxTopics} {b : Broker} {msg : IPCMessage}
  {topic t : Bytes} {fd : ℕ}

/-! ### The table as a list of names -/

/-- The names in `topics[0..topic_count-1]`. -/
def topicNames (topics : PackedTable IPCTopic ipcMaxTopics) : List Bytes :=
  topics.live.map IPCTopic.name

theorem length_topicNames (topics : PackedTable IPCTopic ipcMaxTopics) :
    (topicNames topics).length = topics.count := by
  rw [topicNames, List.length_map, PackedTable.length_live]

/-- What is copied into a name field ends after 63 bytes. -/
abbrev cutName (topic : Bytes) : Bytes := topic.take 63

/-- A name ends before the last byte of its field. -/
theorem cutName_of_mem (hterm : topics.AllSlots IPCTopic.Terminated) (ht : t ∈ topicNames topics) :
    cutName t = t := by
  obtain ⟨e, he, rfl⟩ := List.mem_map.1 ht
  have hlast : LastZero e.topic.bytes := hterm.of_mem_live he
  have hlt := length_cstr_lt_of_mem hlast.mem_zero
  rw [Buf.length_bytes] at hlt
  exact List.take_of_length_le (Nat.le_of_lt_succ hlt)

/-- **`find_or_create_topic` asks the table of names.** -/
theorem topicNames_findOrCreateTopic (hterm : topics.AllSlots IPCTopic.Terminated)
    (topic : Bytes) :
    topicNames (findOrCreateTopic topics topic).1 =
      CutTable.ask ipcMaxTopics cutName (topicNames topics) (cstr topic) := by
  unfold CutTable.ask
  rw [length_topicNames]
  rcases findOrCreateTopic_cases topics topic with
    ⟨i, hfind, heq⟩ | ⟨hnone, hroom, heq⟩ | ⟨hunavail, heq⟩
  · have hmem : cstr topic ∈ topicNames topics := by
      by_contra hnot
      rw [PackedTable.find?_eq_none_iff.2 (PackedTable.lookup_eq_none_iff.2 hnot)] at hfind
      cases hfind
    rw [heq, if_pos hmem]
  · have hnot : cstr topic ∉ topicNames topics := PackedTable.lookup_eq_none_iff.1 hnone
    have hlast : LastZero (topics.nextSlot hroom).topic.bytes := hterm.nextSlot hroom
    rw [heq, if_neg hnot, if_pos hroom, topicNames, PackedTable.live_append, List.map_append,
      List.map_singleton, IPCTopic.name, nameTopic, Buf.strncpy]
    dsimp only
    rw [cstr_strncpy (Buf.length_bytes _) hlast]
    rfl
  · have hnot : cstr topic ∉ topicNames topics :=
      fun hmem ↦ hunavail (.inl fun hnone ↦ PackedTable.lookup_eq_none_iff.1 hnone hmem)
    rw [heq, if_neg hnot, if_neg fun hroom ↦ hunavail (.inr hroom)]

theorem terminated_findOrCreateTopic (hterm : topics.AllSlots IPCTopic.Terminated)
    (topic : Bytes) : (findOrCreateTopic topics topic).1.AllSlots IPCTopic.Terminated := by
  rcases findOrCreateTopic_cases topics topic with ⟨i, -, heq⟩ | ⟨-, hroom, heq⟩ | ⟨-, heq⟩
  · rw [heq]
    exact hterm
  · rw [heq]
    exact hterm.append fun e he ↦ terminated_nameTopic he topic
  · rw [heq]
    exact hterm

/-! ### What a frame asks the table for -/

/-- The client whose handler a frame of `fd` comes from, where it can subscribe once more. -/
def canSubscribe (b : Broker) (fd : ℕ) : Bool :=
  ((findClient b.clients fd).bind fun i ↦ b.clients.live[i]?).any fun c ↦
    decide (c.subscriptions.count < ipcMaxTopics)

/-- The topic that `find_or_create_topic` is called with for a frame, if it is. -/
def asksFor (b : Broker) (fd : ℕ) (msg : IPCMessage) : Option Bytes :=
  match command msg with
  | .publish t => some t
  | .subscribe t => if canSubscribe b fd then some t else none
  | .unsubscribe _ => none

/-- The names after something may have been asked for. -/
def askFor (names : List Bytes) (asks : Option Bytes) : List Bytes :=
  asks.elim names (CutTable.ask ipcMaxTopics cutName names)

/-- What the topic table is after an operation that asks it for `asks`. -/
def AskedFor (topics topics' : PackedTable IPCTopic ipcMaxTopics) (asks : Option Bytes) : Prop :=
  topics'.AllSlots IPCTopic.Terminated ∧ topicNames topics' = askFor (topicNames topics) asks

theorem ipcPublish_asks (hterm : b.topics.AllSlots IPCTopic.Terminated) (msg : IPCMessage) :
    AskedFor b.topics (ipcPublish b msg).1.topics (some (cstr msg.topic)) := by
  have hnames := topicNames_findOrCreateTopic hterm msg.topic
  have hterm' := terminated_findOrCreateTopic hterm msg.topic
  rw [ipcPublish]
  cases hi : (findOrCreateTopic b.topics msg.topic).2 with
  | none =>
    simp only [hi]
    exact ⟨hterm', hnames⟩
  | some i =>
    simp only [hi]
    refine ⟨hterm'.modify fun _ he ↦ he, ?_⟩
    have hname : ∀ e, (retain msg e).name = e.name := fun _ ↦ rfl
    rw [topicNames, PackedTable.map_key_modify hname]
    exact hnames

theorem ipcSubscribe_asks (hterm : b.topics.AllSlots IPCTopic.Terminated) (fd : ℕ)
    (topic : Bytes) :
    AskedFor b.topics (ipcSubscribe b fd topic).1.topics
      (if canSubscribe b fd then some (cstr topic) else none) := by
  rw [ipcSubscribe]
  cases hfind : findClient b.clients fd with
  | none =>
    have hcan : canSubscribe b fd = false := by rw [canSubscribe, hfind]; rfl
    rw [hcan]
    exact ⟨hterm, rfl⟩
  | some i =>
    dsimp only
    cases hc : b.clients.live[i]? with
    | none =>
      have hcan : canSubscribe b fd = false := by
        rw [canSubscribe, hfind, Option.bind_some, hc]
        rfl
      rw [hcan]
      exact ⟨hterm, rfl⟩
    | some c =>
      have hcan : canSubscribe b fd = decide (c.subscriptions.count < ipcMaxTopics) := by
        rw [canSubscribe, hfind, Option.bind_some, hc]
        rfl
      rw [hcan]
      dsimp only
      by_cases hroom : c.subscriptions.count < ipcMaxTopics
      · rw [if_pos hroom, if_pos (decide_eq_true hroom)]
        exact ⟨terminated_findOrCreateTopic hterm topic, topicNames_findOrCreateTopic hterm topic⟩
      · rw [if_neg hroom, if_neg (by rwa [decide_eq_true_eq])]
        exact ⟨hterm, rfl⟩

/-- **What a frame does to the names.** -/
theorem handleFrame_asks (hterm : b.topics.AllSlots IPCTopic.Terminated) (fd : ℕ)
    (msg : IPCMessage) :
    AskedFor b.topics (handleFrame b fd msg).1.topics (asksFor b fd msg) := by
  rw [handleFrame_eq, asksFor]
  cases hcmd : command msg with
  | subscribe t =>
    obtain rfl := data_of_command (Or.inl hcmd)
    exact ipcSubscribe_asks hterm fd msg.data
  | unsubscribe t =>
    simp only [ipcUnsubscribe_topics]
    exact ⟨hterm, rfl⟩
  | publish t =>
    obtain rfl := topic_of_command hcmd
    exact ipcPublish_asks hterm msg

/-! ### Runs -/

/-- The broker, and the distinct topics that the table has been asked for so far, in the order they
were asked for first. -/
structure Watched where
  system : System
  asked : List Bytes

/-- What an event asks the table for. -/
def System.asks (s : System) : Event → Option Bytes
  | .frame k msg => (s.handlerIn k .serving).bind fun h ↦ asksFor s.broker h.fd msg
  | _ => none

/-- The system, with the topics it is asked for. -/
def watched : Machine Watched Event where
  Init w := system.Init w.system ∧ w.asked = []
  step w e := (system.step w.system e).map fun s' ↦
    ⟨s', (w.system.asks e).elim w.asked (CutTable.record w.asked)⟩

/-- What is promised of the topic table. -/
structure TopicsDistinct (w : Watched) : Prop where
  /-- The names are pairwise distinct. -/
  nodup : (topicNames w.system.broker.topics).Nodup
  /-- A topic that is not retained is none of the first 128 distinct ones. -/
  late : ∀ t : Bytes, t.length ≤ 63 → ¬ Available w.system.broker.topics t →
    ipcMaxTopics ≤ w.asked.length ∧ t ∉ w.asked.take ipcMaxTopics

/-- An event adds no topic whose first 63 bytes are an entry's name. -/
def AddsFresh (w : Watched) (e : Event) : Prop :=
  ∀ t ∈ w.system.asks e, t ∉ topicNames w.system.broker.topics →
    w.system.broker.topics.count < ipcMaxTopics → cutName t ∉ topicNames w.system.broker.topics

/-! ### One event -/

variable {w w' : Watched} {e : Event} {s s' : System}

/-- **What an event does to the names.** -/
theorem step_asks (hterm : s.broker.topics.AllSlots IPCTopic.Terminated)
    (h : system.step s e = some s') :
    AskedFor s.broker.topics s'.broker.topics (s.asks e) := by
  cases e with
  | accept fd =>
    obtain ⟨-, hs'⟩ := Option.ite_none_right_eq_some.1 h
    obtain rfl := Option.some.inj hs'
    exact ⟨hterm, rfl⟩
  | register k now =>
    obtain ⟨hd, -, rfl⟩ := Option.map_eq_some_iff.1 h
    rw [AskedFor, register_topics]
    exact ⟨hterm, rfl⟩
  | frame k msg =>
    obtain ⟨hd, hhd, rfl⟩ := Option.map_eq_some_iff.1 h
    rw [System.asks, hhd, Option.bind_some]
    exact handleFrame_asks hterm hd.fd msg
  | partialRead k =>
    obtain ⟨hd, -, rfl⟩ := Option.map_eq_some_iff.1 h
    exact ⟨hterm, rfl⟩
  | leave k =>
    obtain ⟨hd, -, rfl⟩ := Option.map_eq_some_iff.1 h
    dsimp only
    rw [AskedFor, (removeClient_frame s.broker hd.fd).1]
    exact ⟨hterm, rfl⟩

/-- The table's name fields are terminated, and it holds the cuts of what was asked for. -/
structure TableTidy (w : Watched) : Prop where
  terminated : w.system.broker.topics.AllSlots IPCTopic.Terminated
  tidy : CutTable.Tidy ipcMaxTopics cutName (topicNames w.system.broker.topics) w.asked

theorem TableTidy.distinct (h : TableTidy w) : TopicsDistinct w where
  nodup := h.tidy.nodup
  late t hlen hunavail := by
    have hnot : t ∉ topicNames w.system.broker.topics :=
      fun hmem ↦ hunavail (.inl fun hnone ↦ PackedTable.lookup_eq_none_iff.1 hnone hmem)
    refine h.tidy.late (List.take_of_length_le hlen) hnot ?_
    rw [length_topicNames]
    exact Nat.le_of_not_lt fun hroom ↦ hunavail (.inr hroom)

/-- An event that adds nothing but fresh topics keeps the table tidy. -/
theorem TableTidy.step (h : TableTidy w) (hok : AddsFresh w e)
    (hstep : watched.step w e = some w') : TableTidy w' := by
  obtain ⟨s', hs', rfl⟩ := Option.map_eq_some_iff.1 hstep
  obtain ⟨hterm', hnames⟩ := step_asks h.terminated hs'
  refine ⟨hterm', ?_⟩
  dsimp only
  rw [hnames]
  cases hasks : w.system.asks e with
  | none => exact h.tidy
  | some t =>
    have hfresh : CutTable.Fresh ipcMaxTopics cutName (topicNames w.system.broker.topics) t := by
      intro hnot hroom
      rw [length_topicNames] at hroom
      exact hok t hasks hnot hroom
    exact h.tidy.ask hfresh fun hmem ↦ cutName_of_mem h.terminated hmem

/-- Any other event makes a duplicate. -/
theorem TableTidy.not_distinct (h : TableTidy w) (hok : ¬ AddsFresh w e)
    (hstep : watched.step w e = some w') : ¬ TopicsDistinct w' := by
  obtain ⟨s', hs', rfl⟩ := Option.map_eq_some_iff.1 hstep
  obtain ⟨-, hnames⟩ := step_asks h.terminated hs'
  intro hdistinct
  have hnodup := hdistinct.nodup
  dsimp only at hnodup
  rw [hnames] at hnodup
  refine hok fun t hasks hnot hroom ↦ ?_
  rw [Option.mem_def.1 hasks] at hnodup
  rw [← length_topicNames] at hroom
  exact (CutTable.nodup_ask_iff h.tidy.nodup).1 hnodup hnot hroom

theorem tableTidy_init (hinit : watched.Init w) : TableTidy w := by
  obtain ⟨⟨hbroker, -⟩, hasked⟩ := hinit
  constructor
  · rw [hbroker]
    exact PackedTable.allSlots_empty (lastZero_replicate (by decide))
  · rw [hbroker, hasked]
    exact CutTable.tidy_nil ipcMaxTopics cutName

/-! ### Every run -/

/-- **In every state of a run the names are distinct, and only topics after the first 128 are not
retained, exactly if the run adds no topic whose first 63 bytes are an entry's name.** -/
theorem topicsDistinct_iff (hinit : watched.Init w) {es : List Event}
    (hrun : watched.run w es = some w') :
    watched.Guarded AddsFresh w es ↔
      ∀ n u, watched.run w (es.take n) = some u → TopicsDistinct u :=
  Machine.guarded_iff_of_invariant (fun _ h ↦ h.distinct) (fun _ _ _ h ↦ h.step)
    (fun _ _ _ h ↦ h.not_distinct) (tableTidy_init hinit) hrun

/-- A frame asks for no topic but the one it names. -/
theorem eq_topic_of_asksFor (h : asksFor b fd msg = some t) : (command msg).topic = t := by
  unfold asksFor at h
  split at h
  next hcmd =>
    rw [hcmd]
    exact Option.some.inj h
  next hcmd =>
    rw [hcmd]
    exact Option.some.inj (Option.ite_none_right_eq_some.1 h).2
  next => cases h

/-- Topics of at most 63 bytes are always fresh. -/
theorem addsFresh_of_eventOk (hok : EventOk e) : AddsFresh w e := by
  intro t hasks hnot _
  cases e with
  | frame k msg =>
    obtain ⟨hd, -, hasks⟩ := Option.bind_eq_some_iff.1 hasks
    have hlen : t.length ≤ 63 := eq_topic_of_asksFor hasks ▸ hok
    rwa [cutName, List.take_of_length_le hlen]
  | accept | register | partialRead | leave => cases hasks

/-- A client subscribes to `a` twice. -/
theorem topicsDistinct_subscribed_twice : ∃ w', watched.run ⟨.start, []⟩ subscribedTwice = some w' ∧
    ∀ n u, watched.run ⟨.start, []⟩ (subscribedTwice.take n) = some u → TopicsDistinct u := by
  have hisSome : (watched.run ⟨.start, []⟩ subscribedTwice).isSome = true := by decide +kernel
  obtain ⟨w', hrun⟩ := Option.isSome_iff_exists.1 hisSome
  refine ⟨w', hrun, (topicsDistinct_iff ⟨System.init_start, rfl⟩ hrun).1 ?_⟩
  refine Machine.guarded_of_invariant (I := fun _ ↦ True) (P := EventOk)
    (fun _ _ _ hok ↦ addsFresh_of_eventOk hok) (fun _ _ _ _ _ _ ↦ trivial) trivial fun e he ↦ ?_
  have hcmd : (command (subscribeMsg [97])).topic.length ≤ 63 := by
    rw [command_subscribeMsg (.of_notMem (by decide) (by decide))]
    decide
  simp only [subscribedTwice, List.mem_cons, List.not_mem_nil, or_false] at he
  rcases he with rfl | rfl | rfl | rfl
  · trivial
  · trivial
  · exact hcmd
  · exact hcmd

/-- A topic of 64 bytes. -/
def longTopic : Bytes := List.replicate 64 97

/-- After two subscriptions to it the table has two entries of one name. -/
theorem not_topicsDistinct_long : ∃ w, watched.run ⟨.start, []⟩
    [.accept 5, .register 0 0, .frame 0 (subscribeMsg longTopic),
      .frame 0 (subscribeMsg longTopic)] = some w ∧ ¬ TopicsDistinct w := by
  have hrun : (watched.run ⟨.start, []⟩
      [.accept 5, .register 0 0, .frame 0 (subscribeMsg longTopic),
        .frame 0 (subscribeMsg longTopic)]).map (fun w ↦ topicNames w.system.broker.topics) =
      some [List.replicate 63 97, List.replicate 63 97] := by
    decide +kernel
  obtain ⟨w, hw, hnames⟩ := Option.map_eq_some_iff.1 hrun
  refine ⟨w, hw, fun hdistinct ↦ ?_⟩
  have hnodup := hdistinct.nodup
  rw [hnames] at hnodup
  exact absurd hnodup (by decide)

end JuliusOS.Ipc
