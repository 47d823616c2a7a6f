import JuliusOS.Ipc.History

/-!
# What the operations do to the tables

The topic table is a map from names to retained messages and the client table one from descriptors
to subscription lists, as long as the name fields end in a NUL. A field is only ever filled by
copies that leave its last byte alone, so they do.

* `findOrCreateTopic_spec`, `ipcPublish_topics`: the retained messages;
* `subscribed_act`, `live_handleFrame`: the subscription lists.
-/

open CString StructLayout

namespace JuliusOS.Ipc

/-! ### The topic table -/

/-- A topic entry's name. -/
def IPCTopic.name (t : IPCTopic) : Bytes := cstr t.topic.bytes

/-- A name field of the topic table ends in a NUL. -/
def IPCTopic.Terminated (t : IPCTopic) : Prop := LastZero t.topic.bytes

variable {topics : PackedTable IPCTopic ipcMaxTopics} {topic t : Bytes} {msg : IPCMessage}

/-- The topic has an entry or can get one. -/
def Available (topics : PackedTable IPCTopic ipcMaxTopics) (t : Bytes) : Prop :=
  topics.lookup IPCTopic.name t ≠ none ∨ topics.count < ipcMaxTopics

/-- The message retained for a topic. -/
def retained (topics : PackedTable IPCTopic ipcMaxTopics) (t : Bytes) : Option IPCMessage :=
  (topics.lookup IPCTopic.name t).bind fun e ↦ if e.hasLast then some e.lastMsg else none

theorem findTopic_eq (topics : PackedTable IPCTopic ipcMaxTopics) (topic : Bytes) :
    (topics.find? fun t ↦ strcmpEq t.topic.bytes topic) =
      topics.find? fun t ↦ t.name = cstr topic := by
  congr 1
  funext t
  rw [strcmpEq, beq_eq_decide]
  rfl

theorem terminated_nameTopic {e : IPCTopic} (h : e.Terminated) (topic : Bytes) :
    (nameTopic topic e).Terminated := lastZero_strncpy e.topic.length_bytes h

/-- The entry of a new topic has its name. -/
theorem name_nameTopic {e : IPCTopic} (h : e.Terminated) (hlen : (cstr topic).length ≤ 63) :
    (nameTopic topic e).name = cstr topic :=
  cstr_strncpy_of_le e.topic.length_bytes h hlen

/-- `find_or_create_topic` finds an entry, adds one, or finds the table full. -/
theorem findOrCreateTopic_cases (topics : PackedTable IPCTopic ipcMaxTopics) (topic : Bytes) :
    (∃ i, (topics.find? fun t ↦ t.name = cstr topic) = some i ∧
      findOrCreateTopic topics topic = (topics, some i)) ∨
    (topics.lookup IPCTopic.name (cstr topic) = none ∧ ∃ h : topics.count < ipcMaxTopics,
      findOrCreateTopic topics topic = (topics.append h (nameTopic topic), some topics.count)) ∨
    (¬ Available topics (cstr topic) ∧ findOrCreateTopic topics topic = (topics, none)) := by
  cases hfind : topics.find? fun t ↦ t.name = cstr topic with
  | some i => exact Or.inl ⟨i, rfl, by rw [findOrCreateTopic, findTopic_eq, hfind]⟩
  | none =>
    have hnone := PackedTable.find?_eq_none_iff.1 hfind
    by_cases hroom : topics.count < ipcMaxTopics
    · exact Or.inr (Or.inl ⟨hnone, hroom, by
        rw [findOrCreateTopic, findTopic_eq, hfind]
        exact dif_pos hroom⟩)
    · refine Or.inr (Or.inr ⟨?_, ?_⟩)
      · rintro (h | h)
        · exact h hnone
        · exact hroom h
      · rw [findOrCreateTopic, findTopic_eq, hfind]
        exact dif_neg hroom

/-- **What `find_or_create_topic` does**: it retains nothing new, makes no topic available, and
finds the topic's entry if the topic is available. -/
theorem findOrCreateTopic_spec (hterm : topics.AllSlots IPCTopic.Terminated)
    (hlen : (cstr topic).length ≤ 63) :
    (findOrCreateTopic topics topic).1.AllSlots IPCTopic.Terminated ∧
      (∀ t, retained (findOrCreateTopic topics topic).1 t = retained topics t) ∧
      (∀ t, Available (findOrCreateTopic topics topic).1 t → Available topics t) ∧
      ((∃ i, (findOrCreateTopic topics topic).2 = some i ∧
        ((findOrCreateTopic topics topic).1.find? fun t ↦ t.name = cstr topic) = some i) ∨
      ((findOrCreateTopic topics topic).2 = none ∧ ¬ Available topics (cstr topic))) := by
  rcases findOrCreateTopic_cases topics topic with
    ⟨i, hfind, heq⟩ | ⟨hnone, hroom, heq⟩ | ⟨hunavail, heq⟩
  · rw [heq]
    exact ⟨hterm, fun _ ↦ rfl, fun _ ↦ id, Or.inl ⟨i, rfl, hfind⟩⟩
  · have hname := name_nameTopic (hterm.nextSlot hroom) hlen
    have hlook := PackedTable.lookup_append hnone hname
    rw [heq]
    refine ⟨hterm.append fun e he ↦ terminated_nameTopic he topic, fun t ↦ ?_,
      fun _ _ ↦ Or.inr hroom, Or.inl ⟨_, rfl, ?_⟩⟩
    · rw [retained, retained, hlook]
      split
      next ht => rw [ht, hnone]; rfl
      next => rfl
    · exact PackedTable.find?_append hnone hname
  · rw [heq]
    exact ⟨hterm, fun _ ↦ rfl, fun _ ↦ id, Or.inr ⟨rfl, hunavail⟩⟩

/-- **A publish retains its message** for its topic, if that is available, and for no other. -/
theorem ipcPublish_topics (b : Broker) (hterm : b.topics.AllSlots IPCTopic.Terminated)
    (hlen : (cstr msg.topic).length ≤ 63) :
    (ipcPublish b msg).1.topics.AllSlots IPCTopic.Terminated ∧
      ∀ t, Available (ipcPublish b msg).1.topics t → Available b.topics t ∧
        retained (ipcPublish b msg).1.topics t =
          if t = cstr msg.topic then some msg else retained b.topics t := by
  obtain ⟨hterm', hret, havail, hfind⟩ := findOrCreateTopic_spec hterm hlen
  have hname : ∀ e, (retain msg e).name = e.name := fun _ ↦ rfl
  rw [ipcPublish]
  rcases hfind with ⟨i, hi, hfind⟩ | ⟨hi, hunavail⟩
  · obtain ⟨-, e, -, -, -, hlook⟩ := PackedTable.exists_lookup_of_find? hfind
    have hlook' := PackedTable.lookup_modify hfind hlook hname
    simp only [hi]
    refine ⟨hterm'.modify fun _ he ↦ he, fun t ht ↦ ⟨havail t ?_, ?_⟩⟩
    · rcases ht with ht | ht
      · rw [hlook'] at ht
        split at ht
        next h => exact Or.inl (by rw [h, hlook]; rintro ⟨⟩)
        next => exact Or.inl ht
      · exact Or.inr ht
    · rw [retained, hlook']
      split
      next => rfl
      next => exact hret t
  · simp only [hi]
    refine ⟨hterm', fun t ht ↦ ⟨havail t ht, ?_⟩⟩
    rw [hret, if_neg]
    rintro rfl
    exact hunavail (havail _ ht)

/-! ### The client table -/

/-- The topics in a client's subscription list. -/
def IPCClient.subscribed (c : IPCClient) : List Bytes :=
  c.subscriptions.live.map fun s ↦ cstr s.bytes

/-- The subscription fields of a slot end in a NUL. -/
def IPCClient.Terminated (c : IPCClient) : Prop :=
  c.subscriptions.AllSlots fun s ↦ LastZero s.bytes

variable {b : Broker} {c : IPCClient}

theorem length_subscribed (c : IPCClient) : c.subscribed.length = c.subscriptions.count := by
  rw [IPCClient.subscribed, List.length_map, PackedTable.length_live]

theorem terminated_addSubscription (h : c.Terminated) (topic : Bytes) :
    (addSubscription topic c).Terminated := by
  rw [addSubscription]
  split
  · exact PackedTable.AllSlots.append h fun s hs ↦ lastZero_strncpy s.length_bytes hs
  · exact h

theorem terminated_dropSubscription (h : c.Terminated) (topic : Bytes) :
    (dropSubscription topic c).Terminated := by
  rw [dropSubscription]
  split
  · exact h
  next hfind => exact PackedTable.AllSlots.eraseAt h (PackedTable.lt_count_of_find?_eq_some hfind)

/-- A subscription is added at the end, cut to 63 bytes, if there is room. -/
theorem subscribed_addSubscription (h : c.Terminated) (topic : Bytes) :
    (addSubscription topic c).subscribed =
      if c.subscribed.length < ipcMaxTopics then c.subscribed ++ [(cstr topic).take 63]
      else c.subscribed := by
  rw [length_subscribed, addSubscription]
  split
  next hroom =>
    have hlast := PackedTable.AllSlots.nextSlot h hroom
    rw [IPCClient.subscribed, PackedTable.live_append, List.map_append, List.map_singleton,
      Buf.strncpy, cstr_strncpy (Buf.length_bytes _) hlast]
    rfl
  next => rfl

/-- The first subscription to the topic is taken out. -/
theorem subscribed_dropSubscription (topic : Bytes) (c : IPCClient) :
    (dropSubscription topic c).subscribed = c.subscribed.erase (cstr topic) := by
  have hp : ∀ s : Buf 64, strcmpEq s.bytes topic = true ↔ cstr s.bytes = cstr topic :=
    fun s ↦ by rw [strcmpEq, beq_iff_eq]
  rw [dropSubscription]
  split
  next hfind =>
    have hnone := PackedTable.find?_eq_none.1 hfind
    rw [List.erase_of_not_mem]
    intro hmem
    obtain ⟨s, hs, hst⟩ := List.mem_map.1 hmem
    exact hnone s hs ((hp s).2 hst)
  next j hfind =>
    obtain ⟨pre, s, post, hlive, -, hs, hpre, -, herase⟩ := PackedTable.exists_split_of_find? hfind
    have hnot : cstr topic ∉ pre.map fun s ↦ cstr s.bytes := by
      intro hmem
      obtain ⟨s', hs', hst⟩ := List.mem_map.1 hmem
      exact hpre s' hs' ((hp s').2 hst)
    rw [IPCClient.subscribed, IPCClient.subscribed, herase, hlive, List.map_append, List.map_append,
      List.map_cons, (hp s).1 hs, List.erase_append_right _ hnot, List.erase_cons_head]

/-- What a client's own frame does to its entry. -/
def act (msg : IPCMessage) (c : IPCClient) : IPCClient :=
  match command msg with
  | .subscribe _ => addSubscription msg.data c
  | .unsubscribe _ => dropSubscription msg.data c
  | .publish _ => c

theorem conn_act (msg : IPCMessage) (c : IPCClient) : (act msg c).conn = c.conn := by
  rw [act]
  split <;> simp

/-- **The subscription list follows the client's frames.** -/
theorem subscribed_act (h : c.Terminated) (hok : (command msg).topic.length ≤ 63) :
    (act msg c).subscribed = subStep c.conn c.subscribed (.frame c.conn msg) := by
  rw [act, subStep, if_pos rfl]
  cases hcmd : command msg with
  | subscribe t =>
    obtain rfl := data_of_command (Or.inl hcmd)
    rw [hcmd] at hok
    have hlen : (cstr msg.data).length ≤ 63 := hok
    have hadd := subscribed_addSubscription h msg.data
    rw [List.take_of_length_le hlen] at hadd
    exact hadd
  | unsubscribe t =>
    obtain rfl := data_of_command (Or.inr hcmd)
    exact subscribed_dropSubscription msg.data c
  | publish t => rfl

/-- A map that only changes the entry with a descriptor, and leaves that one as it is. -/
theorem map_ite_fd_eq_self {f : IPCClient → IPCClient} {cs : List IPCClient} {fd : ℕ}
    (hf : ∀ c ∈ cs, c.fd = fd → f c = c) : cs.map (fun c ↦ if c.fd = fd then f c else c) = cs := by
  refine (List.map_congr_left (g := id) fun c hc ↦ ?_).trans (List.map_id _)
  split
  next hfd => exact hf c hc hfd
  next => rfl

theorem fd_ne_of_findClient_eq_none {fd : ℕ} (h : findClient b.clients fd = none) :
    ∀ c ∈ b.clients.live, c.fd ≠ fd := by
  simpa using PackedTable.find?_eq_none.1 h

theorem live_ipcSubscribe (hnd : b.clients.KeysNodup IPCClient.fd) (fd : ℕ) (topic : Bytes) :
    (ipcSubscribe b fd topic).1.clients.live =
      b.clients.live.map fun c ↦ if c.fd = fd then addSubscription topic c else c := by
  rw [ipcSubscribe]
  split
  next hfind =>
    exact (map_ite_fd_eq_self fun c hc hfd ↦
      absurd hfd (fd_ne_of_findClient_eq_none hfind c hc)).symm
  next i hfind =>
    obtain ⟨pre, c, post, hlive, rfl, hc, -, hmod, -⟩ := PackedTable.exists_split_of_find? hfind
    rw [show b.clients.live[pre.length]? = some c by simp [hlive]]
    dsimp only
    split
    · exact hnd.live_modify hfind
    next hfull =>
      -- the client's list is full, so that adding to it does nothing
      have hsame : addSubscription topic c = c := dif_neg hfull
      rw [← hnd.live_modify hfind, hmod, hsame, hlive]

theorem live_ipcUnsubscribe (hnd : b.clients.KeysNodup IPCClient.fd) (fd : ℕ) (topic : Bytes) :
    (ipcUnsubscribe b fd topic).clients.live =
      b.clients.live.map fun c ↦ if c.fd = fd then dropSubscription topic c else c := by
  rw [ipcUnsubscribe]
  split
  next hfind =>
    exact (map_ite_fd_eq_self fun c hc hfd ↦
      absurd hfd (fd_ne_of_findClient_eq_none hfind c hc)).symm
  next i hfind => exact hnd.live_modify hfind

/-- **A frame changes its sender's entry** and no other. -/
theorem live_handleFrame (hnd : b.clients.KeysNodup IPCClient.fd) (fd : ℕ) (msg : IPCMessage) :
    (handleFrame b fd msg).1.clients.live =
      b.clients.live.map fun c ↦ if c.fd = fd then act msg c else c := by
  rw [handleFrame_eq]
  unfold act
  cases command msg with
  | subscribe t => exact live_ipcSubscribe hnd fd msg.data
  | unsubscribe t => exact live_ipcUnsubscribe hnd fd msg.data
  | publish t => exact (map_ite_fd_eq_self fun _ _ _ ↦ rfl).symm

end JuliusOS.Ipc
