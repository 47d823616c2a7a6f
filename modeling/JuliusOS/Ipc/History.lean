import JuliusOS.Ipc.Registry

/-!
# Histories of the broker

What the frames of a history ask for, and nothing about tables: `subscriptions` are the topics a
connection is subscribed to after a history, `publishedOn` the messages published on a topic in it
and `deliveredTo` what some writes bring to a connection.
-/

open CString

namespace JuliusOS.Ipc

/-- What a frame asks for. -/
inductive Command
  /-- A subscription to a topic. -/
  | subscribe (topic : Bytes)
  /-- The end of one. -/
  | unsubscribe (topic : Bytes)
  /-- The delivery of the message on a topic. -/
  | publish (topic : Bytes)
deriving DecidableEq

/-- The topic a command names. -/
def Command.topic : Command → Bytes
  | .subscribe t | .unsubscribe t | .publish t => t

/-- The command of a frame. -/
def command (msg : IPCMessage) : Command :=
  if cstr msg.topic = Bytes.ofAscii "__subscribe__" then .subscribe (cstr msg.data)
  else if cstr msg.topic = Bytes.ofAscii "__unsubscribe__" then .unsubscribe (cstr msg.data)
  else .publish (cstr msg.topic)

/-- The topic sent in a frame is terminated and at most 63 bytes long. -/
def EventOk : Event → Prop
  | .frame _ msg => (command msg).topic.length ≤ 63
  | _ => True

/-- What one event does to the subscriptions of `k`. -/
def subStep (k : ℕ) (subs : List Bytes) : Event → List Bytes
  | .register j _ => if j = k then [] else subs
  | .frame j msg =>
    if j = k then
      match command msg with
      | .subscribe t => if subs.length < ipcMaxTopics then subs ++ [t] else subs
      | .unsubscribe t => subs.erase t
      | .publish _ => subs
    else subs
  | _ => subs

/-- The topics `k` is subscribed to after a history: those it has asked for while a slot was
free, less those it has given up. -/
def subscriptions (k : ℕ) (hist : List Event) : List Bytes := hist.foldl (subStep k) []

/-- The message an event publishes on a topic, if it does. -/
def publishes (t : Bytes) : Event → Option IPCMessage
  | .frame _ msg => if command msg = .publish t then some msg else none
  | _ => none

/-- The messages published on a topic, in order. -/
def publishedOn (t : Bytes) (hist : List Event) : List IPCMessage := hist.filterMap (publishes t)

/-- The last message published on a topic. -/
def lastPublished (t : Bytes) (hist : List Event) : Option IPCMessage :=
  (publishedOn t hist).getLast?

/-- The messages with topic `t` among some writes to `k`. -/
def deliveredTo (k : ℕ) (t : Bytes) (sent : List (Owner × IPCMessage)) : List IPCMessage :=
  (sent.filter fun w ↦ w.1 = .conn k ∧ cstr w.2.topic = t).map Prod.snd

theorem subscriptions_concat (k : ℕ) (hist : List Event) (e : Event) :
    subscriptions k (hist ++ [e]) = subStep k (subscriptions k hist) e := by
  rw [subscriptions, List.foldl_append]
  rfl

theorem publishedOn_append (t : Bytes) (hist hist' : List Event) :
    publishedOn t (hist ++ hist') = publishedOn t hist ++ publishedOn t hist' :=
  List.filterMap_append

theorem lastPublished_concat (t : Bytes) (hist : List Event) (e : Event) :
    lastPublished t (hist ++ [e]) = (publishes t e).or (lastPublished t hist) := by
  rw [lastPublished, publishedOn_append, List.getLast?_append]
  congr 1
  cases hp : publishes t e <;> simp [publishedOn, hp]

theorem deliveredTo_append (k : ℕ) (t : Bytes) (sent sent' : List (Owner × IPCMessage)) :
    deliveredTo k t (sent ++ sent') = deliveredTo k t sent ++ deliveredTo k t sent' := by
  rw [deliveredTo, List.filter_append, List.map_append]
  rfl

/-- A message published on a topic has that topic. -/
theorem topic_of_command {msg : IPCMessage} {t : Bytes} (h : command msg = .publish t) :
    cstr msg.topic = t := by
  rw [command] at h
  split at h
  · cases h
  · split at h
    · cases h
    · exact Command.publish.inj h

/-- The topic of a subscription or its end is in the data. -/
theorem data_of_command {msg : IPCMessage} {t : Bytes}
    (h : command msg = .subscribe t ∨ command msg = .unsubscribe t) : cstr msg.data = t := by
  rw [command] at h
  split at h
  · exact h.elim Command.subscribe.inj nofun
  · split at h
    · exact h.elim nofun Command.unsubscribe.inj
    · exact h.elim nofun nofun

theorem topic_of_publishes {t : Bytes} {e : Event} {msg : IPCMessage}
    (h : publishes t e = some msg) : cstr msg.topic = t := by
  cases e with
  | frame k m =>
    obtain ⟨hcmd, hmsg⟩ := Option.ite_none_right_eq_some.1 h
    exact Option.some.inj hmsg ▸ topic_of_command hcmd
  | _ => cases h

theorem topic_of_lastPublished {t : Bytes} {hist : List Event} {msg : IPCMessage}
    (h : lastPublished t hist = some msg) : cstr msg.topic = t := by
  obtain ⟨e, -, he⟩ := List.mem_filterMap.1 (List.mem_of_getLast? h)
  exact topic_of_publishes he

/-- The three branches of the handler's loop, by command. -/
theorem handleFrame_eq (b : Broker) (fd : ℕ) (msg : IPCMessage) :
    handleFrame b fd msg = match command msg with
      | .subscribe _ => ipcSubscribe b fd msg.data
      | .unsubscribe _ => (ipcUnsubscribe b fd msg.data, [])
      | .publish _ => ipcPublish b msg := by
  have hcstr : ∀ s, strcmpEq msg.topic (Bytes.ofAscii s) =
      decide (cstr msg.topic = cstr (Bytes.ofAscii s)) := by
    intro s
    rw [strcmpEq, beq_eq_decide]
  have hsub : cstr (Bytes.ofAscii "__subscribe__") = Bytes.ofAscii "__subscribe__" := by decide
  have hunsub : cstr (Bytes.ofAscii "__unsubscribe__") = Bytes.ofAscii "__unsubscribe__" := by
    decide
  rw [handleFrame, command, hcstr, hcstr, hsub, hunsub]
  simp only [decide_eq_true_eq]
  by_cases h : cstr msg.topic = Bytes.ofAscii "__subscribe__"
  · rw [if_pos h, if_pos h]
  · rw [if_neg h, if_neg h]
    by_cases h' : cstr msg.topic = Bytes.ofAscii "__unsubscribe__"
    · rw [if_pos h', if_pos h']
    · rw [if_neg h', if_neg h']

end JuliusOS.Ipc
