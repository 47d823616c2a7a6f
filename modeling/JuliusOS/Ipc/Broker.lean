import JuliusOS.Foundations.CString
import JuliusOS.Foundations.Machine
import JuliusOS.Foundations.PackedTable
import JuliusOS.Foundations.StructLayout
import Mathlib.Logic.Function.Basic

/-!
# The message broker

`services/julius_ipc/julius_ipc.c`: a table of at most 64 clients, each with at most 128
subscriptions, a table of at most 128 topics that retains the last message of each, and one
thread per connection. Every operation on the tables runs under `ipc_lock`, so a run of the
broker is an interleaving of the operations of its threads.

Around the tables stands the part of the kernel the threads deal with: which connection a
descriptor number belongs to. A number is free again as soon as it is closed, and `accept` may
return any free number.

A connection is known by its place in the order of the accepts. `IPCClient.conn` is a ghost
field, the connection whose handler wrote the entry; the code has no such field and no
operation reads it. `IPCClient.pid`, which the code never writes or reads, is left out.
-/

open CString StructLayout

namespace JuliusOS.Ipc

/-- `IPC_MAX_CLIENTS`. -/
abbrev ipcMaxClients : ℕ := 64

/-- `IPC_MAX_TOPICS`. -/
abbrev ipcMaxTopics : ℕ := 128

/-- The fields of `IPCMessage`: `topic`, `data`, `data_len`, `sender`, `timestamp`, `flags`. -/
def ipcMessageFields : List CType :=
  [charArray 64, charArray 8192, int32, int32, int64, int32]

/-- An `IPCMessage`, which the broker copies as a whole. -/
abbrev IPCMessage := Image ipcMessageFields

namespace IPCMessage

/-- `msg->topic` and what follows it. -/
def topic (msg : IPCMessage) : Bytes := msg.memFrom 0

/-- `msg->data` and what follows it. -/
def data (msg : IPCMessage) : Bytes := msg.memFrom 1

/-- A message of the static arrays. -/
def zero : IPCMessage := ⟨List.replicate (sizeof ipcMessageFields) 0, List.length_replicate⟩

end IPCMessage

/-- An `IPCClient`. -/
structure IPCClient where
  /-- The connection whose handler wrote the entry (ghost). -/
  conn : ℕ
  /-- `fd`. -/
  fd : ℕ
  /-- `name`. -/
  name : Buf 64
  /-- `subscriptions` and `sub_count`. -/
  subscriptions : PackedTable (Buf 64) ipcMaxTopics
  /-- `connected_at`. -/
  connectedAt : ℤ

/-- A slot of the static array. -/
def IPCClient.zero : IPCClient := ⟨0, 0, .zero 64, .empty (.zero 64), 0⟩

/-- An `IPCTopic`. -/
structure IPCTopic where
  /-- `topic`. -/
  topic : Buf 64
  /-- `last_msg`. -/
  lastMsg : IPCMessage
  /-- `has_last`. -/
  hasLast : Bool

/-- A slot of the static array. -/
def IPCTopic.zero : IPCTopic := ⟨.zero 64, .zero, false⟩

/-- The broker's tables. -/
structure Broker where
  /-- `clients` and `client_count`. -/
  clients : PackedTable IPCClient ipcMaxClients
  /-- `topics` and `topic_count`. -/
  topics : PackedTable IPCTopic ipcMaxTopics

/-- The tables when the program starts. -/
def Broker.init : Broker := ⟨.empty .zero, .empty .zero⟩

/-- A `write(fd, msg, sizeof(IPCMessage))`. -/
abbrev Write := ℕ × IPCMessage

/-! ### The operations under the lock -/

/-- `find_client`. -/
def findClient (clients : PackedTable IPCClient ipcMaxClients) (fd : ℕ) : Option ℕ :=
  clients.find? fun c ↦ c.fd = fd

/-- The assignments that make a slot the entry of a topic. -/
def nameTopic (topic : Bytes) (t : IPCTopic) : IPCTopic :=
  { t with topic := t.topic.strncpy topic 63 Buf.le_64, hasLast := false }

/-- `find_or_create_topic`: the topic's position, `none` if the table is full. -/
def findOrCreateTopic (topics : PackedTable IPCTopic ipcMaxTopics) (topic : Bytes) :
    PackedTable IPCTopic ipcMaxTopics × Option ℕ :=
  match topics.find? fun t ↦ strcmpEq t.topic.bytes topic with
  | some i => (topics, some i)
  | none =>
    if h : topics.count < ipcMaxTopics then
      (topics.append h (nameTopic topic), some topics.count)
    else (topics, none)

/-- The delivery loop of `ipc_publish`: a client is written to at its first matching
subscription, and its other subscriptions are not looked at. -/
def publishLoop (msg : IPCMessage) : List IPCClient → List Write
  | [] => []
  | c :: cs =>
    if c.subscriptions.live.any fun s ↦ strcmpEq s.bytes msg.topic then
      (c.fd, msg) :: publishLoop msg cs
    else publishLoop msg cs

/-- `t->last_msg = *msg; t->has_last = 1`. -/
def retain (msg : IPCMessage) (t : IPCTopic) : IPCTopic :=
  { t with lastMsg := msg, hasLast := true }

/-- `ipc_publish`. -/
def ipcPublish (b : Broker) (msg : IPCMessage) : Broker × List Write :=
  let (topics, i) := findOrCreateTopic b.topics msg.topic
  let topics := match i with
    | some i => topics.modify i (retain msg)
    | none => topics
  ({ b with topics }, publishLoop msg b.clients.live)

/-- `strncpy(c->subscriptions[c->sub_count++], topic, 63)`, where there is room. -/
def addSubscription (topic : Bytes) (c : IPCClient) : IPCClient :=
  if h : c.subscriptions.count < ipcMaxTopics then
    { c with subscriptions := c.subscriptions.append h fun s ↦ s.strncpy topic 63 Buf.le_64 }
  else c

/-- `ipc_subscribe`. -/
def ipcSubscribe (b : Broker) (fd : ℕ) (topic : Bytes) : Broker × List Write :=
  match findClient b.clients fd with
  | none => (b, [])
  | some i =>
    match b.clients.live[i]? with
    | none => (b, [])
    | some c =>
      if c.subscriptions.count < ipcMaxTopics then
        let (topics, j) := findOrCreateTopic b.topics topic
        (⟨b.clients.modify i (addSubscription topic), topics⟩,
          match j.bind fun j ↦ topics.live[j]? with
          | some t => if t.hasLast then [(fd, t.lastMsg)] else []
          | none => [])
      else (b, [])

/-- The loop of `ipc_unsubscribe`: the first matching subscription goes. -/
def dropSubscription (topic : Bytes) (c : IPCClient) : IPCClient :=
  match h : c.subscriptions.find? fun s ↦ strcmpEq s.bytes topic with
  | none => c
  | some j =>
    { c with
      subscriptions := c.subscriptions.eraseAt j (PackedTable.lt_count_of_find?_eq_some h) }

/-- `ipc_unsubscribe`. -/
def ipcUnsubscribe (b : Broker) (fd : ℕ) (topic : Bytes) : Broker :=
  match findClient b.clients fd with
  | none => b
  | some i => { b with clients := b.clients.modify i (dropSubscription topic) }

/-- `remove_client`, and whether it closed the descriptor. -/
def removeClient (b : Broker) (fd : ℕ) : Broker × Bool :=
  match h : findClient b.clients fd with
  | none => (b, false)
  | some i =>
    ({ b with clients := b.clients.eraseAt i (PackedTable.lt_count_of_find?_eq_some h) }, true)

/-- The registration at the start of `client_handler`. -/
def register (b : Broker) (conn fd : ℕ) (now : ℤ) : Broker :=
  if h : b.clients.count < ipcMaxClients then
    { b with
      clients := b.clients.append h fun c ↦
        { conn
          fd
          name := c.name.snprintf 0 (Bytes.ofAscii s!"client_{fd}")
          subscriptions := c.subscriptions.clear
          connectedAt := now } }
  else b

/-- The loop body of `client_handler` after a whole message was read. -/
def handleFrame (b : Broker) (fd : ℕ) (msg : IPCMessage) : Broker × List Write :=
  if strcmpEq msg.topic (Bytes.ofAscii "__subscribe__") then ipcSubscribe b fd msg.data
  else if strcmpEq msg.topic (Bytes.ofAscii "__unsubscribe__") then
    (ipcUnsubscribe b fd msg.data, [])
  else ipcPublish b msg

/-! ### Threads and descriptors -/

/-- Whom a descriptor number belongs to. -/
inductive Owner
  /-- Nobody: `accept` may return it. -/
  | free
  /-- The broker itself (the listening socket, the standard streams). -/
  | broker
  /-- A connection. -/
  | conn (k : ℕ)
deriving DecidableEq

/-- Where a connection's handler thread is. -/
inductive Phase
  /-- Before its registration. -/
  | accepted
  /-- In its loop. -/
  | serving
  /-- Past `remove_client`. -/
  | done
deriving DecidableEq

/-- A handler thread. -/
structure Handler where
  /-- Its `fd`. -/
  fd : ℕ
  /-- Where it is. -/
  phase : Phase
deriving DecidableEq

/-- The broker, its threads and its descriptors. -/
structure System where
  /-- The tables. -/
  broker : Broker
  /-- The handlers, in the order of the accepts. -/
  handlers : List Handler
  /-- Whom each descriptor number belongs to. -/
  owner : ℕ → Owner
  /-- The messages written so far, each with the owner its descriptor had then. -/
  sent : List (Owner × IPCMessage)

/-- What can happen next. -/
inductive Event
  /-- `accept` returns a descriptor and its handler is started. -/
  | accept (fd : ℕ)
  /-- The handler of connection `k` registers it. -/
  | register (k : ℕ) (now : ℤ)
  /-- The handler of `k` has read a whole message and acts on it. -/
  | frame (k : ℕ) (msg : IPCMessage)
  /-- The handler of `k` has read fewer bytes and goes on. -/
  | partialRead (k : ℕ)
  /-- The handler of `k` leaves its loop and removes its client. -/
  | leave (k : ℕ)

namespace System

variable (s : System)

/-- The handler of `k`, where it is in the given phase. -/
def handlerIn (k : ℕ) (phase : Phase) : Option Handler :=
  s.handlers[k]?.filter fun h ↦ h.phase = phase

/-- The handler of `k` goes on to the given phase. -/
def setPhase (k : ℕ) (phase : Phase) : List Handler :=
  s.handlers.modify k fun h ↦ { h with phase }

/-- Perform some writes. -/
def record (writes : List Write) : List (Owner × IPCMessage) :=
  s.sent ++ writes.map fun w ↦ (s.owner w.1, w.2)

end System

/-- The system as a machine. -/
def system : Machine System Event where
  Init s := s.broker = Broker.init ∧ s.handlers = [] ∧ s.sent = [] ∧ ∀ fd k, s.owner fd ≠ .conn k
  step s
    | .accept fd =>
      if s.owner fd = .free then
        some { s with
          handlers := s.handlers ++ [⟨fd, .accepted⟩]
          owner := Function.update s.owner fd (.conn s.handlers.length) }
      else none
    | .register k now => (s.handlerIn k .accepted).map fun h ↦
      { s with broker := register s.broker k h.fd now, handlers := s.setPhase k .serving }
    | .frame k msg => (s.handlerIn k .serving).map fun h ↦
      let (broker, writes) := handleFrame s.broker h.fd msg
      { s with broker, sent := s.record writes }
    | .partialRead k => (s.handlerIn k .serving).map fun _ ↦ s
    | .leave k => (s.handlerIn k .serving).map fun h ↦
      let (broker, closed) := removeClient s.broker h.fd
      { s with
        broker
        handlers := s.setPhase k .done
        owner := if closed then Function.update s.owner h.fd .free else s.owner }

end JuliusOS.Ipc
