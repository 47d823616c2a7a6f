import JuliusOS.Core.Receive
import JuliusOS.Foundations.Machine
import Mathlib.Logic.Function.Basic

/-!
# The core daemon

`services/julius_core`: the main loop and the OTA watcher, which both accept connections on the
daemon's socket and take one message from each, and the power and watchdog threads, which send
messages to the `clients` of `ipc.c`. Processes connect, each with one message to send, and
disconnect.

`ipc_init` fills `clients` with -1, and nothing else is ever stored there, so nothing that is sent
reaches anybody: a send does what it should exactly if nobody is connected (`broadcasts_iff`).
-/

open CString StructLayout

namespace JuliusOS.Core

/-- `IPC_MAX_CLIENTS`. -/
abbrev ipcMaxClients : ℕ := 16

/-! ### The threads -/

/-- A connection that a process has made. -/
structure Conn where
  /-- Its number, in the order they were made. -/
  id : ℕ
  /-- What the process sends on it. -/
  message : IpcMessage
deriving DecidableEq

/-- The threads that receive. -/
inductive Receiver
  /-- The main loop, by `ipc_receive_any`. -/
  | main
  /-- `service_ota_watch`, by `ipc_receive`. -/
  | otaWatch
deriving DecidableEq

/-- Where a thread is that receives. -/
inductive ReceiverPc
  /-- `while (running)`. -/
  | loop
  /-- `select`, in the main loop. -/
  | select
  /-- `accept`. -/
  | accept
  /-- `read` on a connection and `close`. -/
  | read (fd : ℤ) (conn : Conn)
  /-- `system("/usr/bin/julius_ota_client")`, for the message of a connection. -/
  | start (conn : Conn)
  /-- What is left of the loop's body. -/
  | rest
  /-- The cleanup after the main loop. -/
  | cleanup
  /-- The thread has ended. -/
  | ended
deriving DecidableEq

/-- The threads that send. -/
inductive Sender
  /-- `service_power`. -/
  | power
  /-- `service_watchdog`. -/
  | watchdog
deriving DecidableEq

/-- Where a thread is that sends. -/
inductive SenderPc
  /-- `while (running)`. -/
  | loop
  /-- `ipc_broadcast` or `ipc_send`. -/
  | send (topic data : Bytes)
  /-- `sleep`. -/
  | sleep
  /-- The thread has ended. -/
  | ended
deriving DecidableEq

/-- The daemon and its sockets. -/
structure Daemon where
  /-- `running`. -/
  running : Bool
  /-- `clients`. -/
  clients : List ℤ
  /-- The threads that receive. -/
  receivers : Receiver → ReceiverPc
  /-- The threads that send. -/
  senders : Sender → SenderPc
  /-- The connections that were not accepted yet. -/
  backlog : List Conn
  /-- The open descriptors of connections, with their numbers. -/
  fds : List (ℤ × ℕ)
  /-- The messages of all connections that were made (ghost). -/
  sent : List IpcMessage
  /-- The connections that were accepted (ghost). -/
  accepted : List ℕ
  /-- The connections whose process has closed them (ghost). -/
  disconnected : List ℕ
  /-- The messages of the connections that the OTA watcher has accepted (ghost). -/
  consumed : List IpcMessage
  /-- The messages for which the OTA client was started (ghost). -/
  started : List IpcMessage

/-- What can happen next. -/
inductive Label
  /-- A process connects. -/
  | connect (message : IpcMessage)
  /-- A process disconnects. -/
  | disconnect (id : ℕ)
  /-- `SIGTERM` or `SIGINT`. -/
  | signal
  /-- `while (running)`. -/
  | loop (r : Receiver)
  /-- `select` finds a connection, or not. -/
  | select (ready : Bool)
  /-- `accept` returns a descriptor, or fails. -/
  | accept (r : Receiver) (fd : Option ℤ)
  /-- `read` leaves an `IPCMessage` in `msg`, or brings nothing. -/
  | read (r : Receiver) (got : Option IpcMessage)
  /-- `system` is called. -/
  | start
  /-- The rest of the loop's body. -/
  | rest (r : Receiver)
  /-- The cleanup. -/
  | cleanup
  /-- `while (running)`, and the power thread reads the battery's level, or cannot. -/
  | sendLoop (w : Sender) (level : Option ℤ)
  /-- The message is sent. -/
  | send (w : Sender)
  /-- `sleep` is over. -/
  | wake (w : Sender)

namespace Daemon

variable (s : Daemon)

/-- When the main loop begins. -/
def start : Daemon :=
  ⟨true, List.replicate ipcMaxClients (-1), fun _ ↦ .loop, fun _ ↦ .loop, [], [], [], [], [], [],
    []⟩

/-- A thread that receives goes on. -/
def goto (r : Receiver) (pc : ReceiverPc) : Daemon :=
  { s with receivers := Function.update s.receivers r pc }

@[simp] theorem receivers_goto (r : Receiver) (pc : ReceiverPc) :
    (s.goto r pc).receivers r = pc := Function.update_self ..

theorem receivers_goto_of_ne {r r' : Receiver} (h : r' ≠ r) (pc : ReceiverPc) :
    (s.goto r pc).receivers r' = s.receivers r' := Function.update_of_ne h ..

/-- A thread that sends goes on. -/
def sendAt (w : Sender) (pc : SenderPc) : Daemon :=
  { s with senders := Function.update s.senders w pc }

/-- `accept` takes a connection from the backlog. -/
def accept (r : Receiver) (fd : ℤ) (conn : Conn) (backlog : List Conn) : Daemon :=
  { s.goto r (.read fd conn) with
    backlog
    fds := (fd, conn.id) :: s.fds
    accepted := s.accepted ++ [conn.id]
    consumed := if r = .otaWatch then s.consumed ++ [conn.message] else s.consumed }

/-- `close(fd)`. -/
def close (fd : ℤ) : Daemon := { s with fds := s.fds.filter fun e ↦ e.1 ≠ fd }

/-- `ipc_destroy`, of the clients. -/
def ipcDestroy : Daemon := { s with clients := s.clients.map fun fd ↦ if 0 ≤ fd then -1 else fd }

/-- The connections that were accepted and whose process has not disconnected. -/
def connected : List ℕ := s.accepted.filter fun k ↦ k ∉ s.disconnected

end Daemon

/-! ### Sending -/

/-- The bytes of the `IPCMessage` that `ipc_send` writes. -/
def ipcMessage (topic data : Bytes) : Bytes :=
  strncpy (List.replicate 64 0) topic 63 ++ Bytes.ljust ipcBufSize 0 (data.take ipcBufSize) ++
    Bytes.leInt 4 data.length

theorem length_topicField (topic : Bytes) :
    (strncpy (List.replicate 64 0) topic 63).length = 64 := by
  rw [length_strncpy (by rw [List.length_replicate]; decide), List.length_replicate]

theorem length_dataField (data : Bytes) :
    (Bytes.ljust ipcBufSize 0 (data.take ipcBufSize)).length = ipcBufSize :=
  Bytes.length_ljust_of_le (List.length_take_le ..)

theorem length_ipcMessage (topic data : Bytes) :
    (ipcMessage topic data).length = sizeof ipcMessageFields := by
  rw [ipcMessage, List.length_append, List.length_append, length_topicField, length_dataField,
    Bytes.length_leInt]
  decide

namespace IpcMessage

/-- What `ipc_send` writes, as its receiver reads it. -/
def ofSend (topic data : Bytes) : IpcMessage :=
  ⟨ipcMessage topic data, length_ipcMessage topic data⟩

variable {topic data : Bytes}

/-- Its topic is what was sent, up to 63 bytes. -/
theorem cstr_topic_ofSend : cstr (ofSend topic data).topic = (cstr topic).take 63 := by
  have hlast : LastZero (List.replicate 64 0) := lastZero_replicate (by decide)
  have hcopied : LastZero (strncpy (List.replicate 64 0) topic 63) :=
    lastZero_strncpy List.length_replicate hlast
  have hzero := hcopied.mem_zero
  show cstr (strncpy _ topic 63 ++ _ ++ _) = _
  rw [List.append_assoc, cstr_append_of_mem hzero, cstr_strncpy List.length_replicate hlast]

/-- Its length is what was sent. -/
theorem dataLen_ofSend (h : data.length < 2 ^ 31) : (ofSend topic data).dataLen = data.length := by
  have hlen : Bytes.leInt 4 data.length = Bytes.le 4 data.length := Bytes.leInt_natCast (by omega)
  have hu32 : (ofSend topic data).u32 2 = data.length := by
    refine Image.u32_flatten [strncpy (List.replicate 64 0) topic 63,
      Bytes.ljust ipcBufSize 0 (data.take ipcBufSize)] [] ?_ ?_ rfl (by omega)
    · show ipcMessage topic data = _
      simp [ipcMessage, hlen]
    · rw [List.flatten_cons, List.flatten_singleton, List.length_append, length_topicField,
        length_dataField]
      rfl
  rw [dataLen, Image.i32, hu32, if_pos h]

end IpcMessage

/-- `ipc_send` and `ipc_broadcast`: what is written to which descriptor, and what is returned. -/
def ipcSend (clients : List ℤ) (topic data : Bytes) : List (ℤ × Bytes) × ℕ :=
  let fds := clients.filter fun fd ↦ 0 ≤ fd
  (fds.map fun fd ↦ (fd, ipcMessage topic data), fds.length)

/-- What a thread sends, in an iteration in which the battery's level can be read or not. -/
def Sender.message : Sender → Option ℤ → Option (Bytes × Bytes)
  | .power, level => level.map fun n ↦ (Bytes.ofAscii "BATTERY", Bytes.leInt 4 n)
  | .watchdog, _ => some (Bytes.ofAscii "STATUS", Bytes.ofAscii "ping")

/-! ### Receiving -/

/-- Where a thread goes on after its `read`, if that is defined: `ipc_receive` for the watcher and
`ipc_receive_any` for the main loop, which only logs what it received. -/
def received (conn : Conn) (got : Option IpcMessage) : Receiver → Option ReceiverPc
  | .main => (ipcReceiveAny (Buf.zero 64) (Buf.zero 512) got).map fun _ ↦ .rest
  | .otaWatch => (ipcReceive (Bytes.ofAscii "OTA") (Buf.zero 256) got).map fun out ↦
      if 0 < out.1 then .start conn else .rest

/-- The daemon as a machine. -/
def core : Machine Daemon Label where
  Init s := s = .start
  step s
    | .connect message => some { s with
        backlog := s.backlog ++ [⟨s.sent.length, message⟩], sent := s.sent ++ [message] }
    | .disconnect id =>
      if id < s.sent.length then some { s with disconnected := id :: s.disconnected } else none
    | .signal => some { s with running := false }
    | .loop r =>
      match s.receivers r, r with
      | .loop, .main => some (s.goto .main (if s.running then .select else .cleanup))
      | .loop, .otaWatch => some (s.goto .otaWatch (if s.running then .accept else .ended))
      | _, _ => none
    | .select ready =>
      match s.receivers .main, ready with
      | .select, true => if s.backlog = [] then none else some (s.goto .main .accept)
      | .select, false => some (s.goto .main .rest)
      | _, _ => none
    | .accept r fd =>
      match s.receivers r, fd, s.backlog with
      | .accept, none, _ => some (s.goto r .rest)
      | .accept, some fd, conn :: backlog =>
        if 0 ≤ fd ∧ fd ∉ s.fds.map Prod.fst then some (s.accept r fd conn backlog) else none
      | _, _, _ => none
    | .read r got =>
      match s.receivers r with
      | .read fd conn => (received conn got r).map ((s.close fd).goto r)
      | _ => none
    | .start =>
      match s.receivers .otaWatch with
      | .start conn => some { s.goto .otaWatch .rest with started := s.started ++ [conn.message] }
      | _ => none
    | .rest r =>
      match s.receivers r with
      | .rest => some (s.goto r .loop)
      | _ => none
    | .cleanup =>
      match s.receivers .main with
      | .cleanup => some { s.ipcDestroy with
          receivers := fun _ ↦ .ended, senders := fun _ ↦ .ended }
      | _ => none
    | .sendLoop w level =>
      match s.senders w with
      | .loop => some (s.sendAt w (if s.running then
          (w.message level).elim .sleep fun m ↦ .send m.1 m.2 else .ended))
      | _ => none
    | .send w =>
      match s.senders w with
      | .send _ _ => some (s.sendAt w .sleep)
      | _ => none
    | .wake w =>
      match s.senders w with
      | .sleep => some (s.sendAt w .loop)
      | _ => none

/-! ### What a step does -/

variable {s s' s₀ t : Daemon} {l : Label} {ls : List Label}

/-- When a step is possible, and what it does. -/
inductive Does (s : Daemon) : Label → Daemon → Prop
  | connect (message : IpcMessage) : Does s (.connect message) { s with
      backlog := s.backlog ++ [⟨s.sent.length, message⟩], sent := s.sent ++ [message] }
  | disconnect {id : ℕ} (hid : id < s.sent.length) :
    Does s (.disconnect id) { s with disconnected := id :: s.disconnected }
  | signal : Does s .signal { s with running := false }
  | mainLoop (hr : s.receivers .main = .loop) :
    Does s (.loop .main) (s.goto .main (if s.running then .select else .cleanup))
  | watchLoop (hr : s.receivers .otaWatch = .loop) :
    Does s (.loop .otaWatch) (s.goto .otaWatch (if s.running then .accept else .ended))
  | ready (hr : s.receivers .main = .select) : Does s (.select true) (s.goto .main .accept)
  | notReady (hr : s.receivers .main = .select) : Does s (.select false) (s.goto .main .rest)
  | notAccepted {r : Receiver} (hr : s.receivers r = .accept) :
    Does s (.accept r none) (s.goto r .rest)
  | accepted {r : Receiver} {fd : ℤ} {conn : Conn} {backlog : List Conn}
    (hr : s.receivers r = .accept) (hbacklog : s.backlog = conn :: backlog) :
    Does s (.accept r (some fd)) (s.accept r fd conn backlog)
  | read {r : Receiver} {fd : ℤ} {conn : Conn} {got : Option IpcMessage} {pc : ReceiverPc}
    (hr : s.receivers r = .read fd conn) (hpc : received conn got r = some pc) :
    Does s (.read r got) ((s.close fd).goto r pc)
  | start {conn : Conn} (hr : s.receivers .otaWatch = .start conn) :
    Does s .start { s.goto .otaWatch .rest with started := s.started ++ [conn.message] }
  | rest {r : Receiver} (hr : s.receivers r = .rest) : Does s (.rest r) (s.goto r .loop)
  | cleanup (hr : s.receivers .main = .cleanup) :
    Does s .cleanup { s.ipcDestroy with receivers := fun _ ↦ .ended, senders := fun _ ↦ .ended }
  | sendStep {w : Sender} {level : Option ℤ} (pc : SenderPc) :
    Does s (.sendLoop w level) (s.sendAt w pc)
  | send {w : Sender} : Does s (.send w) (s.sendAt w .sleep)
  | wake {w : Sender} : Does s (.wake w) (s.sendAt w .loop)

/-- **Inversion**: what a step does, as cases. -/
theorem does_of_step (hstep : core.step s l = some s') : Does s l s' := by
  cases l with
  | connect message => exact Option.some.inj hstep ▸ .connect message
  | signal => exact Option.some.inj hstep ▸ .signal
  | disconnect id =>
    simp only [core, Option.ite_none_right_eq_some] at hstep
    exact Option.some.inj hstep.2 ▸ .disconnect hstep.1
  | loop r =>
    simp only [core] at hstep
    split at hstep
    next hr => exact Option.some.inj hstep ▸ .mainLoop hr
    next hr => exact Option.some.inj hstep ▸ .watchLoop hr
    next => cases hstep
  | select ready =>
    simp only [core] at hstep
    split at hstep
    next hr =>
      rw [Option.ite_none_left_eq_some] at hstep
      exact Option.some.inj hstep.2 ▸ .ready hr
    next hr => exact Option.some.inj hstep ▸ .notReady hr
    next => cases hstep
  | accept r fd =>
    simp only [core] at hstep
    split at hstep
    next hr => exact Option.some.inj hstep ▸ .notAccepted hr
    next conn backlog hr hbacklog =>
      rw [Option.ite_none_right_eq_some] at hstep
      exact Option.some.inj hstep.2 ▸ .accepted hr hbacklog
    next => cases hstep
  | read r got =>
    simp only [core] at hstep
    split at hstep
    next hr =>
      obtain ⟨pc, hpc, rfl⟩ := Option.map_eq_some_iff.1 hstep
      exact .read hr hpc
    next => cases hstep
  | sendLoop w level =>
    simp only [core] at hstep
    split at hstep
    next => exact Option.some.inj hstep ▸ .sendStep _
    next => cases hstep
  | _ =>
    simp only [core] at hstep
    split at hstep
    next =>
      obtain rfl := Option.some.inj hstep
      constructor
      try assumption
    next => cases hstep

/-! ### What is sent reaches nobody -/

/-- What a send writes to a connection. -/
def Daemon.writesTo (s : Daemon) (k : ℕ) (writes : List (ℤ × Bytes)) : List Bytes :=
  (writes.filter fun w ↦ (w.1, k) ∈ s.fds).map Prod.snd

/-- A send writes the message exactly once to each connection that was accepted and whose process
has not disconnected, and returns their number. -/
def Reaches (s : Daemon) : Label → Prop
  | .send w => ∀ topic data, s.senders w = .send topic data →
      (∀ k ∈ s.connected, s.writesTo k (ipcSend s.clients topic data).1 = [ipcMessage topic data]) ∧
      (ipcSend s.clients topic data).2 = s.connected.length
  | _ => True

/-- A message is sent only while no process is connected. -/
def NoneConnected (s : Daemon) : Label → Prop
  | .send w => ∀ topic data, s.senders w = .send topic data → s.connected = []
  | _ => True

/-- Nobody is in the table. -/
def NoClients (s : Daemon) : Prop := ∀ fd ∈ s.clients, fd < 0

namespace NoClients

theorem start : NoClients .start := by
  intro fd hfd
  rw [List.eq_of_mem_replicate hfd]
  decide

/-- Only `ipc_destroy` changes the table. -/
theorem step (h : NoClients s) (hstep : core.step s l = some s') : NoClients s' := by
  cases does_of_step hstep with
  | cleanup =>
    intro fd hfd
    obtain ⟨fd', hfd', rfl⟩ := List.mem_map.1 hfd
    split
    · decide
    · exact h fd' hfd'
  | _ => exact h

/-- So `ipc_send` writes nothing. -/
theorem ipcSend_eq (h : NoClients s) (topic data : Bytes) :
    ipcSend s.clients topic data = ([], 0) := by
  have hnone : s.clients.filter (fun fd ↦ 0 ≤ fd) = [] :=
    List.filter_eq_nil_iff.2 fun fd hfd ↦ by simpa using h fd hfd
  rw [ipcSend, hnone]
  rfl

theorem reaches_iff (h : NoClients s) : Reaches s l ↔ NoneConnected s l := by
  cases l with
  | send w =>
    refine forall₃_congr fun topic data hw ↦ ?_
    rw [h.ipcSend_eq]
    constructor
    · exact fun hreaches ↦ List.length_eq_zero_iff.1 hreaches.2.symm
    · intro hnil
      rw [hnil]
      exact ⟨fun k hk ↦ absurd hk List.not_mem_nil, rfl⟩
  | _ => exact Iff.rfl

end NoClients

/-- **What is sent reaches those connected exactly as long as there are none.** -/
theorem broadcasts_iff (h0 : core.Init s₀) :
    core.Guarded Reaches s₀ ls ↔ core.Guarded NoneConnected s₀ ls := by
  obtain rfl : s₀ = .start := h0
  exact Machine.guarded_congr (I := NoClients) (fun s l hs ↦ hs.reaches_iff)
    (fun s l s' hs ↦ hs.step) .start

/-- The watchdog sends its first message when nobody is connected. -/
theorem broadcasts_iff_alone :
    core.Guarded Reaches .start [.sendLoop .watchdog none, .send .watchdog] ↔
      core.Guarded NoneConnected .start [.sendLoop .watchdog none, .send .watchdog] :=
  broadcasts_iff rfl

/-- A process has connected, and the main loop has accepted the connection, when the watchdog
sends. -/
theorem broadcasts_false : ¬ ∀ s₀ ls, core.Init s₀ → core.Guarded Reaches s₀ ls := by
  intro h
  let ls : List Label := [.connect (.ofSend [] []), .loop .main, .select true,
    .accept .main (some 5), .sendLoop .watchdog none]
  have hguard : core.Guarded Reaches .start (ls ++ [.send .watchdog]) := h _ _ rfl
  have hrun : core.run .start ls = some _ := rfl
  have hreaches := ((core.guarded_append_singleton hrun).1 hguard).2
  exact absurd (hreaches _ _ rfl).2 (by decide)

end JuliusOS.Core
