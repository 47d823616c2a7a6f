import JuliusOS.Bridge.Publish
import JuliusOS.Foundations.Machine

/-!
# Connections to the broker that come and go

`JuliusBridge` keeps one connection to the broker, `_ipc_sock`. Every thread sends on it, and a
listener thread receives from it and connects again where there is none. The broker forgets a
subscription when its connection ends, while `_callbacks` remembers the topic; nothing subscribes
again. And a broker that closes the connection properly, which `recv` reports as no bytes, ends the
listener.

* `Covered.step`: as long as no connection is made behind a topic's back, each topic of `_callbacks`
  is subscribed to on the connection, or a call that will see to it is under way;
* `subscriptions_survive`: so it is when no call is under way, and the listener runs.
-/

open Utf8

namespace JuliusOS.Bridge

/-! ### The threads -/

/-- Where a thread is in `_send_ipc`. -/
inductive SendPc
  /-- In no call of it. -/
  | idle
  /-- Before `if not self._ipc_sock`. -/
  | entered (topic : String) (data : Bytes)
  /-- Before the frame is packed. -/
  | checked (topic : String) (data : Bytes)
  /-- Before `self._ipc_sock` is read for `sendall`. -/
  | packed (msg : Bytes)
  /-- In `sendall` on a connection. -/
  | sending (conn : ℕ) (msg : Bytes)
  /-- In the handler of an exception, before `self._ipc_sock = None`. -/
  | failing
deriving DecidableEq

/-- Where the listener is. -/
inductive ListenPc
  /-- Before `while self._running`. -/
  | top
  /-- Before `if not self._ipc_sock`. -/
  | test
  /-- Before `_connect_ipc`. -/
  | disconnected
  /-- Before `self._ipc_sock` is read for `recv`. -/
  | connected
  /-- In `recv` on a connection. -/
  | receiving (conn : ℕ)
  /-- In `_handle_message`. -/
  | handling
  /-- In the handler of an exception, before `self._ipc_sock = None`. -/
  | failed
  /-- The thread has ended. -/
  | ended
deriving DecidableEq

/-- The bridge and the threads that are in its methods. -/
structure JuliusBridge (κ : Type*) where
  /-- `_running`. -/
  running : Bool
  /-- `_ipc_sock`: the number of the connection. -/
  ipcSock : Option ℕ
  /-- `_callbacks`, with no callbacks for a topic that is not in it. -/
  callbacks : List Char → List κ
  /-- How many connections were made (ghost). -/
  connections : ℕ
  /-- What was sent on each connection (ghost). -/
  sent : ℕ → List Bytes
  /-- The listener. -/
  listener : ListenPc
  /-- The threads that call `subscribe` and `publish`. -/
  threads : ℕ → SendPc

/-- What can happen next. A callback's own calls are those of a thread, too. -/
inductive BridgeStep (κ : Type*)
  /-- Thread `i` calls `subscribe`, up to `_send_ipc`. -/
  | subscribe (i : ℕ) (topic : List Char) (cb : κ)
  /-- Thread `i` calls `publish`, up to `_send_ipc`. -/
  | publish (i : ℕ) (topic : String) (data : Bytes)
  /-- `if not self._ipc_sock: return`. -/
  | check (i : ℕ)
  /-- The frame is packed, with a time. -/
  | pack (i : ℕ) (time : ℤ)
  /-- `self._ipc_sock` is read for `sendall`. -/
  | load (i : ℕ)
  /-- `sendall` returns, or raises an exception. -/
  | sendall (i : ℕ) (ok : Bool)
  /-- `self._ipc_sock = None` in the handler. -/
  | reset (i : ℕ)
  /-- The listener's `while self._running`. -/
  | loop
  /-- The listener's `if not self._ipc_sock`. -/
  | look
  /-- The listener is through `_connect_ipc`, with or without success. -/
  | connect (ok : Bool)
  /-- The listener reads `self._ipc_sock` for `recv`. -/
  | reload
  /-- `recv` returns, or raises an exception. -/
  | recv (data : Option Bytes)
  /-- The listener is through `_handle_message`. -/
  | handled
  /-- The listener's `self._ipc_sock = None`. -/
  | recover
  /-- `stop`; that it closes the connection shows in what `recv` and `sendall` do later. -/
  | stop

namespace JuliusBridge

variable {κ : Type*} (s : JuliusBridge κ)

/-- A thread goes on. -/
def goto (i : ℕ) (pc : SendPc) : JuliusBridge κ :=
  { s with threads := Function.update s.threads i pc }

/-- `_callbacks[topic].append(callback)`. -/
def addCallback (topic : List Char) (cb : κ) : JuliusBridge κ :=
  { s with callbacks := Function.update s.callbacks topic (s.callbacks topic ++ [cb]) }

/-- A frame was sent on a connection. -/
def addSent (conn : ℕ) (msg : Bytes) : JuliusBridge κ :=
  { s with sent := Function.update s.sent conn (s.sent conn ++ [msg]) }

/-- `self._ipc_sock = None`. -/
def disconnect : JuliusBridge κ := { s with ipcSock := none }

/-- The listener goes on. -/
def listenAt (pc : ListenPc) : JuliusBridge κ := { s with listener := pc }

/-- `_connect_ipc`. -/
def connectIpc (ok : Bool) : JuliusBridge κ :=
  if ok then { s with ipcSock := some s.connections, connections := s.connections + 1 }
  else s.disconnect

/-- `__init__`, with or without a broker. -/
def start (κ : Type*) (ok : Bool) : JuliusBridge κ :=
  connectIpc ⟨true, none, fun _ ↦ [], 0, fun _ ↦ [], .top, fun _ ↦ .idle⟩ ok

end JuliusBridge

/-- The bridge as a machine, in a process with a given id. -/
def bridge (κ : Type*) (pid : ℕ) : Machine (JuliusBridge κ) (BridgeStep κ) where
  Init s := ∃ ok, s = .start κ ok
  step s
    | .subscribe i topic cb =>
      match s.threads i with
      | .idle => some ((s.addCallback topic cb).goto i (.entered "__subscribe__" (encode topic)))
      | _ => none
    | .publish i topic data =>
      match s.threads i with
      | .idle => some (s.goto i (.entered topic data))
      | _ => none
    | .check i =>
      match s.threads i with
      | .entered topic data =>
        some (s.goto i (if s.ipcSock = none then .idle else .checked topic data))
      | _ => none
    | .pack i time =>
      match s.threads i with
      | .checked topic data =>
        some (s.goto i ((sendIpcMsg topic data pid time).elim .failing .packed))
      | _ => none
    | .load i =>
      match s.threads i with
      | .packed msg => some (s.goto i (s.ipcSock.elim .failing fun c ↦ .sending c msg))
      | _ => none
    | .sendall i ok =>
      match s.threads i with
      | .sending c msg =>
        some (if ok then (s.addSent c msg).goto i .idle else s.goto i .failing)
      | _ => none
    | .reset i =>
      match s.threads i with
      | .failing => some (s.disconnect.goto i .idle)
      | _ => none
    | .loop =>
      match s.listener with
      | .top => some (s.listenAt (if s.running then .test else .ended))
      | _ => none
    | .look =>
      match s.listener with
      | .test => some (s.listenAt (if s.ipcSock = none then .disconnected else .connected))
      | _ => none
    | .connect ok =>
      match s.listener with
      | .disconnected => some ((s.connectIpc ok).listenAt .top)
      | _ => none
    | .reload =>
      match s.listener with
      | .connected => some (s.listenAt (s.ipcSock.elim .failed .receiving))
      | _ => none
    | .recv data =>
      match s.listener with
      | .receiving _ =>
        some (s.listenAt (data.elim .failed fun b ↦ if b = [] then .ended else .handling))
      | _ => none
    | .handled =>
      match s.listener with
      | .handling => some (s.listenAt .top)
      | _ => none
    | .recover =>
      match s.listener with
      | .failed => some (s.disconnect.listenAt .top)
      | _ => none
    | .stop => some { s with running := false }

/-! ### What a step does -/

variable {κ : Type*} {pid : ℕ} {s s' s₀ : JuliusBridge κ} {a : BridgeStep κ}
  {as : List (BridgeStep κ)} {i c : ℕ} {topic : List Char}

/-- When a step is possible, and what it does. -/
inductive Does (pid : ℕ) (s : JuliusBridge κ) : BridgeStep κ → JuliusBridge κ → Prop
  | subscribe {i : ℕ} {topic : List Char} {cb : κ} (hi : s.threads i = .idle) :
    Does pid s (.subscribe i topic cb)
      ((s.addCallback topic cb).goto i (.entered "__subscribe__" (encode topic)))
  | publish {i : ℕ} {topic : String} {data : Bytes} (hi : s.threads i = .idle) :
    Does pid s (.publish i topic data) (s.goto i (.entered topic data))
  | check {i : ℕ} {topic : String} {data : Bytes} (hi : s.threads i = .entered topic data) :
    Does pid s (.check i) (s.goto i (if s.ipcSock = none then .idle else .checked topic data))
  | pack {i : ℕ} {topic : String} {data : Bytes} {time : ℤ}
    (hi : s.threads i = .checked topic data) :
    Does pid s (.pack i time) (s.goto i ((sendIpcMsg topic data pid time).elim .failing .packed))
  | load {i : ℕ} {msg : Bytes} (hi : s.threads i = .packed msg) :
    Does pid s (.load i) (s.goto i (s.ipcSock.elim .failing fun c ↦ .sending c msg))
  | sent {i c : ℕ} {msg : Bytes} (hi : s.threads i = .sending c msg) :
    Does pid s (.sendall i true) ((s.addSent c msg).goto i .idle)
  | notSent {i c : ℕ} {msg : Bytes} (hi : s.threads i = .sending c msg) :
    Does pid s (.sendall i false) (s.goto i .failing)
  | reset {i : ℕ} (hi : s.threads i = .failing) : Does pid s (.reset i) (s.disconnect.goto i .idle)
  | loop (hl : s.listener = .top) :
    Does pid s .loop (s.listenAt (if s.running then .test else .ended))
  | look (hl : s.listener = .test) :
    Does pid s .look (s.listenAt (if s.ipcSock = none then .disconnected else .connected))
  | connect {ok : Bool} (hl : s.listener = .disconnected) :
    Does pid s (.connect ok) ((s.connectIpc ok).listenAt .top)
  | reload (hl : s.listener = .connected) :
    Does pid s .reload (s.listenAt (s.ipcSock.elim .failed .receiving))
  | raised {c : ℕ} (hl : s.listener = .receiving c) : Does pid s (.recv none) (s.listenAt .failed)
  | closed {c : ℕ} (hl : s.listener = .receiving c) :
    Does pid s (.recv (some [])) (s.listenAt .ended)
  | received {c : ℕ} {b : UInt8} {bs : Bytes} (hl : s.listener = .receiving c) :
    Does pid s (.recv (some (b :: bs))) (s.listenAt .handling)
  | handled (hl : s.listener = .handling) : Does pid s .handled (s.listenAt .top)
  | recover (hl : s.listener = .failed) : Does pid s .recover (s.disconnect.listenAt .top)
  | stop : Does pid s .stop { s with running := false }

/-- **Inversion**: what a step does, as cases. -/
theorem does_of_step (hstep : (bridge κ pid).step s a = some s') : Does pid s a s' := by
  cases a with
  | stop => exact Option.some.inj hstep ▸ .stop
  | sendall i ok =>
    simp only [bridge] at hstep
    split at hstep
    next hi => cases ok <;> (obtain rfl := Option.some.inj hstep; constructor; exact hi)
    next => cases hstep
  | recv data =>
    simp only [bridge] at hstep
    split at hstep
    next hl =>
      -- an exception, the end of the stream, or bytes
      rcases data with - | - | ⟨b, bs⟩ <;>
        (obtain rfl := Option.some.inj hstep; constructor; exact hl)
    next => cases hstep
  | _ =>
    simp only [bridge] at hstep
    split at hstep
    next =>
      obtain rfl := Option.some.inj hstep
      constructor
      assumption
    next => cases hstep

/-! ### Subscriptions -/

/-- The frame of `subscribe` for a topic. -/
def SubscribeFrame (pid : ℕ) (topic : List Char) (msg : Bytes) : Prop :=
  ∃ time, sendIpcMsg "__subscribe__" (encode topic) pid time = some msg

/-- A call that will send the frame of `subscribe` on the connection it finds, or drop it. -/
def SendPc.Pending (pid : ℕ) (topic : List Char) : SendPc → Prop
  | .entered name data | .checked name data => name = "__subscribe__" ∧ data = encode topic
  | .packed msg => SubscribeFrame pid topic msg
  | .failing => True
  | _ => False

/-- A call is in progress that is on a connection, if this is the one it finds. -/
def SendPc.on (c : ℕ) : SendPc → Prop
  | .idle => False
  | .sending c' _ => c' = c
  | _ => True

/-- A subscription to a topic was sent on a connection. -/
def JuliusBridge.SubscribedOn (pid : ℕ) (s : JuliusBridge κ) (c : ℕ) (topic : List Char) : Prop :=
  ∃ msg ∈ s.sent c, SubscribeFrame pid topic msg

/-- As long as `stop` was not called, the listener runs, and where no call is in progress on the
connection, every topic of `_callbacks` has been subscribed to on it. -/
structure Survives (pid : ℕ) (s : JuliusBridge κ) : Prop where
  /-- The listener runs. -/
  listens : s.running = true → s.listener ≠ .ended
  /-- The topics are subscribed to. -/
  subscribed : s.running = true → ∀ c, s.ipcSock = some c → (∀ i, ¬ (s.threads i).on c) →
    ∀ topic, s.callbacks topic ≠ [] → s.SubscribedOn pid c topic

/-- As long as `stop` was not called, `recv` returns no end of the stream, and a connection is made
only when each topic of `_callbacks` has a call of `subscribe` that has not yet read `_ipc_sock` to
send on it, or a call is about to drop the connection. -/
def Unbroken (pid : ℕ) (s : JuliusBridge κ) : BridgeStep κ → Prop
  | .recv (some []) => s.running = false
  | .connect true => s.running = true → ∀ topic, s.callbacks topic ≠ [] →
      ∃ i, (s.threads i).Pending pid topic
  | _ => True

/-! ### What a step keeps -/

/-- A call that will send the frame of `subscribe` on a connection, or drop the connection. -/
def SendPc.Covers (pid c : ℕ) (topic : List Char) (pc : SendPc) : Prop :=
  pc.Pending pid topic ∨ ∃ msg, pc = .sending c msg ∧ SubscribeFrame pid topic msg

/-- Every topic is subscribed to on the connection, or a call sees to it. -/
def Covered (pid : ℕ) (s : JuliusBridge κ) : Prop :=
  ∀ c, s.ipcSock = some c → ∀ topic, s.callbacks topic ≠ [] →
    s.SubscribedOn pid c topic ∨ ∃ i, (s.threads i).Covers pid c topic

theorem not_covers_idle : ¬ SendPc.idle.Covers pid c topic := by
  rintro (h | ⟨msg, h, -⟩)
  · exact h
  · cases h

/-- A call that covers a topic is on the connection. -/
theorem SendPc.Covers.on {pc : SendPc} (h : pc.Covers pid c topic) : pc.on c := by
  rcases h with h | ⟨msg, rfl, -⟩
  · cases pc with
    | idle => exact h
    | sending c' msg => exact h.elim
    | _ => trivial
  · rfl

/-- A thread that goes on keeps what it covers, or has sent it. -/
theorem Covered.goto (h : Covered pid s) {pc : SendPc}
    (hpc : ∀ c topic, s.ipcSock = some c → (s.threads i).Covers pid c topic →
      pc.Covers pid c topic) : Covered pid (s.goto i pc) := by
  intro c hc topic htopic
  refine (h c hc topic htopic).imp_right ?_
  rintro ⟨j, hj⟩
  by_cases hji : j = i
  · subst hji
    refine ⟨j, ?_⟩
    show (Function.update s.threads j pc j).Covers pid c topic
    rw [Function.update_self]
    exact hpc c topic hc hj
  · refine ⟨j, ?_⟩
    show (Function.update s.threads i pc j).Covers pid c topic
    rwa [Function.update_of_ne hji]

theorem covered_disconnect (s : JuliusBridge κ) : Covered pid s.disconnect := by rintro c ⟨⟩

/-- **A frame that was sent** is sent for good. -/
theorem Covered.addSent (h : Covered pid s) {msg : Bytes} (hi : s.threads i = .sending c msg) :
    Covered pid ((s.addSent c msg).goto i .idle) := by
  intro c' hc topic htopic
  have hkeep : ∀ m ∈ s.sent c', m ∈ (s.addSent c msg).sent c' := by
    intro m hm
    show m ∈ Function.update s.sent c (s.sent c ++ [msg]) c'
    rw [Function.update_apply]
    split
    next heq => exact List.mem_append_left _ (heq ▸ hm)
    next => exact hm
  rcases h c' hc topic htopic with ⟨m, hm, hframe⟩ | ⟨j, hj⟩
  · exact Or.inl ⟨m, hkeep m hm, hframe⟩
  -- the frame covered its topic, and is now one that was sent
  by_cases hji : j = i
  · subst hji
    rw [hi] at hj
    rcases hj with hj | ⟨m, heq, hframe⟩
    · exact hj.elim
    · obtain ⟨rfl, rfl⟩ := SendPc.sending.inj heq
      refine Or.inl ⟨msg, ?_, hframe⟩
      show msg ∈ Function.update s.sent c (s.sent c ++ [msg]) c
      rw [Function.update_self]
      exact List.mem_append_right _ (List.mem_singleton_self msg)
  · refine Or.inr ⟨j, ?_⟩
    show (Function.update s.threads i .idle j).Covers pid c' topic
    rwa [Function.update_of_ne hji]

/-- **A topic that is new** has its own call. -/
theorem Covered.subscribe (h : Covered pid s) (hi : s.threads i = .idle) (topic : List Char)
    (cb : κ) : Covered pid
      ((s.addCallback topic cb).goto i (.entered "__subscribe__" (encode topic))) := by
  intro c hc topic' htopic
  by_cases heq : topic' = topic
  · refine Or.inr ⟨i, Or.inl ?_⟩
    show (Function.update s.threads i _ i).Pending pid topic'
    rw [Function.update_self, heq]
    exact ⟨rfl, rfl⟩
  · -- a topic that was in `_callbacks` before is covered by another thread
    have hold : s.callbacks topic' ≠ [] := by
      have hne : Function.update s.callbacks topic (s.callbacks topic ++ [cb]) topic' ≠ [] := htopic
      rwa [Function.update_of_ne heq] at hne
    refine (h c hc topic' hold).imp_right ?_
    rintro ⟨j, hj⟩
    have hji : j ≠ i := by
      rintro rfl
      rw [hi] at hj
      exact not_covers_idle hj
    refine ⟨j, ?_⟩
    show (Function.update s.threads i _ j).Covers pid c topic'
    rwa [Function.update_of_ne hji]

/-- A connection that is made with a call for every topic. -/
theorem covered_connectIpc (h : ∀ topic, s.callbacks topic ≠ [] →
    ∃ i, (s.threads i).Pending pid topic) (ok : Bool) : Covered pid (s.connectIpc ok) := by
  rw [JuliusBridge.connectIpc]
  split
  · intro c _ topic htopic
    obtain ⟨i, hi⟩ := h topic htopic
    exact Or.inr ⟨i, Or.inl hi⟩
  · exact covered_disconnect s

/-- **A thread in no call** covers nothing, and may go anywhere. -/
theorem Covered.goto_of_idle (h : Covered pid s) (hi : s.threads i = .idle) (pc : SendPc) :
    Covered pid (s.goto i pc) := by
  refine h.goto fun c t _ hcov ↦ ?_
  rw [hi] at hcov
  exact absurd hcov not_covers_idle

/-- **A call that finds a connection** goes on to pack its frame. -/
theorem Covered.check (h : Covered pid s) {name : String} {data : Bytes}
    (hi : s.threads i = .entered name data) :
    Covered pid (s.goto i (if s.ipcSock = none then .idle else .checked name data)) := by
  refine h.goto fun c t hc hcov ↦ ?_
  rw [hi] at hcov
  rw [if_neg (by rw [hc]; exact Option.some_ne_none c)]
  rcases hcov with hcov | ⟨msg, heq, -⟩
  · exact Or.inl hcov
  · cases heq

/-- **A call that packs** has the frame of its topic, or will drop the connection. -/
theorem Covered.pack (h : Covered pid s) {name : String} {data : Bytes} (time : ℤ)
    (hi : s.threads i = .checked name data) :
    Covered pid (s.goto i ((sendIpcMsg name data pid time).elim .failing .packed)) := by
  refine h.goto fun c t _ hcov ↦ ?_
  rw [hi] at hcov
  rcases hcov with ⟨rfl, rfl⟩ | ⟨msg, heq, -⟩
  · -- a frame that cannot be packed raises an exception
    cases hmsg : sendIpcMsg "__subscribe__" (encode t) pid time with
    | none => exact Or.inl trivial
    | some msg => exact Or.inl ⟨time, hmsg⟩
  · cases heq

/-- **A call that reads `_ipc_sock`** sends on the connection that there is now. -/
theorem Covered.load (h : Covered pid s) {msg : Bytes} (hi : s.threads i = .packed msg) :
    Covered pid (s.goto i (s.ipcSock.elim .failing fun c ↦ .sending c msg)) := by
  refine h.goto fun c t hc hcov ↦ ?_
  rw [hi] at hcov
  rw [hc]
  rcases hcov with hcov | ⟨msg', heq, -⟩
  · exact Or.inr ⟨msg, rfl, hcov⟩
  · cases heq

/-- **A step** leaves every topic covered. -/
theorem Covered.step (h : Covered pid s) (hstep : (bridge κ pid).step s a = some s')
    (hok : Unbroken pid s a) (hrunning : s.running = true) : Covered pid s' := by
  cases does_of_step hstep with
  | subscribe hi => exact h.subscribe hi _ _
  | publish hi => exact h.goto_of_idle hi _
  | check hi => exact h.check hi
  | pack hi => exact h.pack _ hi
  | load hi => exact h.load hi
  | sent hi => exact h.addSent hi
  | notSent => exact h.goto fun _ _ _ _ ↦ Or.inl trivial
  | reset => exact (covered_disconnect s).goto (by rintro c t ⟨⟩)
  | @connect ok =>
    cases ok with
    | true => exact covered_connectIpc (hok hrunning) true
    | false => exact covered_disconnect s
  | recover => exact covered_disconnect s
  | loop | look | reload | raised | closed | received | handled | stop => exact h

/-- `_running` is never set again, and only a stream that ends, or `stop`, ends the listener. -/
theorem running_and_listens (hstep : (bridge κ pid).step s a = some s')
    (hok : Unbroken pid s a) (hrunning : s'.running = true) :
    s.running = true ∧ (s.listener ≠ .ended → s'.listener ≠ .ended) := by
  cases does_of_step hstep with
  | loop =>
    have hrun : s.running = true := hrunning
    refine ⟨hrun, fun _ ↦ ?_⟩
    show (if s.running = true then ListenPc.test else .ended) ≠ .ended
    rw [if_pos hrun]
    exact ListenPc.noConfusion
  | look =>
    refine ⟨hrunning, fun _ ↦ ?_⟩
    show (if s.ipcSock = none then ListenPc.disconnected else .connected) ≠ .ended
    split <;> exact ListenPc.noConfusion
  | reload =>
    refine ⟨hrunning, fun _ ↦ ?_⟩
    show s.ipcSock.elim ListenPc.failed .receiving ≠ .ended
    cases s.ipcSock <;> exact ListenPc.noConfusion
  | @connect ok => cases ok <;> exact ⟨hrunning, fun _ ↦ ListenPc.noConfusion⟩
  | closed => exact absurd hrunning (ne_true_of_eq_false hok)
  | raised | received | handled | recover => exact ⟨hrunning, fun _ ↦ ListenPc.noConfusion⟩
  | subscribe | publish | check | pack | load | sent | notSent | reset => exact ⟨hrunning, id⟩
  | stop => cases hrunning

/-- As long as `stop` was not called, the listener runs and every topic is covered. -/
def Intact (pid : ℕ) (s : JuliusBridge κ) : Prop :=
  s.running = true → s.listener ≠ .ended ∧ Covered pid s

theorem Intact.step (h : Intact pid s) (hok : Unbroken pid s a)
    (hstep : (bridge κ pid).step s a = some s') : Intact pid s' := by
  intro hrunning'
  obtain ⟨hrunning, hlistens⟩ := running_and_listens hstep hok hrunning'
  obtain ⟨hlistener, hcovered⟩ := h hrunning
  exact ⟨hlistens hlistener, hcovered.step hstep hok hrunning⟩

theorem Intact.survives (h : Intact pid s) : Survives pid s where
  listens := fun hrunning ↦ (h hrunning).1
  subscribed := by
    intro hrunning c hc hidle topic htopic
    rcases (h hrunning).2 c hc topic htopic with hsent | ⟨i, hi⟩
    · exact hsent
    · exact absurd hi.on (hidle i)

theorem intact_start (ok : Bool) : Intact pid (.start κ ok) := by
  intro _
  cases ok <;> exact ⟨ListenPc.noConfusion, fun _ _ _ htopic ↦ absurd rfl htopic⟩

/-- **When subscriptions survive.** In every run in which no connection ends properly and none is
made behind the back of a topic, the listener runs and the topics are subscribed to on the
connection, until `stop` is called. -/
theorem subscriptions_survive (hinit : (bridge κ pid).Init s₀)
    (hrun : (bridge κ pid).run s₀ as = some s)
    (hok : (bridge κ pid).Guarded (Unbroken pid) s₀ as) : Survives pid s := by
  obtain ⟨ok, rfl⟩ := hinit
  exact (Machine.invariant_of_guarded (fun _ _ _ ↦ Intact.step) (intact_start ok) hok hrun).survives

/-- A subscription with a broker. -/
def subscribeOnce : List (BridgeStep Unit) :=
  [.subscribe 0 ['A'] (), .check 0, .pack 0 0, .load 0, .sendall 0 true]

/-- It is sent on the connection. -/
theorem subscriptions_survive_once :
    ∃ s, (bridge Unit 1).run (.start Unit true) subscribeOnce = some s ∧ s.ipcSock = some 0 ∧
      s.threads 0 = .idle ∧ Survives 1 s := by
  have hrun : ((bridge Unit 1).run (.start Unit true) subscribeOnce).map
      (fun s ↦ (s.ipcSock, s.threads 0)) = some (some 0, .idle) := by decide +kernel
  obtain ⟨s, hs, hproj⟩ := Option.map_eq_some_iff.1 hrun
  obtain ⟨hsock, hidle⟩ := Prod.mk.inj hproj
  refine ⟨s, hs, hsock, hidle, subscriptions_survive ⟨true, rfl⟩ hs ?_⟩
  exact ⟨trivial, fun _ _ ↦ ⟨trivial, fun _ _ ↦ ⟨trivial, fun _ _ ↦ ⟨trivial, fun _ _ ↦
    ⟨trivial, fun _ _ ↦ trivial⟩⟩⟩⟩⟩

/-- The broker closes the connection. -/
def brokerCloses : List (BridgeStep Unit) := [.loop, .look, .reload, .recv (some [])]

/-- A subscription without a broker; then the listener connects. -/
def subscribeBefore : List (BridgeStep Unit) :=
  [.subscribe 0 ['A'] (), .check 0, .loop, .look, .connect true]

/-- The broker's exit ends the listener; and a topic subscribed to before the connection was made
is not subscribed to on it. -/
theorem not_survives_exit :
    (∃ s, (bridge Unit 1).run (.start Unit true) brokerCloses = some s ∧ ¬ Survives 1 s) ∧
      ∃ s, (bridge Unit 1).run (.start Unit false) subscribeBefore = some s ∧ ¬ Survives 1 s := by
  constructor
  · have hrun : ((bridge Unit 1).run (.start Unit true) brokerCloses).map
        (fun s ↦ (s.running, s.listener)) = some (true, .ended) := by decide +kernel
    obtain ⟨s, hs, hproj⟩ := Option.map_eq_some_iff.1 hrun
    obtain ⟨hrunning, hended⟩ := Prod.mk.inj hproj
    exact ⟨s, hs, fun h ↦ h.listens hrunning hended⟩
  · refine ⟨_, rfl, fun h ↦ ?_⟩
    -- the call has returned, since there was no connection
    have hidle : ∀ i, ¬ (Function.update (Function.update (fun _ ↦ SendPc.idle) 0
        (.entered "__subscribe__" (encode ['A']))) 0 .idle i).on 0 := by
      intro i
      rw [Function.update_idem, Function.update_apply]
      split <;> exact id
    obtain ⟨msg, hmsg, -⟩ := h.subscribed rfl 0 rfl hidle ['A'] (List.cons_ne_nil () [])
    exact List.not_mem_nil hmsg

end JuliusOS.Bridge
