import JuliusOS.Core.Daemon

/-!
# Update signals

A process asks for an update by a message with the topic `OTA`, for which the OTA watcher starts
the OTA client. The main loop accepts connections on the same socket, and each of the two threads
drops what is not meant for it.

The steps at which a signal can be lost are those of `Kept`: an accept by the wrong thread, a read
that does not bring the message, and the cleanup. In a run no signal is lost, and no other message
is taken by the watcher, exactly if the run keeps clear of these (`signals_iff`).
-/

open CString StructLayout

namespace JuliusOS.Core

/-- The topic of a message is `OTA`. -/
def OtaTopic (msg : IpcMessage) : Prop := strcmpEq msg.topic (Bytes.ofAscii "OTA") = true

/-- An update signal: a message with the topic `OTA` and a payload. -/
def OtaSignal (msg : IpcMessage) : Prop := OtaTopic msg ∧ 0 < msg.dataLen

instance : DecidablePred OtaTopic :=
  fun msg ↦ inferInstanceAs (Decidable (strcmpEq msg.topic (Bytes.ofAscii "OTA") = true))

instance : DecidablePred OtaSignal :=
  fun msg ↦ inferInstanceAs (Decidable (OtaTopic msg ∧ 0 < msg.dataLen))

/-- The message with which the OTA watcher is busy. -/
def ReceiverPc.inHand : ReceiverPc → List IpcMessage
  | .read _ conn | .start conn => [conn.message]
  | _ => []

/-- Every update signal that was sent is still to be received or to be acted upon, or has started
the OTA client, once for each time it was sent; and the OTA watcher has taken no message with
another topic. -/
structure Signals (s : Daemon) : Prop where
  /-- No signal is lost. -/
  kept : ∀ msg, OtaSignal msg → s.sent.count msg = s.started.count msg +
    (s.receivers .otaWatch).inHand.count msg + (s.backlog.map Conn.message).count msg
  /-- No other message is taken. -/
  topics : ∀ msg ∈ s.consumed, OtaTopic msg

/-- The OTA watcher accepts only messages with the topic `OTA`, and the main loop no update signal;
a read of the OTA watcher brings an update signal, if the process sends one; and at the cleanup the
OTA watcher is not busy with an update signal. -/
def Kept (s : Daemon) : Label → Prop
  | .accept .otaWatch (some _) => ∀ conn ∈ s.backlog.head?, OtaTopic conn.message
  | .accept .main (some _) => ∀ conn ∈ s.backlog.head?, ¬ OtaSignal conn.message
  | .read .otaWatch got =>
    ∀ msg ∈ (s.receivers .otaWatch).inHand, OtaSignal msg → ∃ m ∈ got, OtaSignal m
  | .cleanup => ∀ msg ∈ (s.receivers .otaWatch).inHand, ¬ OtaSignal msg
  | _ => True

variable {s s' s₀ t : Daemon} {l : Label} {ls : List Label}

theorem copyLen_pos {msg : IpcMessage} {buflen : ℕ} (h : 0 < buflen) :
    0 < copyLen msg buflen ↔ 0 < msg.dataLen := by
  rw [copyLen]
  split <;> omega

/-- The OTA watcher goes on to start the OTA client exactly if it has read an update signal. -/
theorem received_otaWatch {conn : Conn} {got : Option IpcMessage} {pc : ReceiverPc}
    (h : received conn got .otaWatch = some pc) :
    pc = if ∃ m ∈ got, OtaSignal m then .start conn else .rest := by
  obtain ⟨⟨ret, buf⟩, hret, rfl⟩ := Option.map_eq_some_iff.1 h
  have hpos : 0 < ret ↔ ∃ m ∈ got, OtaSignal m := by
    cases got with
    | none =>
      obtain rfl : -1 = ret := congrArg Prod.fst (Option.some.inj hret)
      simp
    | some m =>
      simp only [Option.mem_def, Option.some.injEq, exists_eq_left']
      rw [ipcReceive] at hret
      split at hret
      next htopic =>
        obtain ⟨-, hret⟩ := Option.ite_none_right_eq_some.1 hret
        obtain rfl : copyLen m 256 = ret := congrArg Prod.fst (Option.some.inj hret)
        rw [copyLen_pos (by decide)]
        exact (and_iff_right htopic).symm
      next htopic =>
        obtain rfl : -1 = ret := congrArg Prod.fst (Option.some.inj hret)
        exact iff_of_false (by decide) fun hsignal ↦ htopic hsignal.1
  exact if_congr hpos rfl rfl

namespace Signals

/-- What does not move a message keeps the signals. -/
theorem of_eq (hs : Signals s) (hsent : s'.sent = s.sent) (hstarted : s'.started = s.started)
    (hhand : (s'.receivers .otaWatch).inHand = (s.receivers .otaWatch).inHand)
    (hbacklog : s'.backlog = s.backlog) (hconsumed : s'.consumed = s.consumed) : Signals s' where
  kept msg hmsg := by
    rw [hsent, hstarted, hhand, hbacklog]
    exact hs.kept msg hmsg
  topics msg hmem := hs.topics msg (hconsumed ▸ hmem)

/-- A step of the main loop that does not accept a connection. -/
theorem goto_main (hs : Signals s) (pc : ReceiverPc) : Signals (s.goto .main pc) :=
  hs.of_eq rfl rfl (congrArg _ (s.receivers_goto_of_ne (by decide) pc)) rfl rfl

/-- A step of the OTA watcher that does not move a message. -/
theorem goto_otaWatch (hs : Signals s) {pc : ReceiverPc}
    (hpc : pc.inHand = (s.receivers .otaWatch).inHand) : Signals (s.goto .otaWatch pc) :=
  hs.of_eq rfl rfl ((congrArg _ (s.receivers_goto _ pc)).trans hpc) rfl rfl

/-- What is in hand is dropped. -/
theorem drop_iff (hs : Signals s) (hsent : s'.sent = s.sent) (hstarted : s'.started = s.started)
    (hnone : (s'.receivers .otaWatch).inHand = []) (hbacklog : s'.backlog = s.backlog)
    (hconsumed : s'.consumed = s.consumed) :
    (∀ msg ∈ (s.receivers .otaWatch).inHand, ¬ OtaSignal msg) ↔ Signals s' := by
  constructor
  · refine fun hnot ↦ ⟨fun msg hmsg ↦ ?_, hconsumed ▸ hs.topics⟩
    have hcount : (s.receivers .otaWatch).inHand.count msg = 0 :=
      List.count_eq_zero.2 fun hmem ↦ hnot msg hmem hmsg
    rw [hsent, hstarted, hnone, hbacklog, hs.kept msg hmsg, hcount, List.count_nil]
  · intro hs' msg hmem hmsg
    have hpos := List.count_pos_iff.2 hmem
    have hkept := hs'.kept msg hmsg
    rw [hsent, hstarted, hnone, hbacklog, hs.kept msg hmsg, List.count_nil] at hkept
    omega

/-- The main loop accepts a connection, whose message it will drop. -/
theorem accept_main_iff {fd : ℤ} {conn : Conn} {backlog : List Conn} (hs : Signals s)
    (hbacklog : s.backlog = conn :: backlog) :
    ¬ OtaSignal conn.message ↔ Signals (s.accept .main fd conn backlog) := by
  have hhand : ((s.accept .main fd conn backlog).receivers .otaWatch).inHand =
      (s.receivers .otaWatch).inHand := by
    show ((s.goto .main (.read fd conn)).receivers .otaWatch).inHand = _
    rw [s.receivers_goto_of_ne (by decide)]
  have hkept (msg : IpcMessage) (hmsg : OtaSignal msg) := hs.kept msg hmsg
  simp only [hbacklog, List.map_cons, List.count_cons] at hkept
  constructor
  · refine fun hnot ↦ ⟨fun msg hmsg ↦ ?_, hs.topics⟩
    have hne : conn.message ≠ msg := fun he ↦ hnot (he ▸ hmsg)
    rw [hhand]
    show s.sent.count msg = s.started.count msg + _ + (backlog.map Conn.message).count msg
    rw [hkept msg hmsg, if_neg (by simpa using hne), Nat.add_zero]
  · intro hs' hsignal
    have hkept' : s.sent.count conn.message = s.started.count conn.message + _ +
      (backlog.map Conn.message).count conn.message := hs'.kept _ hsignal
    rw [hhand, hkept _ hsignal, if_pos (BEq.rfl)] at hkept'
    omega

/-- The OTA watcher accepts a connection while it has nothing in hand. -/
theorem accept_otaWatch_iff {fd : ℤ} {conn : Conn} {backlog : List Conn} (hs : Signals s)
    (hr : s.receivers .otaWatch = .accept) (hbacklog : s.backlog = conn :: backlog) :
    OtaTopic conn.message ↔ Signals (s.accept .otaWatch fd conn backlog) := by
  have hhand : ((s.accept .otaWatch fd conn backlog).receivers .otaWatch).inHand =
      [conn.message] := by
    show ((s.goto .otaWatch (.read fd conn)).receivers .otaWatch).inHand = _
    rw [s.receivers_goto]
    rfl
  constructor
  · refine fun htopic ↦ ⟨fun msg hmsg ↦ ?_, fun msg hmem ↦ ?_⟩
    · have hkept := hs.kept msg hmsg
      rw [hbacklog, List.map_cons, hr] at hkept
      rw [hhand]
      show s.sent.count msg = s.started.count msg + _ + (backlog.map Conn.message).count msg
      rw [hkept, List.count_cons, List.count_cons]
      simp only [ReceiverPc.inHand]
      omega
    · rcases List.mem_append.1 hmem with hmem | hmem
      · exact hs.topics msg hmem
      · exact List.mem_singleton.1 hmem ▸ htopic
  · exact fun hs' ↦ hs'.topics _ (List.mem_append_right _ (List.mem_singleton_self _))

end Signals

/-- **A step keeps the signals exactly if it keeps clear of the ways to lose one.** -/
theorem kept_iff (hs : Signals s) (hstep : core.step s l = some s') : Kept s l ↔ Signals s' := by
  cases does_of_step hstep with
  | connect message =>
    refine iff_of_true trivial ⟨fun msg hmsg ↦ ?_, hs.topics⟩
    show (s.sent ++ [message]).count msg = s.started.count msg +
      (s.receivers .otaWatch).inHand.count msg +
      ((s.backlog ++ [(⟨s.sent.length, message⟩ : Conn)]).map Conn.message).count msg
    rw [List.map_append, List.count_append, List.count_append, hs.kept msg hmsg]
    exact Nat.add_assoc ..
  | mainLoop | ready | notReady => exact iff_of_true trivial (hs.goto_main _)
  | watchLoop hr =>
    refine iff_of_true trivial (hs.goto_otaWatch ?_)
    rw [hr]
    split <;> rfl
  | @notAccepted r hr | @rest r hr =>
    cases r with
    | main => exact iff_of_true trivial (hs.goto_main _)
    | otaWatch => exact iff_of_true trivial (hs.goto_otaWatch (hr ▸ rfl))
  | @accepted r fd conn backlog hr hbacklog =>
    cases r with
    | main =>
      rw [← hs.accept_main_iff hbacklog, Kept, hbacklog]
      simp
    | otaWatch =>
      rw [← hs.accept_otaWatch_iff hr hbacklog, Kept, hbacklog]
      simp
  | @read r fd conn got pc hr hpc =>
    have hclose : Signals (s.close fd) := hs.of_eq rfl rfl rfl rfl rfl
    cases r with
    | main => exact iff_of_true trivial (hclose.goto_main _)
    | otaWatch =>
      obtain rfl := received_otaWatch hpc
      rw [Kept]
      split
      next hgot =>
        refine iff_of_true (fun _ _ _ ↦ hgot) (hclose.goto_otaWatch ?_)
        exact (congrArg ReceiverPc.inHand hr).symm
      next hgot =>
        have hnone : (((s.close fd).goto .otaWatch .rest).receivers .otaWatch).inHand = [] := by
          rw [Daemon.receivers_goto]
          rfl
        have hdrop : _ ↔ Signals ((s.close fd).goto .otaWatch .rest) :=
          hs.drop_iff rfl rfl hnone rfl rfl
        rw [← hdrop]
        exact forall₂_congr fun _ _ ↦ imp_congr_right fun _ ↦ iff_of_false hgot id
  | @start conn hr =>
    -- the message in hand goes over to those for which the client was started
    refine iff_of_true trivial ⟨fun msg hmsg ↦ ?_, hs.topics⟩
    have hkept := hs.kept msg hmsg
    rw [hr] at hkept
    show s.sent.count msg = (s.started ++ [conn.message]).count msg +
      ((s.goto .otaWatch .rest).receivers .otaWatch).inHand.count msg +
      (s.backlog.map Conn.message).count msg
    rw [hkept, List.count_append, s.receivers_goto]
    rfl
  | cleanup => exact hs.drop_iff rfl rfl rfl rfl rfl
  | disconnect | signal | sendStep | send | wake =>
    exact iff_of_true trivial (hs.of_eq rfl rfl rfl rfl rfl)

end JuliusOS.Core
