import JuliusOS.Bridge.Requests
import JuliusOS.Ipc.Broker

/-!
# From the bridge to the broker

`_send_ipc` of `src/system/julius_bridge.py` packs an `IPCMessage` by hand: topic, data, a length
and a process id of four bytes each, the time in eight bytes and the flags in four, 8276 bytes in
all, and sends the first 8272 of them.

What the broker makes of the frame depends on its `time_t`. With four bytes `sizeof(IPCMessage)` is
8272, the time field gets the low half of the eight bytes and the flags field the high half. With
eight bytes the struct ends in padding and has 8280 bytes, so no frame is ever as long as the
`read` in `client_handler` demands. `sendsMessage_iff` is the resulting condition.
-/

open StructLayout Utf8
open Bytes (le ljust ofLeInt)

namespace JuliusOS.Bridge

/-- The width of the broker's `time_t`. -/
inductive TimeT
  /-- Four bytes. -/
  | bits32
  /-- Eight bytes. -/
  | bits64
deriving DecidableEq

/-- `time_t` as a field. -/
def TimeT.ctype : TimeT → CType
  | bits32 => int32
  | bits64 => int64

/-- The fields of the broker's `IPCMessage`: `topic`, `data`, `data_len`, `sender`, `timestamp`,
`flags`. -/
def ipcMessageFields (abi : TimeT) : List CType :=
  [charArray 64, charArray 8192, int32, int32, abi.ctype, int32]

example : ipcMessageFields .bits64 = Ipc.ipcMessageFields := rfl

example : sizeof (ipcMessageFields .bits32) = 8272 ∧ sizeof (ipcMessageFields .bits64) = 8280 := by
  decide

/-- `struct.pack('Q', n)`. -/
def packULong (n : ℤ) : Option Bytes :=
  if 0 ≤ n ∧ n < 2 ^ 64 then some (le 8 n.toNat) else none

/-- What `_send_ipc` sends, for a process id and a time. -/
def sendIpcMsg (topic : String) (data : Bytes) (pid : ℕ) (time : ℤ) : Option Bytes :=
  match packUInt data.length, packUInt pid, packULong time with
  | some dataLen, some sender, some timestamp =>
    some ([ljust 64 0 (encode topic.toList), ljust 8192 0 data, dataLen, sender, timestamp,
      le 4 0].flatten.take 8272)
  | _, _, _ => none

/-- The frame is the struct, and the broker reads from it what was sent. -/
structure ReadsBack (abi : TimeT) (topic : String) (payload : Bytes) (pid : ℕ) (time : ℤ)
    (msg : Bytes) : Prop where
  /-- The frame is as long as `client_handler` demands. -/
  length : msg.length = sizeof (ipcMessageFields abi)
  /-- `topic`. -/
  topic : field (ipcMessageFields abi) msg 0 = ljust 64 0 (encode topic.toList)
  /-- `data`. -/
  data : field (ipcMessageFields abi) msg 1 = ljust 8192 0 payload
  /-- `data_len`. -/
  dataLen : ofLeInt (field (ipcMessageFields abi) msg 2) = payload.length
  /-- `sender`. -/
  sender : ofLeInt (field (ipcMessageFields abi) msg 3) = pid
  /-- `timestamp`. -/
  timestamp : ofLeInt (field (ipcMessageFields abi) msg 4) = time

/-- `_send_ipc` sends a frame, and the broker reads from it what was sent. -/
def SendsMessage (abi : TimeT) (topic : String) (payload : Bytes) (pid : ℕ) (time : ℤ) : Prop :=
  ∃ msg, sendIpcMsg topic payload pid time = some msg ∧ ReadsBack abi topic payload pid time msg

/-! ### The frame -/

variable {topic : String} {payload : Bytes} {pid : ℕ} {time : ℤ}

/-- The values of the frame, in the struct with a time of four bytes: the cut takes away the
flags, and the high half of the time is in their place. -/
def frameValues (topic : String) (payload : Bytes) (pid time : ℕ) : List Value :=
  [.text 64 (encode topic.toList), .text 8192 payload, .number payload.length, .number pid,
    .number time, .number (time / 2 ^ 32)]

theorem fits_frameValues (htopic : (encode topic.toList).length ≤ 63)
    (hpayload : payload.length ≤ 8192) (t : ℕ) : ∀ v ∈ frameValues topic payload pid t, v.Fits := by
  have : (encode topic.toList).length ≤ 64 := by omega
  simp [frameValues, Value.Fits, this, hpayload]

/-- The frame has 8272 bytes. -/
theorem length_frame (htopic : (encode topic.toList).length ≤ 63)
    (hpayload : payload.length ≤ 8192) (t : ℕ) :
    ((frameValues topic payload pid t).flatMap Value.bytes).length = 8272 := by
  rw [length_flatMap_bytes (fits_frameValues htopic hpayload t)]
  simp [frameValues, Value.ctype, totalSize, charArray, int32]

/-- **What is sent** are these values one behind the other, if the numbers can be packed. -/
theorem sendIpcMsg_eq_some_iff (htopic : (encode topic.toList).length ≤ 63)
    (hpayload : payload.length ≤ 8192) (msg : Bytes) :
    sendIpcMsg topic payload pid time = some msg ↔
      (pid < 2 ^ 32 ∧ 0 ≤ time ∧ time < 2 ^ 64) ∧
        msg = (frameValues topic payload pid time.toNat).flatMap Value.bytes := by
  have hlen : packUInt payload.length = some (le 4 payload.length) := if_pos (by omega)
  have hcut : ∀ t, [ljust 64 0 (encode topic.toList), ljust 8192 0 payload, le 4 payload.length,
      le 4 pid, le 8 t, le 4 0].flatten.take 8272 =
        (frameValues topic payload pid t).flatMap Value.bytes := by
    intro t
    have hsplit : [ljust 64 0 (encode topic.toList), ljust 8192 0 payload, le 4 payload.length,
        le 4 pid, le 8 t, le 4 0].flatten =
          (frameValues topic payload pid t).flatMap Value.bytes ++ le 4 0 := by
      rw [show le 8 t = le 4 t ++ le 4 (t / 2 ^ 32) from Bytes.le_add 4 4 t]
      simp [frameValues, Value.bytes]
    rw [hsplit]
    exact List.take_left' (length_frame htopic hpayload t)
  rw [sendIpcMsg, hlen, packUInt, packULong]
  by_cases hpid : pid < 2 ^ 32
  · by_cases htime : 0 ≤ time ∧ time < 2 ^ 64
    · rw [if_pos hpid, if_pos htime]
      simp only [hcut, Option.some.injEq, hpid, htime, and_self, true_and, eq_comm]
    · rw [if_pos hpid, if_neg htime]
      exact iff_of_false (by simp) fun h ↦ htime h.1.2
  · rw [if_neg hpid]
    exact iff_of_false (by simp) fun h ↦ hpid h.1.1

theorem packed_ipcMessageFields : Packed (ipcMessageFields .bits32) := by decide

/-- A broker with a time of four bytes reads the values back. -/
theorem field_frame (htopic : (encode topic.toList).length ≤ 63)
    (hpayload : payload.length ≤ 8192) (t : ℕ) {i : ℕ} {v : Value}
    (hv : (frameValues topic payload pid t)[i]? = some v) :
    field (ipcMessageFields .bits32) ((frameValues topic payload pid t).flatMap Value.bytes) i =
      v.bytes :=
  @field_flatMap_bytes (frameValues topic payload pid t) packed_ipcMessageFields
    (fits_frameValues htopic hpayload t) i v hv

/-- A broker with a time of eight bytes waits for eight bytes more. -/
theorem not_sendsMessage_bits64 (htopic : (encode topic.toList).length ≤ 63)
    (hpayload : payload.length ≤ 8192) : ¬ SendsMessage .bits64 topic payload pid time := by
  rintro ⟨msg, hmsg, hreads⟩
  obtain ⟨-, rfl⟩ := (sendIpcMsg_eq_some_iff htopic hpayload msg).1 hmsg
  have hlen := hreads.length
  rw [length_frame htopic hpayload] at hlen
  exact absurd hlen (by decide)

/-- **When the broker gets the message.** For every topic of at most 63 bytes and every payload of
at most 8192 bytes: exactly if its `time_t` has four bytes and the process id and the time are what
such a field can hold. -/
theorem sendsMessage_iff (abi : TimeT) (htopic : (encode topic.toList).length ≤ 63)
    (hpayload : payload.length ≤ 8192) :
    SendsMessage abi topic payload pid time ↔
      abi = .bits32 ∧ pid < 2 ^ 31 ∧ 0 ≤ time ∧ time < 2 ^ 31 := by
  cases abi with
  | bits64 =>
    exact iff_of_false (not_sendsMessage_bits64 htopic hpayload) fun h ↦ absurd h.1 (by decide)
  | bits32 =>
    set frame := (frameValues topic payload pid time.toNat).flatMap Value.bytes with hframe
    have hfield : ∀ (i : ℕ) (v : Value), (frameValues topic payload pid time.toNat)[i]? = some v →
        field (ipcMessageFields .bits32) frame i = v.bytes := by
      intro i v hv
      exact field_frame htopic hpayload time.toNat hv
    have hsender := hfield 3 (.number pid) rfl
    have htimestamp := hfield 4 (.number time.toNat) rfl
    constructor
    · rintro ⟨msg, hmsg, hreads⟩
      obtain ⟨⟨-, hnonneg, -⟩, rfl⟩ := (sendIpcMsg_eq_some_iff htopic hpayload msg).1 hmsg
      have hpid := hreads.sender
      have htime := hreads.timestamp
      rw [hsender] at hpid
      rw [htimestamp] at htime
      refine ⟨rfl, Bytes.ofLeInt_le_iff.1 hpid, hnonneg, ?_⟩
      have hlt : time.toNat < 2 ^ 31 :=
        Bytes.ofLeInt_le_iff.1 (htime.trans (Int.toNat_of_nonneg hnonneg).symm)
      omega
    · rintro ⟨-, hpid, hnonneg, hlt⟩
      refine ⟨frame, (sendIpcMsg_eq_some_iff htopic hpayload frame).2 ⟨by omega, rfl⟩,
        (length_frame htopic hpayload _).trans (by decide), hfield 0 _ rfl, hfield 1 _ rfl,
        ?_, ?_, ?_⟩
      · rw [hfield 2 (.number payload.length) rfl]
        exact Bytes.ofLeInt_le_iff.2 (by omega)
      · rw [hsender]
        exact Bytes.ofLeInt_le_iff.2 hpid
      · rw [htimestamp]
        exact (Bytes.ofLeInt_le_iff.2 (by omega)).trans (Int.toNat_of_nonneg hnonneg)

/-- A broker with a time of four bytes gets a battery reading. -/
theorem sendsMessage_battery :
    SendsMessage .bits32 "BATTERY" (Bytes.ofAscii "85") 100 1700000000 :=
  (sendsMessage_iff .bits32 (by decide) (by decide)).2 (by decide)

/-- One with a time of eight bytes does not. -/
theorem not_sendsMessage_battery :
    ¬ SendsMessage .bits64 "BATTERY" (Bytes.ofAscii "85") 100 1700000000 :=
  not_sendsMessage_bits64 (by decide) (by decide)

end JuliusOS.Bridge
