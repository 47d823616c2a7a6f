import JuliusOS.Foundations.CString
import JuliusOS.Foundations.StructLayout

/-!
# Receiving a message in the core daemon

`ipc_receive` and `ipc_receive_any` of `services/julius_core/ipc.c`. Both take one connection,
read at most one `IPCMessage` from it and copy its payload into the caller's buffer. How much they
copy is decided by the message's own `data_len` and the caller's `buflen` alone.

A message is the struct's memory image after the read. A read that brought only a part of it
leaves the rest of the struct as it was on the stack, so every image is possible. A connection
that brings nothing (`accept` or `read` fails, or the peer closes) is `none`.

`copyPayload` is `none` where `memcpy` leaves a buffer.
-/

open CString StructLayout

namespace JuliusOS.Core

/-- `IPC_BUF_SIZE`. -/
abbrev ipcBufSize : ℕ := 4096

/-- The fields of `IPCMessage`: `topic`, `data`, `data_len`. -/
def ipcMessageFields : List CType := [charArray 64, charArray ipcBufSize, int32]

/-- An `IPCMessage` as it was read. -/
abbrev IpcMessage := Image ipcMessageFields

namespace IpcMessage

variable (msg : IpcMessage)

/-- `msg.topic` and what follows it. -/
def topic : Bytes := msg.memFrom 0

/-- `msg.data`. -/
def data : Bytes := msg.field 1

/-- `msg.data_len`. -/
def dataLen : ℤ := msg.i32 2

theorem length_data : msg.data.length = ipcBufSize :=
  Bytes.length_slice (by rw [msg.length_bytes]; decide)

end IpcMessage

/-- `msg.data_len < buflen ? msg.data_len : buflen`. -/
def copyLen (msg : IpcMessage) (buflen : ℕ) : ℤ :=
  if msg.dataLen < buflen then msg.dataLen else buflen

theorem zero_add_length_take_le (msg : IpcMessage) (buflen : ℕ) :
    0 + (msg.data.take (copyLen msg buflen).toNat).length ≤ buflen := by
  have hle : (copyLen msg buflen).toNat ≤ buflen := by
    rw [copyLen]
    split <;> omega
  rw [Nat.zero_add, List.length_take]
  exact (Nat.min_le_left _ _).trans hle

/-- `memcpy(buf, msg.data, copy)`: the returned length and the caller's buffer. -/
def copyPayload {buflen : ℕ} (msg : IpcMessage) (buf : Buf buflen) : Option (ℤ × Buf buflen) :=
  let copy := copyLen msg buflen
  if 0 ≤ copy ∧ copy ≤ ipcBufSize then
    some (copy, buf.write 0 (msg.data.take copy.toNat) (zero_add_length_take_le msg buflen))
  else none

/-- `ipc_receive(topic, buf, buflen)`, given what the connection brought. -/
def ipcReceive {buflen : ℕ} (topic : Bytes) (buf : Buf buflen) :
    Option IpcMessage → Option (ℤ × Buf buflen)
  | none => some (-1, buf)
  | some msg => if strcmpEq msg.topic topic then copyPayload msg buf else some (-1, buf)

/-- `ipc_receive_any(topic_out, buf, buflen)`, given what the connection brought: the returned
length and the two buffers. -/
def ipcReceiveAny {buflen : ℕ} (topicOut : Buf 64) (buf : Buf buflen) :
    Option IpcMessage → Option (ℤ × Buf 64 × Buf buflen)
  | none => some (-1, topicOut, buf)
  | some msg => (copyPayload msg buf).map fun out ↦
      (out.1, topicOut.strncpy msg.topic 63 Buf.le_64, out.2)

end JuliusOS.Core
