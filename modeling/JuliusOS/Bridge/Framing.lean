import JuliusOS.Bridge.Publish
import JuliusOS.Foundations.Stream

/-!
# One read, one message

Both ends of the broker's socket take the result of one read for one message.

`client_handler` asks for `sizeof(IPCMessage)` bytes and ignores a read that returned fewer, with
the bytes it returned. `listen` in `_start_listener` asks for 8256 bytes, fewer than a message of
either layout has, and hands on whatever came.

* `run_reads`: what `client_handler` makes of its reads, in the machine of the broker;
* `framing_iff`: the broker acts on exactly the messages that were written to it if and only if
  every read returned a whole message, and the bridge hands on exactly the messages that the broker
  wrote if and only if the broker wrote none.
-/

open StructLayout

namespace JuliusOS.Bridge

variable {abi : TimeT} {frames reads : List Bytes}

/-! ### The two loops -/

/-- The messages that the loop of `client_handler` acts on, from the results of its reads: one that
returns nothing ends it. -/
def clientHandler (abi : TimeT) : List Bytes → List Bytes
  | [] => []
  | r :: rs =>
    if r.length = 0 then []
    else if r.length ≠ sizeof (ipcMessageFields abi) then clientHandler abi rs
    else r :: clientHandler abi rs

/-- How many bytes `listen` asks for. -/
abbrev recvSize : ℕ := 8256

/-- What `listen` hands to `_handle_message`, from the results of its calls of `recv`. -/
def listen : List Bytes → List Bytes
  | [] => []
  | data :: rest => if data = [] then [] else data :: listen rest

theorem clientHandler_eq (abi : TimeT) (h : ∀ r ∈ reads, r ≠ []) :
    clientHandler abi reads = reads.filter fun r ↦ r.length = sizeof (ipcMessageFields abi) := by
  induction reads with
  | nil => rfl
  | cons r rs ih =>
    have hr : r.length ≠ 0 := fun h0 ↦ h r (List.mem_cons_self ..) (List.length_eq_zero_iff.1 h0)
    rw [clientHandler, if_neg hr, ih fun x hx ↦ h x (List.mem_cons_of_mem r hx)]
    by_cases hsize : r.length = sizeof (ipcMessageFields abi)
    · rw [if_neg (not_not.2 hsize), List.filter_cons_of_pos (by simpa using hsize)]
    · rw [if_pos hsize, List.filter_cons_of_neg (by simpa using hsize)]

theorem listen_eq (h : ∀ r ∈ reads, r ≠ []) : listen reads = reads := by
  induction reads with
  | nil => rfl
  | cons r rs ih =>
    rw [listen, if_neg (h r (List.mem_cons_self ..)), ih fun x hx ↦ h x (List.mem_cons_of_mem r hx)]

/-- What comes after the end of the stream is not looked at. -/
theorem clientHandler_append_nil (abi : TimeT) (reads rest : List Bytes) :
    clientHandler abi (reads ++ [] :: rest) = clientHandler abi reads := by
  induction reads with
  | nil => rfl
  | cons r rs ih => rw [List.cons_append, clientHandler, clientHandler, ih]

theorem listen_append_nil (reads rest : List Bytes) :
    listen (reads ++ [] :: rest) = listen reads := by
  induction reads with
  | nil => rfl
  | cons r rs ih => rw [List.cons_append, listen, listen, ih]

/-! ### The broker's machine -/

/-- The message that was read, if it is a whole one. -/
def toMessage (r : Bytes) : Option Ipc.IPCMessage :=
  if h : r.length = sizeof Ipc.ipcMessageFields then some ⟨r, h⟩ else none

/-- What the handler of connection `k` does about a read. -/
def readEvent (k : ℕ) (r : Bytes) : Ipc.Event :=
  match toMessage r with
  | some msg => .frame k msg
  | none => .partialRead k

theorem clientHandler_eq_map (h : ∀ r ∈ reads, r ≠ []) :
    clientHandler .bits64 reads = (reads.filterMap toMessage).map Image.bytes := by
  rw [clientHandler_eq _ h, List.map_filterMap, ← List.filterMap_eq_filter]
  refine List.filterMap_congr fun r _ ↦ ?_
  rw [toMessage, Option.guard]
  by_cases hr : r.length = sizeof (ipcMessageFields .bits64)
  · rw [dif_pos (show r.length = sizeof Ipc.ipcMessageFields from hr),
      if_pos (decide_eq_true hr)]
    rfl
  · rw [dif_neg (show ¬ r.length = sizeof Ipc.ipcMessageFields from hr), if_neg (by simpa using hr)]
    rfl

/-- Acting on a message leaves the handlers as they are. -/
theorem handlerIn_frame {s s' : Ipc.System} {k : ℕ} {msg : Ipc.IPCMessage} {phase : Ipc.Phase}
    (hstep : Ipc.system.step s (.frame k msg) = some s') :
    s'.handlerIn k phase = s.handlerIn k phase := by
  obtain ⟨h, -, rfl⟩ := Option.map_eq_some_iff.1 hstep
  rfl

/-- **What `client_handler` makes of its reads**: a read of a whole message is that message, any
other changes nothing. -/
theorem run_reads {s : Ipc.System} {k : ℕ} {h : Ipc.Handler} (hk : s.handlerIn k .serving = some h)
    (reads : List Bytes) :
    Ipc.system.run s (reads.map (readEvent k)) =
      Ipc.system.run s ((reads.filterMap toMessage).map (Ipc.Event.frame k)) := by
  induction reads generalizing s with
  | nil => rfl
  | cons r rs ih =>
    rw [List.map_cons, Machine.run_cons, readEvent]
    cases hr : toMessage r with
    | none =>
      rw [List.filterMap_cons_none hr, ← ih hk]
      -- a short read is skipped, and the handler reads again
      show ((s.handlerIn k .serving).map fun _ ↦ s).bind _ = _
      rw [hk]
      rfl
    | some msg =>
      rw [List.filterMap_cons_some hr, List.map_cons, Machine.run_cons]
      cases hstep : Ipc.system.step s (.frame k msg) with
      | none => rfl
      | some s' => exact ih ((handlerIn_frame hstep).trans hk)

/-! ### Which cuts keep the messages -/

theorem recvSize_lt (abi : TimeT) : recvSize < sizeof (ipcMessageFields abi) := by
  cases abi <;> decide

/-- **When messages stay whole.** Of messages written to the broker, its handler acts on exactly
these, in order, if and only if every read returned a message's number of bytes. Of messages that
the broker wrote, the bridge hands on exactly these, one by one and in order, if and only if there
were none. -/
theorem framing_iff {received recvs : List Bytes}
    (hframes : ∀ f ∈ frames, f.length = sizeof (ipcMessageFields abi))
    (hreads : Cuts (sizeof (ipcMessageFields abi)) frames.flatten reads)
    (hreceived : ∀ f ∈ received, f.length = sizeof (ipcMessageFields abi))
    (hrecvs : Cuts recvSize received.flatten recvs) :
    (clientHandler abi reads = frames ↔ ∀ r ∈ reads, r.length = sizeof (ipcMessageFields abi)) ∧
      (listen recvs = received ↔ received = []) := by
  have hpos : 0 < sizeof (ipcMessageFields abi) :=
    Nat.lt_of_le_of_lt (Nat.zero_le _) (recvSize_lt abi)
  rw [clientHandler_eq abi hreads.ne_nil, listen_eq hrecvs.ne_nil]
  exact ⟨hreads.filter_length_eq_iff hpos hframes,
    hrecvs.eq_records_iff_of_lt (recvSize_lt abi) hreceived⟩

/-- A message of zeros, for a `time_t` of eight bytes. -/
def zeroFrame : Bytes := List.replicate 8280 0

/-- Two messages to the broker, each read at once, and none to the bridge. -/
theorem framing_two_frames :
    (clientHandler .bits64 [zeroFrame, zeroFrame] = [zeroFrame, zeroFrame] ↔
        ∀ r ∈ [zeroFrame, zeroFrame], r.length = sizeof (ipcMessageFields .bits64)) ∧
      (listen [] = [] ↔ ([] : List Bytes) = []) := by
  have hlen : ∀ r ∈ [zeroFrame, zeroFrame], r.length = sizeof (ipcMessageFields .bits64) := by
    decide +kernel
  refine framing_iff hlen ⟨rfl, fun r hr h ↦ ?_, fun r hr ↦ (hlen r hr).le⟩ (by simp)
    ⟨rfl, by simp, by simp⟩
  have hpos := hlen r hr
  rw [h] at hpos
  exact absurd hpos (by decide)

/-- The message of zeros in two parts. -/
def zeroHalves (n : ℕ) : List Bytes := [List.replicate n 0, List.replicate (8280 - n) 0]

theorem cuts_zeroHalves {limit n : ℕ} (hpos : 0 < n) (hlt : n < 8280) (hn : n ≤ limit)
    (hrest : 8280 - n ≤ limit) : Cuts limit [zeroFrame].flatten (zeroHalves n) where
  flatten_eq := by
    rw [zeroHalves, zeroFrame, List.flatten_cons, List.flatten_singleton, List.flatten_singleton,
      List.replicate_append_replicate, Nat.add_sub_of_le hlt.le]
  ne_nil := by
    simp only [zeroHalves, List.mem_cons, List.not_mem_nil, or_false, forall_eq_or_imp, forall_eq,
      ne_eq, List.replicate_eq_nil_iff]
    omega
  length_le := by
    simp only [zeroHalves, List.mem_cons, List.not_mem_nil, or_false, forall_eq_or_imp, forall_eq,
      List.length_replicate]
    exact ⟨hn, hrest⟩

/-- A message to the broker that is read in two parts is not acted on, and one that the bridge
receives is not handed on. -/
theorem not_framing_two_reads :
    (Cuts (sizeof (ipcMessageFields .bits64)) [zeroFrame].flatten (zeroHalves 64) ∧
        clientHandler .bits64 (zeroHalves 64) ≠ [zeroFrame]) ∧
      Cuts recvSize [zeroFrame].flatten (zeroHalves recvSize) ∧
        listen (zeroHalves recvSize) ≠ [zeroFrame] := by
  have hread : Cuts (sizeof (ipcMessageFields .bits64)) [zeroFrame].flatten (zeroHalves 64) :=
    cuts_zeroHalves (by decide) (by decide) (by decide) (by decide)
  have hrecv : Cuts recvSize [zeroFrame].flatten (zeroHalves recvSize) :=
    cuts_zeroHalves (by decide) (by decide) (by decide) (by decide)
  refine ⟨⟨hread, fun h ↦ ?_⟩, hrecv, fun h ↦ ?_⟩
  · rw [clientHandler_eq _ hread.ne_nil, zeroHalves, List.filter_cons_of_neg,
      List.filter_cons_of_neg, List.filter_nil] at h
    · cases h
    · rw [List.length_replicate]
      decide
    · rw [List.length_replicate]
      decide
  · rw [listen_eq hrecv.ne_nil] at h
    exact absurd (congrArg List.length h) (by decide)

end JuliusOS.Bridge
