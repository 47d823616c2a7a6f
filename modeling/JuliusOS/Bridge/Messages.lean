import JuliusOS.Bridge.Keychain
import JuliusOS.Bridge.Publish
import Mathlib.Data.List.DropRight

/-!
# What the bridge makes of a message

`_handle_message` of `src/system/julius_bridge.py` takes topic and payload out of a frame by cutting
the zero bytes off the ends of the two fields. It does not read the length that the frame carries,
so zero bytes at the end of the payload are lost. An exception in a callback is caught before the
next callback is called.

* `calls_handleMessage`: whom it calls, and with what;
* `payload_iff`: when that is what was published; and the battery level of
  `src/system/julius_status.py`, whose payload of four bytes never comes through.
-/

open StructLayout Utf8
open Bytes (le ofLe ljust)

namespace JuliusOS.Bridge

/-- `b.rstrip(b'\x00')`. -/
def rstrip (b : Bytes) : Bytes := b.rdropWhile (· = 0)

/-! ### The code -/

/-- What `_handle_message` does. -/
inductive Act (κ : Type*)
  /-- A call of a callback. -/
  | call (cb : κ) (topic : List Char) (payload : Bytes)
  /-- The print of a callback's exception. -/
  | callbackError
  /-- The print of another exception. -/
  | messageError

/-- A call of a callback. -/
structure CallbackCall (κ : Type*) where
  /-- The callback. -/
  cb : κ
  /-- Its first argument. -/
  topic : List Char
  /-- Its second argument. -/
  payload : Bytes
deriving DecidableEq

/-- The call that was made, if it was one. -/
def Act.call? {κ : Type*} : Act κ → Option (CallbackCall κ)
  | .call cb topic payload => some ⟨cb, topic, payload⟩
  | _ => none

variable {κ : Type*} (raises : CallbackCall κ → Bool) (callbacks : List Char → List κ)

/-- The loop of `_handle_message`; `raises` says which calls raise an exception. -/
def callbackLoop (topic : List Char) (payload : Bytes) : List κ → List (Act κ)
  | [] => []
  | cb :: cbs =>
    (.call cb topic payload :: if raises ⟨cb, topic, payload⟩ then [.callbackError] else []) ++
      callbackLoop topic payload cbs

/-- `_handle_message`; `callbacks` gives the callbacks registered for a topic, none for a topic that
is not in `_callbacks`. -/
def handleMessage (data : Bytes) : List (Act κ) :=
  match decodeStrict (rstrip (data.take 64)) with
  | some topic =>
    callbackLoop raises topic (rstrip ((data.drop 64).take 8192)) (callbacks topic)
  | none => [.messageError]

/-- The calls that `_handle_message` makes. -/
def calls (data : Bytes) : List (CallbackCall κ) :=
  (handleMessage raises callbacks data).filterMap Act.call?

/-- `_on_battery`: `struct.unpack('I', data[:4])[0]`, whose exception is swallowed. -/
def onBattery (batteryLevel : ℕ) (data : Bytes) : ℕ :=
  (unpackUInt (data.take 4)).getD batteryLevel

/-- `battery_level` after some calls, of which those of `battery` are calls of `_on_battery`. -/
def batteryAfter [DecidableEq κ] (battery : κ) (batteryLevel : ℕ)
    (cs : List (CallbackCall κ)) : ℕ :=
  cs.foldl (fun level c ↦ if c.cb = battery then onBattery level c.payload else level) batteryLevel

/-- A complete frame that carries a payload on a topic. -/
structure Publishes (abi : TimeT) (topic : List Char) (payload : Bytes)
    (frame : Image (ipcMessageFields abi)) : Prop where
  /-- `topic`. -/
  topic : frame.field 0 = ljust 64 0 (encode topic)
  /-- `data`. -/
  data : frame.field 1 = ljust 8192 0 payload
  /-- `data_len`. -/
  dataLen : frame.u32 2 = payload.length

/-! ### Zero bytes at the end -/

variable {abi : TimeT} {topic : List Char} {payload : Bytes} {frame : Image (ipcMessageFields abi)}

theorem rstrip_append_replicate (b : Bytes) (n : ℕ) :
    rstrip (b ++ List.replicate n 0) = rstrip b := by
  induction n with
  | zero => rw [List.replicate_zero, List.append_nil]
  | succ n ih =>
    rw [List.replicate_succ', ← List.append_assoc, rstrip,
      List.rdropWhile_concat_pos _ _ _ (by simp)]
    exact ih

theorem rstrip_ljust (w : ℕ) (b : Bytes) : rstrip (ljust w 0 b) = rstrip b :=
  rstrip_append_replicate b _

theorem rstrip_eq_self_iff {b : Bytes} : rstrip b = b ↔ b.getLast? ≠ some 0 := by
  rw [rstrip, List.rdropWhile_eq_self_iff]
  constructor
  · intro h hlast
    obtain ⟨hne, hget⟩ := List.getLast?_eq_some_iff.1 hlast
    simp_all
  · intro h hne hzero
    exact h (by rw [List.getLast?_eq_some_getLast hne, of_decide_eq_true hzero])

/-- A topic without NULs at its end. -/
def stripNul (topic : List Char) : List Char := topic.rdropWhile (· = '\x00')

/-- Only NUL is encoded with a zero byte. -/
theorem zero_notMem_encodeChar {c : Char} (hc : c ≠ '\x00') :
    (0 : UInt8) ∉ String.utf8EncodeChar c := by
  intro hmem
  have hzero : String.utf8EncodeChar c = String.utf8EncodeChar '\x00' :=
    (mem_encodeChar_lt_iff hmem).1 (by decide)
  have hdec := decodeChar?_encodeChar_append c []
  rw [hzero, decodeChar?_encodeChar_append] at hdec
  exact hc (Option.some.inj hdec).symm

/-- **The topic** is read back without NULs at its end. -/
theorem rstrip_encode (topic : List Char) : rstrip (encode topic) = encode (stripNul topic) := by
  induction topic using List.reverseRecOn with
  | nil => rfl
  | append_singleton topic c ih =>
    rw [encode_append, encode_cons, encode_nil, List.append_nil]
    by_cases hc : c = '\x00'
    · rw [hc, stripNul, List.rdropWhile_concat_pos _ _ _ (by simp)]
      exact (rstrip_append_replicate (encode topic) 1).trans ih
    · rw [stripNul, List.rdropWhile_concat_neg _ _ _ (by simpa using hc), encode_append,
        encode_cons, encode_nil, List.append_nil, rstrip_eq_self_iff, List.getLast?_append]
      -- the last byte is one of the last character, which is not NUL
      have hne : String.utf8EncodeChar c ≠ [] := fun h ↦ by
        have hlen := String.length_utf8EncodeChar c
        rw [h] at hlen
        exact absurd hlen c.utf8Size_pos.ne
      rw [List.getLast?_eq_some_getLast hne, Option.some_or, Ne, Option.some.injEq]
      exact fun hlast ↦ zero_notMem_encodeChar hc (hlast ▸ List.getLast_mem hne)

/-! ### Whom the bridge calls -/

/-- Every callback is called, whichever of them raises an exception. -/
theorem filterMap_callbackLoop (topic : List Char) (payload : Bytes) (cbs : List κ) :
    (callbackLoop raises topic payload cbs).filterMap Act.call? =
      cbs.map fun cb ↦ ⟨cb, topic, payload⟩ := by
  induction cbs with
  | nil => rfl
  | cons cb cbs ih =>
    rw [callbackLoop, List.filterMap_append, ih, List.map_cons]
    split <;> rfl

/-- **The calls** are those of the callbacks for the topic without NULs at its end, with the payload
without zero bytes at its end. -/
theorem calls_handleMessage (hpub : Publishes abi topic payload frame) :
    calls raises callbacks frame.bytes =
      (callbacks (stripNul topic)).map fun cb ↦ ⟨cb, stripNul topic, rstrip payload⟩ := by
  have htopic : frame.bytes.take 64 = ljust 64 0 (encode topic) := by
    rw [← hpub.topic]
    cases abi <;> rfl
  have hdata : (frame.bytes.drop 64).take 8192 = ljust 8192 0 payload := by
    rw [← hpub.data]
    cases abi <;> rfl
  rw [calls, handleMessage, htopic, rstrip_ljust, rstrip_encode, decodeStrict_encode]
  show (callbackLoop raises _ _ _).filterMap Act.call? = _
  rw [filterMap_callbackLoop, hdata, rstrip_ljust]

/-! ### The battery level -/

/-- A small number loses its zero bytes. -/
theorem length_rstrip_le {n : ℕ} (hn : n < 256) : (rstrip (le 4 n)).length ≤ 1 := by
  have hle : le 4 n = [UInt8.ofNat n] ++ List.replicate 3 0 := by
    simp [le, Nat.div_eq_of_lt hn]
  rw [hle, rstrip_append_replicate]
  exact (List.rdropWhile_prefix _ _).length_le

theorem onBattery_of_short {old : ℕ} {data : Bytes} (h : data.length ≤ 3) :
    onBattery old data = old := by
  have hne : (data.take 4).length ≠ 4 := by
    rw [List.length_take]
    omega
  rw [onBattery, unpackUInt, if_neg hne]
  rfl

/-- Calls with a short payload leave the level as it is. -/
theorem batteryAfter_of_short [DecidableEq κ] {battery : κ} {old : ℕ} {cs : List (CallbackCall κ)}
    (h : ∀ c ∈ cs, c.payload.length ≤ 3) : batteryAfter battery old cs = old := by
  induction cs with
  | nil => rfl
  | cons c cs ih =>
    rw [batteryAfter, List.foldl_cons, onBattery_of_short (h c (List.mem_cons_self ..)), ite_self]
    exact ih fun d hd ↦ h d (List.mem_cons_of_mem c hd)

/-! ### When the payload comes through -/

/-- **When the payload comes through.** For every complete frame: the callbacks registered for its
topic are called once each, with exactly its payload, if and only if none is registered, or neither
the topic nor the payload ends in a zero byte. A battery level is taken over if and only if it was
the level before. -/
theorem payload_iff [DecidableEq κ] (hpub : Publishes abi topic payload frame) :
    (calls raises callbacks frame.bytes = (callbacks topic).map (fun cb ↦ ⟨cb, topic, payload⟩) ↔
      callbacks topic = [] ∧ callbacks (stripNul topic) = [] ∨
        stripNul topic = topic ∧ payload.getLast? ≠ some 0) ∧
      ∀ battery level old, level ≤ 100 → topic = "BATTERY".toList → payload = le 4 level →
        (batteryAfter battery old (calls raises callbacks frame.bytes) = level ↔ old = level) := by
  rw [calls_handleMessage raises callbacks hpub]
  refine ⟨?_, fun battery level old hlevel _ hpayload ↦ ?_⟩
  · rw [← rstrip_eq_self_iff]
    constructor
    · intro h
      -- a callback that is called tells what it was called with
      cases hcbs : callbacks (stripNul topic) with
      | nil =>
        rw [hcbs] at h
        exact Or.inl ⟨List.map_eq_nil_iff.1 h.symm, rfl⟩
      | cons cb cbs =>
        rw [hcbs, List.map_cons] at h
        obtain ⟨cb', cbs', -, hcall, -⟩ := List.map_eq_cons_iff.1 h.symm
        exact Or.inr ⟨(congrArg CallbackCall.topic hcall).symm,
          (congrArg CallbackCall.payload hcall).symm⟩
    · rintro (⟨hnone, hnone'⟩ | ⟨hsame, hpayload⟩)
      · rw [hnone, hnone']
        rfl
      · rw [hsame, hpayload]
  · -- what is left of the four bytes is too short to unpack
    rw [batteryAfter_of_short]
    intro c hc
    obtain ⟨cb, -, rfl⟩ := List.mem_map.1 hc
    have hshort := length_rstrip_le (show level < 256 by omega)
    rw [hpayload]
    exact hshort.trans (by decide)

/-- A frame for a `time_t` of eight bytes, with zeros behind the length. -/
def frameOf (topic : List Char) (payload : Bytes) (htopic : (encode topic).length ≤ 64)
    (hpayload : payload.length ≤ 8192) : Image (ipcMessageFields .bits64) where
  bytes := [ljust 64 0 (encode topic), ljust 8192 0 payload, le 4 payload.length,
    List.replicate 20 0].flatten
  length_bytes := by
    simp only [List.flatten_cons, List.flatten_nil, List.length_append, List.length_nil,
      Bytes.length_le, List.length_replicate, Bytes.length_ljust_of_le htopic,
      Bytes.length_ljust_of_le hpayload]
    decide

theorem publishes_frameOf (htopic : (encode topic).length ≤ 64) (hpayload : payload.length ≤ 8192) :
    Publishes .bits64 topic payload (frameOf topic payload htopic hpayload) := by
  have htopic' := Bytes.length_ljust_of_le (b := 0) htopic
  have hpayload' := Bytes.length_ljust_of_le (b := 0) hpayload
  refine ⟨Image.field_flatten [] _ _ rfl rfl htopic'.symm,
    Image.field_flatten [_] _ _ rfl ?_ hpayload'.symm,
    Image.u32_flatten [_, _] _ rfl ?_ rfl (by omega)⟩
  · simp only [List.flatten_cons, List.flatten_nil, List.append_nil, htopic']
    rfl
  · simp only [List.flatten_cons, List.flatten_nil, List.append_nil, List.length_append, htopic',
      hpayload']
    rfl

/-- Two callbacks, the first of which raises an exception, get a text. -/
theorem payload_two_callbacks :
    calls (fun c ↦ c.cb = 0) (fun t ↦ if t = "OTA".toList then [0, 1] else [])
        (frameOf "OTA".toList (Bytes.ofAscii "ready") (by decide) (by decide)).bytes =
      [⟨0, "OTA".toList, Bytes.ofAscii "ready"⟩, ⟨1, "OTA".toList, Bytes.ofAscii "ready"⟩] :=
  ((payload_iff _ _ (publishes_frameOf (by decide) (by decide))).1.2
    (Or.inr ⟨by decide, by decide⟩)).trans (by decide)

/-- A battery level of 50 reaches the callback as one byte, and the level stays 85. -/
theorem not_payload_battery :
    ∃ frame, Publishes .bits64 "BATTERY".toList (le 4 50) frame ∧
      calls (fun _ ↦ false) (fun t ↦ if t = "BATTERY".toList then [0] else []) frame.bytes =
        [⟨0, "BATTERY".toList, [50]⟩] ∧
      batteryAfter 0 85 (calls (fun _ ↦ false)
        (fun t ↦ if t = "BATTERY".toList then [0] else []) frame.bytes) = 85 := by
  have hpub : Publishes .bits64 "BATTERY".toList (le 4 50)
      (frameOf "BATTERY".toList (le 4 50) (by decide) (by decide)) := publishes_frameOf _ _
  refine ⟨_, hpub, ?_⟩
  rw [calls_handleMessage _ _ hpub]
  decide

end JuliusOS.Bridge
