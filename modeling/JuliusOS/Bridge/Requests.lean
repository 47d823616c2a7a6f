import JuliusOS.Bridge.Keychain
import JuliusOS.Foundations.FixedWidth
import JuliusOS.Permissions.Daemon

/-!
# The bridge's fixed-width requests

`send_notification`, `check_permission` and `keychain_save` of `src/system/julius_bridge.py` build
a C struct by hand: every text is encoded and padded with `ljust`, which never cuts, and the
pieces are sent one behind the other.

`sendsStruct_iff` says for which arguments the daemon gets its struct: exactly if every encoded
text fits its field and every number fits 32 bits. It is the number of bytes that counts, not that
of characters, and a text that fills its field leaves no room for a NUL.
-/

open StructLayout Utf8
open Bytes (le ljust)

namespace JuliusOS.Bridge

open Keychain Permissions

/-- `struct.pack('I', n)` of any integer. -/
def packInt (n : ℤ) : Option Bytes := if 0 ≤ n then packUInt n.toNat else none

theorem packInt_eq_some_iff {n : ℤ} {b : Bytes} :
    packInt n = some b ↔ (0 ≤ n ∧ n < 2 ^ 32) ∧ b = le 4 n.toNat := by
  rw [packInt]
  split
  next h =>
    rw [packUInt, Option.ite_none_right_eq_some, Option.some.injEq, eq_comm (b := b)]
    exact and_congr_left fun _ ↦ by omega
  next h => simp [h]

/-! ### The messages -/

/-- The fields of `PushRequest`: `op`, `app`, `title`, `body`, `action`, `badge`, `sound`,
`priority`, `notif_id`. -/
def pushRequestFields : List CType :=
  [int32, charArray 64, charArray 128, charArray 256, charArray 64, int32, int32, int32, int32]

/-- What `send_notification` sends. -/
def sendNotificationMsg (app title body : String) (priority : ℤ) : Option Bytes :=
  (packInt priority).map fun prio ↦
    [le 4 1, ljust 64 0 (encode app.toList), ljust 128 0 (encode title.toList),
      ljust 256 0 (encode body.toList), List.replicate 64 0, le 4 0, le 4 1, prio,
      le 4 0].flatten

/-- What `check_permission` sends. -/
def checkPermissionMsg (app : String) (permType : ℤ) : Option Bytes :=
  (packInt permType).map fun ptype ↦ [le 4 1, ljust 64 0 (encode app.toList), ptype].flatten

/-- The bytes of the data given to `keychain_save`. -/
def dataBytes (data : String ⊕ Bytes) : Bytes := data.elim (fun text ↦ encode text.toList) id

/-- What `keychain_save` sends. -/
def keychainSaveMsg (service account : String) (data : String ⊕ Bytes) : Option Bytes :=
  (packUInt (dataBytes data).length).map fun dlen ↦
    [le 4 1, nameField service, nameField account, ljust 512 0 (dataBytes data), dlen,
      List.replicate 128 0].flatten

/-- A save is this message and the reading of the answer. -/
theorem keychainSave_eq (A : Gcm) (env : Keychain.Env) (st : Store) (service account : String)
    (data : String ⊕ Bytes) :
    keychainSave A env st service account data =
      (keychainSaveMsg service account data).elim (some (st, false)) fun msg ↦
        (kcConnection A env st msg).map fun out ↦
          (out.1, unpackInt ((out.2.take 648).take 4) == some 0) := by
  rw [keychainSave, keychainSaveMsg, dataBytes]
  cases packUInt (data.elim (fun text ↦ encode text.toList) id).length <;> rfl

/-! ### The values the daemons are to find -/

/-- The values meant for a `PushRequest`. -/
def pushValues (app title body : String) (priority : ℤ) : List Value :=
  [.number 1, .text 64 (encode app.toList), .text 128 (encode title.toList),
    .text 256 (encode body.toList), .text 64 [], .number 0, .number 1, .number priority.toNat,
    .number 0]

/-- The values meant for a `PermRequest`. -/
def permValues (app : String) (permType : ℤ) : List Value :=
  [.number 1, .text 64 (encode app.toList), .number permType.toNat]

/-- The values meant for a `KeychainRequest`. -/
def keychainValues (service account : String) (data : String ⊕ Bytes) : List Value :=
  [.number 1, .text 64 (encode service.toList), .text 64 (encode account.toList),
    .text 512 (dataBytes data), .number (dataBytes data).length, .text 128 []]

/-- A message is sent, and it is the struct with these values. -/
def SendsStruct (fields : List CType) (values : List Value) (sent : Option Bytes) : Prop :=
  ∃ msg, sent = some msg ∧ Framed fields values msg

/-! ### The exact conditions -/

/-- If what is sent, where a condition `P` holds, are the values one behind the other, then the
struct is sent exactly if `P` holds and the values fit. -/
theorem sendsStruct_iff_fits {fields : List CType} {values : List Value} {sent : Option Bytes}
    {P : Prop} (hfields : values.map Value.ctype = fields) (hpacked : Packed fields)
    (hsent : ∀ msg, sent = some msg ↔ P ∧ msg = values.flatMap Value.bytes) :
    SendsStruct fields values sent ↔ P ∧ ∀ v ∈ values, v.Fits := by
  subst hfields
  rw [← framed_flatMap_iff hpacked]
  constructor
  · rintro ⟨msg, hmsg, hframed⟩
    obtain ⟨hP, rfl⟩ := (hsent msg).1 hmsg
    exact ⟨hP, hframed⟩
  · rintro ⟨hP, hframed⟩
    exact ⟨_, (hsent _).2 ⟨hP, rfl⟩, hframed⟩

theorem packed_pushRequestFields : Packed pushRequestFields := by decide

theorem packed_permRequestFields : Packed permRequestFields := by decide

theorem packed_keychainRequestFields : Packed keychainRequestFields := by decide

/-- A notification's struct arrives if the three texts fit and the priority is a `uint32_t`. -/
theorem sendNotification_iff (app title body : String) (priority : ℤ) :
    SendsStruct pushRequestFields (pushValues app title body priority)
        (sendNotificationMsg app title body priority) ↔
      (0 ≤ priority ∧ priority < 2 ^ 32) ∧ (encode app.toList).length ≤ 64 ∧
        (encode title.toList).length ≤ 128 ∧ (encode body.toList).length ≤ 256 := by
  have hsent : ∀ msg, sendNotificationMsg app title body priority = some msg ↔
      (0 ≤ priority ∧ priority < 2 ^ 32) ∧
        msg = (pushValues app title body priority).flatMap Value.bytes := by
    intro msg
    rw [sendNotificationMsg, Option.map_eq_some_iff]
    constructor
    · rintro ⟨prio, hprio, rfl⟩
      obtain ⟨hrange, rfl⟩ := packInt_eq_some_iff.1 hprio
      exact ⟨hrange, rfl⟩
    · rintro ⟨hrange, rfl⟩
      exact ⟨_, packInt_eq_some_iff.2 ⟨hrange, rfl⟩, rfl⟩
  rw [sendsStruct_iff_fits (by rfl) packed_pushRequestFields hsent]
  simp [pushValues, Value.Fits]

/-- A permission check's struct arrives if the name fits and the type is a `uint32_t`. -/
theorem checkPermission_iff (app : String) (permType : ℤ) :
    SendsStruct permRequestFields (permValues app permType) (checkPermissionMsg app permType) ↔
      (0 ≤ permType ∧ permType < 2 ^ 32) ∧ (encode app.toList).length ≤ 64 := by
  have hsent : ∀ msg, checkPermissionMsg app permType = some msg ↔
      (0 ≤ permType ∧ permType < 2 ^ 32) ∧
        msg = (permValues app permType).flatMap Value.bytes := by
    intro msg
    rw [checkPermissionMsg, Option.map_eq_some_iff]
    constructor
    · rintro ⟨ptype, hptype, rfl⟩
      obtain ⟨hrange, rfl⟩ := packInt_eq_some_iff.1 hptype
      exact ⟨hrange, rfl⟩
    · rintro ⟨hrange, rfl⟩
      exact ⟨_, packInt_eq_some_iff.2 ⟨hrange, rfl⟩, rfl⟩
  rw [sendsStruct_iff_fits (by rfl) packed_permRequestFields hsent]
  simp [permValues, Value.Fits]

/-- A keychain request's struct arrives if the names and the data fit. -/
theorem keychainSave_iff (service account : String) (data : String ⊕ Bytes) :
    SendsStruct keychainRequestFields (keychainValues service account data)
        (keychainSaveMsg service account data) ↔
      (encode service.toList).length ≤ 64 ∧ (encode account.toList).length ≤ 64 ∧
        (dataBytes data).length ≤ 512 := by
  have hsent : ∀ msg, keychainSaveMsg service account data = some msg ↔
      (dataBytes data).length < 2 ^ 32 ∧
        msg = (keychainValues service account data).flatMap Value.bytes := by
    intro msg
    rw [keychainSaveMsg, packUInt, Option.map_eq_some_iff]
    constructor
    · rintro ⟨dlen, hdlen, rfl⟩
      obtain ⟨hlt, hle⟩ := Option.ite_none_right_eq_some.1 hdlen
      exact ⟨hlt, by rw [← Option.some.inj hle]; rfl⟩
    · rintro ⟨hlt, rfl⟩
      exact ⟨_, if_pos hlt, rfl⟩
  rw [sendsStruct_iff_fits (by rfl) packed_keychainRequestFields hsent]
  simp only [keychainValues, List.forall_mem_cons, Value.Fits, List.length_nil, Nat.zero_le,
    List.not_mem_nil, false_implies, implies_true, and_true, true_and]
  constructor
  · exact fun h ↦ h.2
  · exact fun h ↦ ⟨by omega, h⟩

/-- A call of one of the three functions. -/
inductive Call
  /-- `send_notification`. -/
  | sendNotification (app title body : String) (priority : ℤ)
  /-- `check_permission`. -/
  | checkPermission (app : String) (permType : ℤ)
  /-- `keychain_save`. -/
  | keychainSave (service account : String) (data : String ⊕ Bytes)

namespace Call

/-- What the call sends. -/
def message : Call → Option Bytes
  | sendNotification app title body priority => sendNotificationMsg app title body priority
  | checkPermission app permType => checkPermissionMsg app permType
  | keychainSave service account data => keychainSaveMsg service account data

/-- The struct of the daemon it is sent to. -/
def fields : Call → List CType
  | sendNotification _ _ _ _ => pushRequestFields
  | checkPermission _ _ => permRequestFields
  | keychainSave _ _ _ => keychainRequestFields

/-- The values meant for its fields. -/
def values : Call → List Value
  | sendNotification app title body priority => pushValues app title body priority
  | checkPermission app permType => permValues app permType
  | keychainSave service account data => keychainValues service account data

/-- Every encoded text has at most its field's bytes, and every number is a `uint32_t`. -/
def Fits : Call → Prop
  | sendNotification app title body priority =>
    (0 ≤ priority ∧ priority < 2 ^ 32) ∧ (encode app.toList).length ≤ 64 ∧
      (encode title.toList).length ≤ 128 ∧ (encode body.toList).length ≤ 256
  | checkPermission app permType =>
    (0 ≤ permType ∧ permType < 2 ^ 32) ∧ (encode app.toList).length ≤ 64
  | keychainSave service account data =>
    (encode service.toList).length ≤ 64 ∧ (encode account.toList).length ≤ 64 ∧
      (dataBytes data).length ≤ 512

end Call

/-- **When the daemons get their structs**, for all strings and numbers: the message has the size
of the struct and each field holds its value, or a prefix of it, exactly if every encoded text fits
its field and every number is a `uint32_t`. -/
theorem sendsStruct_iff (c : Call) : SendsStruct c.fields c.values c.message ↔ c.Fits := by
  cases c with
  | sendNotification app title body priority => exact sendNotification_iff app title body priority
  | checkPermission app permType => exact checkPermission_iff app permType
  | keychainSave service account data => exact keychainSave_iff service account data

/-- A title of 129 letters. -/
def longTitle : String := String.ofList (List.replicate 129 'a')

/-- It does not arrive as a struct. -/
theorem not_sendsStruct_longTitle :
    ¬ SendsStruct pushRequestFields (pushValues "mail" longTitle "" 1)
      (sendNotificationMsg "mail" longTitle "" 1) := by
  rw [sendNotification_iff]
  have hlen : (encode longTitle.toList).length = 129 :=
    (congrArg (fun text ↦ (encode text).length) String.toList_ofList).trans (by decide +kernel)
  omega

end JuliusOS.Bridge
