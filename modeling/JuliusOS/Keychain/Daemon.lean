import JuliusOS.Foundations.CString
import JuliusOS.Foundations.Gcm
import JuliusOS.Foundations.PackedTable
import JuliusOS.Foundations.StructLayout

/-!
# The keychain daemon

`services/julius_keychain/julius_keychain.c`: a table of at most 1024 encrypted items, and
`handle_kc_request`, which answers one request under `kc_lock`. Requests are therefore
handled one at a time, and a run of the daemon is a list of requests.

A request is the memory image of the C struct, so a name that is not terminated inside its
field runs on into the next one, as it does for `strcmp`. The state is the C array with all
its slots, used and stale. What the environment decides (the random vector, the clock, whether
there is a cipher context and the database file opens) comes with each request.

`handleKcRequest` is `none` where the C code would leave a buffer: a cipher call on a length
outside the 512 bytes there are, and a listing that has already overrun its 4096 bytes.
-/

open CString StructLayout

namespace JuliusOS.Keychain

/-- `KC_MAX_ITEMS`. -/
abbrev kcMaxItems : ℕ := 1024

/-- `KC_IV_SIZE`. -/
abbrev kcIvSize : ℕ := 16

/-! ### Requests, responses and items -/

@[match_pattern] abbrev kcAdd : ℕ := 1
@[match_pattern] abbrev kcGet : ℕ := 2
@[match_pattern] abbrev kcDelete : ℕ := 3
@[match_pattern] abbrev kcList : ℕ := 4
@[match_pattern] abbrev kcUpdate : ℕ := 5

/-- The fields of `KeychainRequest`: `op`, `service`, `account`, `data`, `data_len`, `label`. -/
def keychainRequestFields : List CType :=
  [int32, charArray 64, charArray 64, charArray 512, int32, charArray 128]

/-- A `KeychainRequest` as it was read. -/
abbrev KeychainRequest := Image keychainRequestFields

namespace KeychainRequest

variable (req : KeychainRequest)

/-- `req.op`. -/
def op : ℕ := req.u32 0

/-- `req.service` and what follows it. -/
def service : Bytes := req.memFrom 1

/-- `req.account` and what follows it. -/
def account : Bytes := req.memFrom 2

/-- `req.data`. -/
def data : Bytes := req.field 3

/-- `req.data_len`. -/
def dataLen : ℤ := req.i32 4

/-- `req.label` and what follows it. -/
def label : Bytes := req.memFrom 5

/-- The item a request is about: the service and account strings. -/
def key : Bytes × Bytes := (cstr req.service, cstr req.account)

/-- Service and account are terminated inside their fields. -/
def Terminated : Prop := (0 : UInt8) ∈ req.field 1 ∧ (0 : UInt8) ∈ req.field 2

end KeychainRequest

/-- A `KeychainResponse`. -/
structure KeychainResponse where
  /-- `resp.status`. -/
  status : ℤ
  /-- `resp.data`. -/
  data : Buf 512
  /-- `resp.data_len`. -/
  dataLen : ℤ
  /-- `resp.error`. -/
  error : Buf 128
  /-- `resp.items`. -/
  items : Buf 4096
deriving DecidableEq

/-- The response after `memset`. -/
def KeychainResponse.zero : KeychainResponse := ⟨0, .zero 512, 0, .zero 128, .zero 4096⟩

/-- `strcpy(resp.error, msg)`. -/
def KeychainResponse.fail (resp : KeychainResponse) (msg : String)
    (h : (Bytes.ofAscii msg).length < 128 := by decide) : KeychainResponse :=
  { resp with
    status := -1
    error := resp.error.strcpy (Bytes.ofAscii msg) h }

/-- A `KeychainItem`. -/
structure KeychainItem where
  /-- `service`. -/
  service : Buf 64
  /-- `account`. -/
  account : Buf 64
  /-- `label`. -/
  label : Buf 128
  /-- `encrypted`. -/
  encrypted : Buf 512
  /-- `enc_len`. -/
  encLen : ℤ
  /-- `iv`. -/
  iv : Buf kcIvSize
  /-- `tag`. -/
  tag : Buf 16
  /-- `created`. -/
  created : ℤ
  /-- `modified`. -/
  modified : ℤ
deriving DecidableEq

namespace KeychainItem

/-- A slot of the static array. -/
def zero : KeychainItem :=
  ⟨.zero 64, .zero 64, .zero 128, .zero 512, 0, .zero kcIvSize, .zero 16, 0, 0⟩

/-- The strings `kc_find` compares. The fields are terminated in every slot the daemon ever
writes (`Store.Inv`), so the string ends inside its field. -/
def key (it : KeychainItem) : Bytes × Bytes := (cstr it.service.bytes, cstr it.account.bytes)

end KeychainItem

/-- What `kc_save` writes: the count and the items in use. -/
structure KcDb where
  /-- The leading `int`. -/
  itemCount : ℕ
  /-- The items behind it. -/
  items : List KeychainItem
deriving DecidableEq

/-- The daemon's state. -/
structure Store where
  /-- `items` and `item_count`. -/
  items : PackedTable KeychainItem kcMaxItems
  /-- `kc_key`. -/
  kcKey : Bytes
  /-- The contents of `KC_DB_FILE`. -/
  db : Option KcDb

/-- What the environment contributes to one request. -/
structure Env where
  /-- The bytes `RAND_bytes` puts into the vector. -/
  iv : Buf kcIvSize
  /-- `time(NULL)`, when an item is created. -/
  createdAt : ℤ
  /-- `time(NULL)`, when an item is modified. -/
  modifiedAt : ℤ
  /-- Whether `EVP_CIPHER_CTX_new` returns a context. -/
  ctxNew : Bool
  /-- Whether `fopen(KC_DB_FILE, "wb")` succeeds. -/
  fopenDb : Bool

/-! ### Operations -/

section Operations

variable (A : Gcm)

/-- `kc_encrypt`, with the vector that `RAND_bytes` produced: what is written to `cipher`, the
tag, which stays as it was where there is no context, and the returned length. -/
def kcEncrypt (env : Env) (kcKey plain : Bytes) (tag : Buf 16) : Bytes × Buf 16 × ℤ :=
  if env.ctxNew then
    let cipher := A.encrypt kcKey (env.iv.bytes.take Gcm.ivLength) plain
    (cipher, A.mac kcKey (env.iv.bytes.take Gcm.ivLength) cipher, cipher.length)
  else ([], tag, -1)

theorem length_kcEncrypt_le (env : Env) (kcKey plain : Bytes) (tag : Buf 16) :
    (kcEncrypt A env kcKey plain tag).1.length ≤ plain.length := by
  rw [kcEncrypt]
  split
  · exact (A.length_encrypt _ _ _).le
  · exact Nat.zero_le _

/-- `kc_decrypt`: the plaintext as it is written out, and the returned length, which is -1
where there is no context and when the tag does not match. -/
def kcDecrypt (env : Env) (kcKey cipher : Bytes) (iv : Buf kcIvSize) (tag : Buf 16) :
    Bytes × ℤ :=
  if env.ctxNew then
    let plain := A.decrypt kcKey (iv.bytes.take Gcm.ivLength) cipher
    (plain, if A.mac kcKey (iv.bytes.take Gcm.ivLength) cipher = tag then plain.length else -1)
  else ([], -1)

theorem length_kcDecrypt_le (env : Env) (kcKey cipher : Bytes) (iv : Buf kcIvSize)
    (tag : Buf 16) : (kcDecrypt A env kcKey cipher iv tag).1.length ≤ cipher.length := by
  rw [kcDecrypt]
  split
  · exact (A.length_decrypt _ _ _).le
  · exact Nat.zero_le _

/-- `kc_find`: the position of the first item with the given strings. -/
def kcFind (items : PackedTable KeychainItem kcMaxItems) (svc acc : Bytes) : Option ℕ :=
  items.find? fun it ↦ strcmpEq it.service.bytes svc && strcmpEq it.account.bytes acc

/-- `kc_save`. -/
def kcSave (env : Env) (st : Store) : Store :=
  if env.fopenDb then { st with db := some ⟨st.items.count, st.items.live⟩ } else st

/-- The assignments that make a slot the item of a request, before encryption. -/
def nameItem (env : Env) (req : KeychainRequest) (it : KeychainItem) : KeychainItem :=
  { it with
    service := it.service.strncpy req.service 63 Buf.le_64
    account := it.account.strncpy req.account 63 Buf.le_64
    label := it.label.strncpy req.label 127 Buf.le_128
    created := env.createdAt }

/-- What encryption writes fits where the plaintext does. -/
theorem zero_add_length_kcEncrypt_le (env : Env) (kcKey : Bytes) {plain : Bytes} (tag : Buf 16)
    (h : plain.length ≤ 512) : 0 + (kcEncrypt A env kcKey plain tag).1.length ≤ 512 := by
  rw [Nat.zero_add]
  exact (length_kcEncrypt_le A env kcKey plain tag).trans h

/-- `it->enc_len = kc_encrypt(...); it->modified = time(NULL)`. Encryption writes as many
bytes as there are and leaves the rest of the buffer alone. -/
def encryptItem (env : Env) (kcKey plain : Bytes) (h : plain.length ≤ 512)
    (it : KeychainItem) : KeychainItem :=
  let sealed := kcEncrypt A env kcKey plain it.tag
  { it with
    encrypted := it.encrypted.write 0 sealed.1 (zero_add_length_kcEncrypt_le A env kcKey it.tag h)
    encLen := sealed.2.2
    iv := env.iv
    tag := sealed.2.1
    modified := env.modifiedAt }

theorem KeychainRequest.length_take_data_le (req : KeychainRequest) :
    (req.data.take req.dataLen.toNat).length ≤ 512 := by
  have : req.data.length ≤ 512 := List.length_take_le _ _
  rw [List.length_take]
  omega

/-- A table that is not full has a free slot. -/
theorem Store.room (st : Store) (h : ¬ kcMaxItems ≤ st.items.count) :
    st.items.count < kcMaxItems :=
  Nat.lt_of_not_le h

/-- The `KC_ADD` case. -/
def kcAddCase (env : Env) (st : Store) (req : KeychainRequest) :
    Option (Store × KeychainResponse) :=
  let resp := KeychainResponse.zero
  if hfull : kcMaxItems ≤ st.items.count then
    some (st, resp.fail "Keychain full")
  -- a length outside the field makes the cipher read behind `req.data`
  else if env.ctxNew = false ∨ 0 ≤ req.dataLen ∧ req.dataLen ≤ 512 then
    let plain := req.data.take req.dataLen.toNat
    have hplain : plain.length ≤ 512 := req.length_take_data_le
    let (items, i) := match kcFind st.items req.service req.account with
      | none => (st.items.append (st.room hfull) (nameItem env req), st.items.count)
      | some i => (st.items, i)
    let items := items.modify i (encryptItem A env st.kcKey plain hplain)
    some (kcSave env { st with items }, { resp with status := 0 })
  else none

theorem zero_add_length_kcDecrypt_le (env : Env) (kcKey : Bytes) (it : KeychainItem) :
    0 + (kcDecrypt A env kcKey (it.encrypted.bytes.take it.encLen.toNat) it.iv it.tag).1.length ≤
      512 := by
  rw [Nat.zero_add]
  refine (length_kcDecrypt_le A env kcKey _ it.iv it.tag).trans ?_
  rw [List.length_take, it.encrypted.length_bytes]
  exact Nat.min_le_right _ _

/-- The answer to a `KC_GET` of an item. -/
def openItem (env : Env) (kcKey : Bytes) (it : KeychainItem) : Option KeychainResponse :=
  let resp := KeychainResponse.zero
  if env.ctxNew = false ∨ 0 ≤ it.encLen ∧ it.encLen ≤ 512 then
    let opened := kcDecrypt A env kcKey (it.encrypted.bytes.take it.encLen.toNat) it.iv it.tag
    some { resp with
      data := resp.data.write 0 opened.1 (zero_add_length_kcDecrypt_le A env kcKey it)
      dataLen := opened.2
      status := if 0 < opened.2 then 0 else -1 }
  else none

/-- The `KC_GET` case. -/
def kcGetCase (env : Env) (st : Store) (req : KeychainRequest) : Option KeychainResponse :=
  match h : kcFind st.items req.service req.account with
  | none => some (KeychainResponse.zero.fail "Item not found")
  | some i =>
    have hi : i < st.items.live.length := by
      rw [PackedTable.length_live]
      exact PackedTable.lt_count_of_find?_eq_some h
    openItem A env st.kcKey st.items.live[i]

/-- The loop of the `KC_DELETE` case. -/
def kcDeleteLoop (env : Env) (st : Store) (req : KeychainRequest)
    (resp : KeychainResponse) : Store × KeychainResponse :=
  match h : kcFind st.items req.service req.account with
  | none => (st, resp)
  | some i =>
    (kcSave env
      { st with items := st.items.eraseAt i (PackedTable.lt_count_of_find?_eq_some h) },
      { resp with status := 0 })

/-- The `KC_DELETE` case. The response was zeroed before, so the test after the loop never
fires. -/
def kcDeleteCase (env : Env) (st : Store) (req : KeychainRequest) :
    Store × KeychainResponse :=
  let (st, resp) := kcDeleteLoop env st req .zero
  (st, if resp.status ≠ 0 then resp.fail "Item not found" else resp)

/-- The loop of the `KC_LIST` case. Once `pos` has passed the end of the buffer the size
argument wraps around and the write goes behind the buffer. -/
def kcListLoop : List KeychainItem → ℕ → Buf 4096 → Option (Buf 4096)
  | [], _, buf => some buf
  | it :: its, pos, buf =>
    if pos ≤ 4096 then
      let text := cstr it.service.bytes ++ Bytes.ofAscii "/" ++ cstr it.account.bytes ++ [10]
      kcListLoop its (pos + text.length) (buf.snprintf pos text)
    else none

/-- `handle_kc_request`, from the complete request on: the new state and the response. -/
def handleKcRequest (env : Env) (st : Store) (req : KeychainRequest) :
    Option (Store × KeychainResponse) :=
  match req.op with
  | kcAdd => kcAddCase A env st req
  | kcGet => (kcGetCase A env st req).map fun resp ↦ (st, resp)
  | kcDelete => some (kcDeleteCase env st req)
  | kcList => (kcListLoop st.items.live 0 (.zero 4096)).map fun items ↦
      (st, { KeychainResponse.zero with items })
  | _ => some (st, .zero)

end Operations

/-! ### A connection -/

/-- The fields of `KeychainResponse`: `status`, `data`, `data_len`, `error`, `items`. -/
def keychainResponseFields : List CType :=
  [int32, charArray 512, int32, charArray 128, charArray 4096]

/-- The bytes of a response's fields. -/
def KeychainResponse.parts (resp : KeychainResponse) : List Bytes :=
  [Bytes.leInt 4 resp.status, resp.data.bytes, Bytes.leInt 4 resp.dataLen, resp.error.bytes,
    resp.items.bytes]

/-- The response as it is written to the socket. -/
def KeychainResponse.image (resp : KeychainResponse) : Image keychainResponseFields where
  bytes := resp.parts.flatten
  length_bytes := by
    simp [parts, resp.data.length_bytes, resp.error.length_bytes, resp.items.length_bytes]
    decide

/-- `handle_kc_request` on a connection whose peer has sent these bytes: the new state, and the
bytes written back. -/
def kcConnection (A : Gcm) (env : Env) (st : Store) (sent : Bytes) : Option (Store × Bytes) :=
  if h : sizeof keychainRequestFields ≤ sent.length then
    (handleKcRequest A env st ⟨sent.take (sizeof keychainRequestFields),
      List.length_take_of_le h⟩).map fun out ↦ (out.1, out.2.image.bytes)
  else some (st, { KeychainResponse.zero with status := -1 }.image.bytes)

/-- A peer that sends a whole request and no more is answered. -/
theorem kcConnection_eq {A : Gcm} {env : Env} {st : Store} {sent : Bytes}
    (h : sent.length = sizeof keychainRequestFields) :
    kcConnection A env st sent =
      (handleKcRequest A env st ⟨sent, h⟩).map fun out ↦ (out.1, out.2.image.bytes) := by
  rw [kcConnection, dif_pos h.ge]
  simp only [List.take_of_length_le h.le]

/-- The daemon before any request. -/
def Store.init (kcKey : Bytes) : Store := ⟨.empty .zero, kcKey, none⟩

end JuliusOS.Keychain
