import JuliusOS.Foundations.CString
import JuliusOS.Foundations.Gcm
import JuliusOS.Foundations.Machine
import JuliusOS.Foundations.PackedTable
import JuliusOS.Foundations.StructLayout

/-!
# The security enclave

`services/julius_enclave/julius_enclave.c`: a table of at most 256 keys, and `handle_request`,
which answers one request. Every connection has a thread of its own, but what a thread reads of
the table are complete entries, which are never moved or deleted and in which nothing but the
usage count changes, so requests are taken one at a time.

The response has one buffer of 4096 bytes. `enclave_encrypt` is given its start for the ciphertext
and its last 16 bytes for the vector; it draws the vector first and encrypts after.

`handleRequest` is `none` where the C code would read behind `req.data`. The master key, which no
request uses, and the log lines are left out.
-/

open CString StructLayout

namespace JuliusOS.Enclave

/-- `KEY_SIZE`. -/
abbrev keySize : ℕ := 32

/-- `IV_SIZE`. -/
abbrev ivSize : ℕ := 16

/-- `TAG_SIZE`. -/
abbrev tagSize : ℕ := 16

/-- `MAX_DATA_SIZE`. -/
abbrev maxDataSize : ℕ := 4096

/-- The size of `keys`. -/
abbrev maxKeys : ℕ := 256

/-! ### Requests, responses and keys -/

namespace EnclaveOp

@[match_pattern] abbrev encrypt : ℕ := 1
@[match_pattern] abbrev decrypt : ℕ := 2
@[match_pattern] abbrev hash : ℕ := 3
@[match_pattern] abbrev keygen : ℕ := 5

end EnclaveOp

/-- The fields of `EnclaveRequest`: `op`, `data_len`, `data`, `key_id`, `iv`, `tag`. -/
def enclaveRequestFields : List CType :=
  [int32, int32, charArray maxDataSize, charArray 32, charArray ivSize, charArray tagSize]

/-- An `EnclaveRequest` as it was read. -/
abbrev EnclaveRequest := Image enclaveRequestFields

namespace EnclaveRequest

variable (req : EnclaveRequest)

/-- `req.op`. -/
def op : ℕ := req.u32 0

/-- `req.data_len`. -/
def dataLen : ℕ := req.u32 1

/-- `req.data`. -/
def data : Bytes := req.field 2

/-- `req.key_id`. -/
def keyId : Bytes := req.field 3

/-- `req.iv`. -/
def iv : Bytes := req.field 4

/-- `req.tag`. -/
def tag : Bytes := req.field 5

theorem length_data_le : req.data.length ≤ maxDataSize := List.length_take_le _ _

end EnclaveRequest

/-- An `EnclaveResponse`. -/
structure EnclaveResponse where
  /-- `resp.status`. -/
  status : ℤ
  /-- `resp.data_len`. -/
  dataLen : ℕ
  /-- `resp.data`. -/
  data : Buf maxDataSize
  /-- `resp.tag`. -/
  tag : Buf tagSize
  /-- `resp.error`. -/
  error : Buf 128
deriving DecidableEq

/-- The response after `memset`. -/
def EnclaveResponse.zero : EnclaveResponse := ⟨0, 0, .zero maxDataSize, .zero tagSize, .zero 128⟩

/-- `resp.status = -1; strcpy(resp.error, msg)`. -/
def EnclaveResponse.fail (resp : EnclaveResponse) (msg : String)
    (h : (Bytes.ofAscii msg).length < 128 := by decide) : EnclaveResponse :=
  { resp with status := -1, error := resp.error.strcpy (Bytes.ofAscii msg) h }

/-- An `EnclaveKey`. -/
structure EnclaveKey where
  /-- `id`. -/
  id : Buf 32
  /-- `key`. -/
  key : Buf keySize
  /-- `label`. -/
  label : Buf 64
  /-- `created`. -/
  created : ℤ
  /-- `usage_count`. -/
  usageCount : ℕ
deriving DecidableEq

/-- A slot of the static array. -/
def EnclaveKey.zero : EnclaveKey := ⟨.zero 32, .zero keySize, .zero 64, 0, 0⟩

/-- The bytes `find_key` compares. -/
def EnclaveKey.idBytes (k : EnclaveKey) : Bytes := k.id.bytes

/-- `keys` and `key_count`. -/
abbrev Keys := PackedTable EnclaveKey maxKeys

/-- The table before any request. -/
def Keys.init : Keys := .empty .zero

/-- What the environment contributes to one request. -/
structure Env where
  /-- The bytes `RAND_bytes` puts into a new key. -/
  key : Buf keySize
  /-- The bytes `RAND_bytes` puts into its id. -/
  id : Buf 32
  /-- The bytes `RAND_bytes` puts into a vector. -/
  iv : Buf ivSize
  /-- `time(NULL)`. -/
  now : ℤ
  /-- Whether `EVP_CIPHER_CTX_new` succeeds. -/
  ctxNew : Bool

/-! ### Operations -/

/-- The assignments that make a slot a new key. -/
def newKey (env : Env) (label : Bytes) (k : EnclaveKey) : EnclaveKey where
  key := env.key
  id := env.id
  label := k.label.strncpy label 63 Buf.le_64
  created := env.now
  usageCount := 0

theorem length_id_le (env : Env) : 0 + env.id.bytes.length ≤ maxDataSize := by
  rw [env.id.length_bytes]
  decide

/-- `enclave_generate_key`: the table, the returned value, and the buffer the id is written to. -/
def enclaveGenerateKey (env : Env) (keys : Keys) (label : Bytes) (idOut : Buf maxDataSize) :
    Keys × ℤ × Buf maxDataSize :=
  if h : keys.count < maxKeys then
    (keys.append h (newKey env label), 0, idOut.write 0 env.id.bytes (length_id_le env))
  else (keys, -1, idOut)

/-- `find_key`. -/
def findKey (keys : Keys) (id : Bytes) : Option ℕ := keys.find? fun k ↦ k.idBytes = id

section Operations

variable (A : Gcm) (sha256 : Bytes → Buf 32)

/-- `resp.data + MAX_DATA_SIZE - IV_SIZE`, as an offset. -/
def ivOffset : ℕ := maxDataSize - ivSize

theorem length_iv_le (env : Env) : ivOffset + env.iv.bytes.length ≤ maxDataSize := by
  rw [env.iv.length_bytes]
  decide

theorem length_cipher_le {plain : Bytes} (h : plain.length ≤ maxDataSize) (key iv : Bytes) :
    0 + (A.encrypt key iv plain).length ≤ maxDataSize := by
  rwa [A.length_encrypt, Nat.zero_add]

theorem length_plain_le {cipher : Bytes} (h : cipher.length ≤ maxDataSize) (key iv : Bytes) :
    0 + (A.decrypt key iv cipher).length ≤ maxDataSize := by
  rwa [A.length_decrypt, Nat.zero_add]

/-- `enclave_encrypt` with the ciphertext at the start of a buffer and the vector at `ivOffset`: the
buffer, the tag, and the returned length. The context takes its copy of the vector before the
ciphertext is written. -/
def enclaveEncrypt (env : Env) (key plain : Bytes) (h : plain.length ≤ maxDataSize)
    (out : Buf maxDataSize) (tag : Buf tagSize) : Buf maxDataSize × Buf tagSize × ℤ :=
  let out := out.write ivOffset env.iv.bytes (length_iv_le env)
  if env.ctxNew then
    let iv := (out.bytes.drop ivOffset).take Gcm.ivLength
    let cipher := A.encrypt key iv plain
    (out.write 0 cipher (length_cipher_le A h key iv), A.mac key iv cipher, cipher.length)
  else (out, tag, -1)

/-- `enclave_decrypt`: the buffer for the plaintext, which is written whether or not the tag is
right, and the returned length. -/
def enclaveDecrypt (env : Env) (key cipher : Bytes) (h : cipher.length ≤ maxDataSize)
    (out : Buf maxDataSize) (iv tag : Bytes) : Buf maxDataSize × ℤ :=
  if env.ctxNew then
    let iv := iv.take Gcm.ivLength
    let plain := A.decrypt key iv cipher
    (out.write 0 plain (length_plain_le A h key iv),
      if (A.mac key iv cipher).bytes = tag then plain.length else -1)
  else (out, -1)

/-- `k->usage_count++`. -/
def useKey (k : EnclaveKey) : EnclaveKey := { k with usageCount := k.usageCount + 1 }

theorem length_take_data_le (req : EnclaveRequest) :
    (req.data.take req.dataLen).length ≤ maxDataSize := by
  rw [List.length_take]
  exact (Nat.min_le_right _ _).trans req.length_data_le

/-- The `ENCLAVE_ENCRYPT` case, once the key is found. -/
def encryptCase (env : Env) (keys : Keys) (i : ℕ) (k : EnclaveKey) (req : EnclaveRequest) :
    Keys × EnclaveResponse :=
  let resp := EnclaveResponse.zero
  let (data, tag, len) := enclaveEncrypt A env k.key.bytes (req.data.take req.dataLen)
    (length_take_data_le req) resp.data resp.tag
  let resp := { resp with data, tag }
  if len < 0 then (keys, resp.fail "Encryption failed")
  else (keys.modify i useKey, { resp with dataLen := len.toNat, status := 0 })

/-- The `ENCLAVE_DECRYPT` case, once the key is found. -/
def decryptCase (env : Env) (keys : Keys) (i : ℕ) (k : EnclaveKey) (req : EnclaveRequest) :
    Keys × EnclaveResponse :=
  let resp := EnclaveResponse.zero
  let (data, len) := enclaveDecrypt A env k.key.bytes (req.data.take req.dataLen)
    (length_take_data_le req) resp.data req.iv req.tag
  let resp := { resp with data }
  if len < 0 then (keys, resp.fail "Decryption failed")
  else (keys.modify i useKey, { resp with dataLen := len.toNat, status := 0 })

/-- The key lookup before a cipher operation, which reads `req.data_len` bytes of `req.data`, if it
gets a cipher context. -/
def withKey (env : Env) (keys : Keys) (req : EnclaveRequest)
    (op : ℕ → EnclaveKey → Keys × EnclaveResponse) : Option (Keys × EnclaveResponse) :=
  match (findKey keys req.keyId).bind fun i ↦ keys.live[i]?.map (i, ·) with
  | none => some (keys, EnclaveResponse.zero.fail "Key not found")
  | some (i, k) =>
    if env.ctxNew = false ∨ req.dataLen ≤ maxDataSize then some (op i k) else none

/-- `SHA256_Final(resp.data, &ctx)` and what follows it. -/
def hashCase (req : EnclaveRequest) : EnclaveResponse :=
  let digest := sha256 (req.data.take req.dataLen)
  { EnclaveResponse.zero with
    data := EnclaveResponse.zero.data.write 0 digest.bytes (by rw [digest.length_bytes]; decide)
    dataLen := 32
    status := 0 }

/-- The `ENCLAVE_KEYGEN` case. -/
def keygenCase (env : Env) (keys : Keys) (req : EnclaveRequest) : Keys × EnclaveResponse :=
  let resp := EnclaveResponse.zero
  let (keys, ret, data) := enclaveGenerateKey env keys req.data resp.data
  (keys, { resp with data, dataLen := if ret = 0 then 32 else 0, status := ret })

/-- `handle_request`, given what was read: a whole request, or anything else. -/
def handleRequest (env : Env) (keys : Keys) : Option EnclaveRequest →
    Option (Keys × EnclaveResponse)
  | none => some (keys, EnclaveResponse.zero.fail "Invalid request")
  | some req =>
    match req.op with
    | EnclaveOp.encrypt => withKey env keys req fun i k ↦ encryptCase A env keys i k req
    | EnclaveOp.decrypt => withKey env keys req fun i k ↦ decryptCase A env keys i k req
    | EnclaveOp.hash =>
      if req.dataLen ≤ maxDataSize then some (keys, hashCase sha256 req) else none
    | EnclaveOp.keygen => some (keygenCase env keys req)
    | _ => some (keys, EnclaveResponse.zero.fail "Unknown operation")

/-- The enclave as a machine. -/
def daemon : Machine Keys (Env × Option EnclaveRequest) where
  Init keys := keys = .init
  step keys l := (handleRequest A sha256 l.1 keys l.2).map Prod.fst

end Operations

end JuliusOS.Enclave
