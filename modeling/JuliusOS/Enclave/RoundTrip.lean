import JuliusOS.Enclave.Daemon

/-!
# What an encryption response is worth

The purpose of the enclave: what it encrypted under a key id it can decrypt again, for as long as
it runs. The key table keeps its part of this: keys are only ever added, so an id goes on naming
the key it was returned for (`keyOf_run`).

The response does not. The vector sits in the last 16 bytes of the buffer the ciphertext is
written to, so a plaintext of more than 4080 bytes overwrites it, and a decryption with what is
left of it is rejected.

* `take_drop_encrypted`: what the response carries in the vector's place;
* `roundTrips_iff`: the round trip succeeds exactly if the plaintext leaves the vector alone, or
  its ciphertext has the vector's own bytes there.
-/

open CString StructLayout

namespace JuliusOS.Enclave

variable {A : Gcm} {H : Bytes → Buf 32} {env : Env} {keys keys' : Keys}
  {req : EnclaveRequest} {read : Option EnclaveRequest} {resp : EnclaveResponse} {id : Bytes}

/-! ### The key table -/

/-- The key an id names. -/
def keyOf (keys : Keys) (id : Bytes) : Option (Buf keySize) :=
  (keys.lookup EnclaveKey.idBytes id).map EnclaveKey.key

/-- A request that generates a key draws an id that is not in the table. -/
def FreshId (keys : Keys) (l : Env × Option EnclaveRequest) : Prop :=
  ∀ req, l.2 = some req → req.op = EnclaveOp.keygen →
    keys.lookup EnclaveKey.idBytes l.1.id.bytes = none

/-- Counting a use changes no key. -/
theorem keyOf_modify_useKey {i : ℕ} (h : findKey keys req.keyId = some i) (id : Bytes) :
    keyOf (keys.modify i useKey) id = keyOf keys id := by
  obtain ⟨-, k, -, -, -, hlook⟩ := PackedTable.exists_lookup_of_find? h
  have hkey : ∀ k, (useKey k).idBytes = k.idBytes := fun _ ↦ rfl
  rw [keyOf, PackedTable.lookup_modify h hlook hkey]
  split
  next hid =>
    rw [keyOf, hid, hlook]
    rfl
  next => rfl

/-- A generated key is named by its id, and the ids before keep theirs. -/
theorem keyOf_append {label : Bytes} (hroom : keys.count < maxKeys)
    (hfresh : keys.lookup EnclaveKey.idBytes env.id.bytes = none) (id : Bytes) :
    keyOf (keys.append hroom (newKey env label)) id =
      if id = env.id.bytes then some env.key else keyOf keys id := by
  rw [keyOf, PackedTable.lookup_append hfresh rfl]
  split <;> rfl

/-- A cipher operation that only counts a use changes no key. -/
theorem keyOf_withKey {op : ℕ → EnclaveKey → Keys × EnclaveResponse}
    (hop : ∀ i k, (op i k).1 = keys ∨ (op i k).1 = keys.modify i useKey)
    (h : withKey env keys req op = some (keys', resp)) (id : Bytes) :
    keyOf keys' id = keyOf keys id := by
  rw [withKey] at h
  split at h
  next =>
    obtain ⟨rfl, -⟩ := Prod.mk.inj (Option.some.inj h)
    rfl
  next i k hik =>
    obtain ⟨-, hout⟩ := Option.ite_none_right_eq_some.1 h
    obtain ⟨i', hi', hk⟩ := Option.bind_eq_some_iff.1 hik
    obtain ⟨k', -, hpair⟩ := Option.map_eq_some_iff.1 hk
    obtain ⟨rfl, rfl⟩ := Prod.mk.inj hpair
    obtain rfl : (op i' k').1 = keys' := congrArg Prod.fst (Option.some.inj hout)
    rcases hop i' k' with heq | heq
    · rw [heq]
    · rw [heq]
      exact keyOf_modify_useKey hi' id

theorem keygenCase_of_lt (hroom : keys.count < maxKeys) (req : EnclaveRequest) :
    keygenCase env keys req = (keys.append hroom (newKey env req.data),
      { EnclaveResponse.zero with
        data := EnclaveResponse.zero.data.write 0 env.id.bytes (length_id_le env)
        dataLen := 32 }) := by
  rw [keygenCase, enclaveGenerateKey, dif_pos hroom]
  rfl

theorem keygenCase_of_not_lt (hfull : ¬ keys.count < maxKeys) (req : EnclaveRequest) :
    keygenCase env keys req = (keys, { EnclaveResponse.zero with status := -1 }) := by
  rw [keygenCase, enclaveGenerateKey, dif_neg hfull]
  rfl

/-- An id keeps its key when another is generated. -/
theorem keyOf_keygenCase {key : Buf keySize}
    (hfresh : keys.lookup EnclaveKey.idBytes env.id.bytes = none) (hid : keyOf keys id = some key) :
    keyOf (keygenCase env keys req).1 id = some key := by
  by_cases hroom : keys.count < maxKeys
  · have hne : id ≠ env.id.bytes := by
      rintro rfl
      rw [keyOf, hfresh] at hid
      cases hid
    rw [keygenCase_of_lt hroom, keyOf_append hroom hfresh, if_neg hne, hid]
  · rw [keygenCase_of_not_lt hroom, hid]

/-- **An id goes on naming its key**, whatever is asked next. -/
theorem keyOf_handleRequest {key : Buf keySize}
    (h : handleRequest A H env keys read = some (keys', resp))
    (hfresh : FreshId keys (env, read)) (hid : keyOf keys id = some key) :
    keyOf keys' id = some key := by
  cases read with
  | none =>
    obtain ⟨rfl, -⟩ := Prod.mk.inj (Option.some.inj h)
    exact hid
  | some req =>
    rw [handleRequest] at h
    split at h
    next =>
      rw [keyOf_withKey (fun i k ↦ ?_) h, hid]
      rw [encryptCase]
      dsimp only
      split
      · exact Or.inl rfl
      · exact Or.inr rfl
    next =>
      rw [keyOf_withKey (fun i k ↦ ?_) h, hid]
      rw [decryptCase]
      dsimp only
      split
      · exact Or.inl rfl
      · exact Or.inr rfl
    next =>
      obtain ⟨-, hout⟩ := Option.ite_none_right_eq_some.1 h
      obtain ⟨rfl, -⟩ := Prod.mk.inj (Option.some.inj hout)
      exact hid
    next hop =>
      obtain rfl := congrArg Prod.fst (Option.some.inj h)
      exact keyOf_keygenCase (hfresh req rfl hop) hid
    next =>
      obtain ⟨rfl, -⟩ := Prod.mk.inj (Option.some.inj h)
      exact hid

/-- Hence it does after every run whose generated ids are distinct. -/
theorem keyOf_run {key : Buf keySize} {ls : List (Env × Option EnclaveRequest)}
    (hid : keyOf keys id = some key) (hguard : (daemon A H).Guarded FreshId keys ls)
    (hrun : (daemon A H).run keys ls = some keys') : keyOf keys' id = some key := by
  refine Machine.invariant_of_guarded (I := fun keys ↦ keyOf keys id = some key)
    (fun s l s' hs hok hstep ↦ ?_) hid hguard hrun
  obtain ⟨out, hout, rfl⟩ := Option.map_eq_some_iff.1 hstep
  exact keyOf_handleRequest hout hok hs

/-- **What a successful `ENCLAVE_KEYGEN` returns** is the id of a key. -/
theorem keyOf_keygen (hop : req.op = EnclaveOp.keygen)
    (h : handleRequest A H env keys (some req) = some (keys', resp)) (hok : resp.status = 0)
    (hfresh : FreshId keys (env, some req)) :
    keyOf keys' (resp.data.bytes.take 32) = some env.key := by
  rw [handleRequest, hop] at h
  have hout : keygenCase env keys req = (keys', resp) := Option.some.inj h
  by_cases hroom : keys.count < maxKeys
  · rw [keygenCase_of_lt hroom] at hout
    obtain ⟨rfl, rfl⟩ := Prod.mk.inj hout
    have hid := Buf.take_write_zero EnclaveResponse.zero.data env.id.bytes (length_id_le env)
    rw [env.id.length_bytes] at hid
    rw [hid, keyOf_append hroom (hfresh req rfl hop), if_pos rfl]
  · rw [keygenCase_of_not_lt hroom] at hout
    obtain ⟨-, rfl⟩ := Prod.mk.inj hout
    exact absurd hok (by decide)

/-! ### Encryption and decryption -/

/-- An id that names a key is found. -/
theorem withKey_of_keyOf {key : Buf keySize} (hid : keyOf keys req.keyId = some key)
    (hlen : req.dataLen ≤ maxDataSize) (op : ℕ → EnclaveKey → Keys × EnclaveResponse) :
    ∃ i k, k.key = key ∧ withKey env keys req op = some (op i k) := by
  obtain ⟨k, hlook, hkey⟩ := Option.map_eq_some_iff.1 hid
  cases hfind : findKey keys req.keyId with
  | none =>
    rw [PackedTable.find?_eq_none_iff.1 hfind] at hlook
    cases hlook
  | some i =>
    obtain ⟨pre, k', post, hlive, rfl, hlook'⟩ := PackedTable.exists_lookup_of_find? hfind
    obtain rfl : k' = k := Option.some.inj (hlook'.symm.trans hlook)
    refine ⟨pre.length, k', hkey, ?_⟩
    rw [withKey, hfind, Option.bind_some, show keys.live[pre.length]? = some k' by simp [hlive]]
    exact if_pos (Or.inr hlen)

/-- The vector a context is given. -/
def vector (env : Env) : Bytes := env.iv.bytes.take Gcm.ivLength

theorem length_vector (env : Env) : (vector env).length = Gcm.ivLength :=
  List.length_take_of_le (by rw [env.iv.length_bytes]; decide)

theorem length_take_iv (req : EnclaveRequest) :
    (req.iv.take Gcm.ivLength).length = Gcm.ivLength := by
  have hiv : req.iv.length = ivSize := Bytes.length_slice (by rw [req.length_bytes]; decide)
  rw [List.length_take_of_le (by rw [hiv]; decide)]

theorem bytes_write_iv (env : Env) :
    ((Buf.zero maxDataSize).write ivOffset env.iv.bytes (length_iv_le env)).bytes =
      List.replicate ivOffset 0 ++ env.iv.bytes :=
  Buf.bytes_write_end _ (by rw [env.iv.length_bytes]; rfl)

/-- **The buffer of an encryption response**: the ciphertext over the vector. -/
theorem enclaveEncrypt_eq (hctx : env.ctxNew = true) (key : Bytes) {plain : Bytes}
    (h : plain.length ≤ maxDataSize) (tag : Buf tagSize) :
    (enclaveEncrypt A env key plain h (.zero maxDataSize) tag).1.bytes =
        A.encrypt key (vector env) plain ++
          (List.replicate ivOffset 0 ++ env.iv.bytes).drop plain.length ∧
      (enclaveEncrypt A env key plain h (.zero maxDataSize) tag).2 =
        (A.mac key (vector env) (A.encrypt key (vector env) plain), (plain.length : ℤ)) := by
  have hiv : (((Buf.zero maxDataSize).write ivOffset env.iv.bytes
      (length_iv_le env)).bytes.drop ivOffset).take Gcm.ivLength = vector env := by
    rw [bytes_write_iv, List.drop_left' List.length_replicate, vector]
  rw [enclaveEncrypt, if_pos hctx]
  dsimp only
  rw [Buf.bytes_overwrite, bytes_write_iv, A.length_encrypt, ← bytes_write_iv, hiv, bytes_write_iv]
  exact ⟨rfl, rfl⟩

/-- What lies in the vector's place: the end of the ciphertext, and the rest of the vector. -/
theorem drop_overwritten (m : ℕ) (c v : Bytes) :
    (c ++ (List.replicate m 0 ++ v).drop c.length).drop m =
      c.drop m ++ v.drop (c.drop m).length := by
  rw [List.drop_append, List.drop_drop, List.length_drop]
  congr 1
  rcases Nat.le_total c.length m with hle | hle
  · rw [Nat.add_sub_cancel' hle, Nat.sub_eq_zero_of_le hle, List.drop_zero,
      List.drop_left' List.length_replicate]
  · rw [Nat.sub_eq_zero_of_le hle, Nat.add_zero, List.drop_append, List.length_replicate,
      List.drop_of_length_le (by rwa [List.length_replicate]), List.nil_append]

/-- Overwriting the start of a vector leaves its first `n` bytes as they are exactly if what is
written there was there before. -/
theorem take_overwritten_eq_iff {x v : Bytes} (n : ℕ) (h : x.length ≤ v.length) :
    (x ++ v.drop x.length).take n = v.take n ↔ x.take n <+: v := by
  constructor
  · intro heq
    have hx : x.take n <+: (x ++ v.drop x.length).take n :=
      List.prefix_take_iff.2 ⟨(List.take_prefix n x).trans (List.prefix_append _ _),
        List.length_take_le n x⟩
    exact (heq ▸ hx).trans (List.take_prefix n v)
  · intro hx
    rcases Nat.le_total x.length n with hle | hle
    · rw [List.take_of_length_le hle] at hx
      obtain ⟨rest, rfl⟩ := hx
      rw [List.drop_left]
    · rw [List.take_append_of_le_length hle]
      have hlen : (x.take n).length = n := List.length_take_of_le hle
      rw [List.prefix_iff_eq_take.1 hx, hlen]

theorem encryptCase_eq (hctx : env.ctxNew = true) (i : ℕ) (k : EnclaveKey) (req : EnclaveRequest) :
    encryptCase A env keys i k req = (keys.modify i useKey,
      { EnclaveResponse.zero with
        data := (enclaveEncrypt A env k.key.bytes (req.data.take req.dataLen)
          (length_take_data_le req) EnclaveResponse.zero.data EnclaveResponse.zero.tag).1
        tag := A.mac k.key.bytes (vector env)
          (A.encrypt k.key.bytes (vector env) (req.data.take req.dataLen))
        dataLen := (req.data.take req.dataLen).length }) := by
  have hrest := (enclaveEncrypt_eq (A := A) hctx k.key.bytes (length_take_data_le req)
    EnclaveResponse.zero.tag).2
  rw [encryptCase]
  rcases hout : enclaveEncrypt A env k.key.bytes (req.data.take req.dataLen)
    (length_take_data_le req) EnclaveResponse.zero.data EnclaveResponse.zero.tag
    with ⟨out, tag, len⟩
  obtain ⟨rfl, rfl⟩ := Prod.mk.inj ((congrArg Prod.snd hout).symm.trans hrest)
  exact if_neg (Int.natCast_nonneg _).not_gt

/-- The answer to an `ENCLAVE_ENCRYPT` with a known key. -/
theorem handleRequest_encrypt {key : Buf keySize} {plain : Bytes} (hop : req.op = EnclaveOp.encrypt)
    (hctx : env.ctxNew = true) (hid : keyOf keys req.keyId = some key)
    (hlen : req.dataLen ≤ maxDataSize) (hread : req.data.take req.dataLen = plain) :
    ∃ keys' resp, handleRequest A H env keys (some req) = some (keys', resp) ∧
      resp.data.bytes = A.encrypt key.bytes (vector env) plain ++
        (List.replicate ivOffset 0 ++ env.iv.bytes).drop plain.length ∧
      resp.tag = A.mac key.bytes (vector env) (A.encrypt key.bytes (vector env) plain) ∧
      resp.dataLen = plain.length := by
  obtain ⟨i, k, rfl, heq⟩ := withKey_of_keyOf hid hlen fun i k ↦ encryptCase A env keys i k req
  obtain rfl := hread
  rw [handleRequest, hop]
  refine ⟨_, _, heq.trans (congrArg some (encryptCase_eq hctx i k req)), ?_, rfl, rfl⟩
  exact (enclaveEncrypt_eq hctx k.key.bytes (length_take_data_le req) _).1

theorem decryptCase_of_mac (hctx : env.ctxNew = true) (i : ℕ) (k : EnclaveKey)
    (hmac : (A.mac k.key.bytes (req.iv.take Gcm.ivLength)
      (req.data.take req.dataLen)).bytes = req.tag) :
    decryptCase A env keys i k req = (keys.modify i useKey,
      { EnclaveResponse.zero with
        data := EnclaveResponse.zero.data.write 0
          (A.decrypt k.key.bytes (req.iv.take Gcm.ivLength) (req.data.take req.dataLen))
          (length_plain_le A (length_take_data_le req) _ _)
        dataLen := (req.data.take req.dataLen).length }) := by
  rw [decryptCase, enclaveDecrypt, if_pos hctx]
  dsimp only
  rw [if_pos hmac, if_neg (Int.natCast_nonneg _).not_gt, Int.toNat_natCast, A.length_decrypt]
  rfl

theorem status_decryptCase_of_not_mac (hctx : env.ctxNew = true) (i : ℕ) (k : EnclaveKey)
    (hmac : ¬ (A.mac k.key.bytes (req.iv.take Gcm.ivLength)
      (req.data.take req.dataLen)).bytes = req.tag) :
    (decryptCase A env keys i k req).2.status = -1 := by
  rw [decryptCase, enclaveDecrypt, if_pos hctx]
  dsimp only
  rw [if_neg hmac, if_pos (by decide)]
  rfl

/-- The answer to an `ENCLAVE_DECRYPT` with a known key: the plaintext, if the tag is right. -/
theorem handleRequest_decrypt {key : Buf keySize} {cipher : Bytes}
    (hop : req.op = EnclaveOp.decrypt) (hctx : env.ctxNew = true)
    (hid : keyOf keys req.keyId = some key)
    (hlen : req.dataLen ≤ maxDataSize) (hread : req.data.take req.dataLen = cipher) :
    ∃ keys' resp, handleRequest A H env keys (some req) = some (keys', resp) ∧
      if (A.mac key.bytes (req.iv.take Gcm.ivLength) cipher).bytes = req.tag then
        resp.status = 0 ∧ resp.dataLen = cipher.length ∧
          resp.data.bytes.take cipher.length = A.decrypt key.bytes (req.iv.take Gcm.ivLength) cipher
      else resp.status = -1 := by
  obtain ⟨i, k, rfl, heq⟩ := withKey_of_keyOf hid hlen fun i k ↦ decryptCase A env keys i k req
  obtain rfl := hread
  rw [handleRequest, hop]
  refine ⟨(decryptCase A env keys i k req).1, (decryptCase A env keys i k req).2, heq, ?_⟩
  split
  next hmac =>
    rw [decryptCase_of_mac hctx i k hmac]
    refine ⟨rfl, rfl, ?_⟩
    have htake := Buf.take_write_zero EnclaveResponse.zero.data
      (A.decrypt k.key.bytes (req.iv.take Gcm.ivLength) (req.data.take req.dataLen))
      (length_plain_le A (length_take_data_le req) _ _)
    rwa [A.length_decrypt] at htake
  next hmac => exact status_decryptCase_of_not_mac hctx i k hmac

/-! ### The round trip -/

/-- An `ENCLAVE_ENCRYPT` of a plaintext under an id. -/
structure EncryptionOf (id plain : Bytes) (req : EnclaveRequest) : Prop where
  /-- The operation. -/
  op : req.op = EnclaveOp.encrypt
  /-- The length. -/
  dataLen : req.dataLen = plain.length
  /-- The data start with the plaintext. -/
  data : req.data.take plain.length = plain
  /-- The id. -/
  keyId : req.keyId = id

/-- An `ENCLAVE_DECRYPT` of what a response carries: its data, length and tag, and the vector in
the last 16 bytes of its data. -/
structure DecryptionOf (id : Bytes) (resp : EnclaveResponse) (req : EnclaveRequest) : Prop where
  /-- The operation. -/
  op : req.op = EnclaveOp.decrypt
  /-- The length. -/
  dataLen : req.dataLen = resp.dataLen
  /-- The data. -/
  data : req.data = resp.data.bytes
  /-- The id. -/
  keyId : req.keyId = id
  /-- The vector. -/
  iv : req.iv = resp.data.bytes.drop ivOffset
  /-- The tag. -/
  tag : req.tag = resp.tag.bytes

section RoundTrip

variable (A H)

/-- The request is answered with status 0 and the plaintext. -/
def AnswersPlain (env : Env) (keys : Keys) (req : EnclaveRequest) (plain : Bytes) : Prop :=
  ∃ keys' resp, handleRequest A H env keys (some req) = some (keys', resp) ∧
    resp.status = 0 ∧ resp.dataLen = plain.length ∧ resp.data.bytes.take plain.length = plain

/-- Under `id`, an encryption of the plaintext is answered, and whatever the enclave is asked in
between, a decryption of the answer gives the plaintext back. -/
def RoundTrips (env₁ env₂ : Env) (keys : Keys) (id plain : Bytes) : Prop :=
  ∀ req, EncryptionOf id plain req → ∃ keys₁ resp,
    handleRequest A H env₁ keys (some req) = some (keys₁, resp) ∧
      ∀ ls keys₂, (daemon A H).Guarded FreshId keys₁ ls →
        (daemon A H).run keys₁ ls = some keys₂ →
        ∀ req', DecryptionOf id resp req' → AnswersPlain A H env₂ keys₂ req' plain

end RoundTrip

/-- A request with given fields. -/
def EnclaveRequest.ofFields (op dataLen : ℕ) (data : Buf maxDataSize) (id : Buf 32)
    (iv : Buf ivSize) (tag : Buf tagSize) : EnclaveRequest where
  bytes := [Bytes.le 4 op, Bytes.le 4 dataLen, data.bytes, id.bytes, iv.bytes, tag.bytes].flatten
  length_bytes := by
    simp [Buf.length_bytes]
    decide

section OfFields

variable {op dataLen : ℕ} {data : Buf maxDataSize} {b : Buf 32} {iv : Buf ivSize}
  {tag : Buf tagSize}

theorem op_ofFields (h : op < 2 ^ 32) :
    (EnclaveRequest.ofFields op dataLen data b iv tag).op = op :=
  Image.u32_flatten [] _ rfl rfl rfl h

theorem dataLen_ofFields (h : dataLen < 2 ^ 32) :
    (EnclaveRequest.ofFields op dataLen data b iv tag).dataLen = dataLen :=
  Image.u32_flatten [_] _ rfl (by simp; rfl) rfl h

theorem data_ofFields : (EnclaveRequest.ofFields op dataLen data b iv tag).data = data.bytes :=
  Image.field_flatten [_, _] data.bytes _ rfl (by simp; rfl) data.length_bytes.symm

theorem keyId_ofFields : (EnclaveRequest.ofFields op dataLen data b iv tag).keyId = b.bytes :=
  Image.field_flatten [_, _, _] b.bytes _ rfl (by simp [Buf.length_bytes]; rfl) b.length_bytes.symm

theorem iv_ofFields : (EnclaveRequest.ofFields op dataLen data b iv tag).iv = iv.bytes :=
  Image.field_flatten [_, _, _, _] iv.bytes _ rfl (by simp [Buf.length_bytes]; rfl)
    iv.length_bytes.symm

theorem tag_ofFields : (EnclaveRequest.ofFields op dataLen data b iv tag).tag = tag.bytes :=
  Image.field_flatten [_, _, _, _, _] tag.bytes _ rfl (by simp [Buf.length_bytes]; rfl)
    tag.length_bytes.symm

end OfFields

/-- An encryption of any plaintext that fits can be asked for. -/
theorem encryptionOf_ofFields (b : Buf 32) {plain : Bytes} (h : plain.length ≤ maxDataSize) :
    EncryptionOf b.bytes plain (.ofFields EnclaveOp.encrypt plain.length
      ((Buf.zero maxDataSize).write 0 plain (by rwa [Nat.zero_add])) b (.zero _) (.zero _)) where
  op := op_ofFields (by decide)
  dataLen := dataLen_ofFields (h.trans_lt (by decide))
  data := by
    rw [data_ofFields]
    exact Buf.take_write_zero _ plain _
  keyId := keyId_ofFields

theorem length_drop_ivOffset (data : Buf maxDataSize) :
    (data.bytes.drop ivOffset).length = ivSize := by
  rw [List.length_drop, data.length_bytes]
  rfl

/-- So can the decryption of any response. -/
theorem decryptionOf_ofFields (b : Buf 32) (h : resp.dataLen ≤ maxDataSize) :
    DecryptionOf b.bytes resp (.ofFields EnclaveOp.decrypt resp.dataLen resp.data b
      ⟨resp.data.bytes.drop ivOffset, length_drop_ivOffset resp.data⟩ resp.tag) where
  op := op_ofFields (by decide)
  dataLen := dataLen_ofFields (h.trans_lt (by decide))
  data := data_ofFields
  keyId := keyId_ofFields
  iv := iv_ofFields
  tag := tag_ofFields

theorem freshId_of_encryptionOf {plain : Bytes} (h : EncryptionOf id plain req) :
    FreshId keys (env, some req) := by
  intro r hr hop
  obtain rfl := Option.some.inj hr
  rw [h.op] at hop
  cases hop

/-- Only known ids have keys, and they have 32 bytes. -/
theorem exists_id_of_keyOf {key : Buf keySize} (h : keyOf keys id = some key) :
    ∃ b : Buf 32, b.bytes = id := by
  obtain ⟨k, hlook, -⟩ := Option.map_eq_some_iff.1 h
  exact ⟨k.id, of_decide_eq_true (List.find?_some hlook :)⟩

/-- The vector the answer carries is the one drawn exactly if the end of the ciphertext says so. -/
theorem vector_kept_iff {c : Bytes} (hc : c.length ≤ maxDataSize) :
    ((c ++ (List.replicate ivOffset 0 ++ env.iv.bytes).drop c.length).drop ivOffset).take
        Gcm.ivLength = vector env ↔
      (c.drop ivOffset).take Gcm.ivLength <+: env.iv.bytes := by
  have hlen : (c.drop ivOffset).length ≤ env.iv.bytes.length := by
    rw [List.length_drop, env.iv.length_bytes]
    exact Nat.sub_le_of_le_add hc
  rw [drop_overwritten, vector]
  exact take_overwritten_eq_iff Gcm.ivLength hlen

/-- **When the answer to an encryption can be decrypted**: the vector it carries must be the one
that was drawn, and the ciphertext is written over it. -/
theorem answersPlain_iff (hA : A.RejectsWrongIv) {env₁ env₂ : Env} {key : Buf keySize}
    {plain : Bytes} (hctx : env₂.ctxNew = true) (hid : keyOf keys id = some key)
    (hplain : plain.length ≤ maxDataSize)
    (hdata : resp.data.bytes = A.encrypt key.bytes (vector env₁) plain ++
      (List.replicate ivOffset 0 ++ env₁.iv.bytes).drop plain.length)
    (htag : resp.tag = A.mac key.bytes (vector env₁) (A.encrypt key.bytes (vector env₁) plain))
    (hlen : resp.dataLen = plain.length) (hreq : DecryptionOf id resp req) :
    AnswersPlain A H env₂ keys req plain ↔
      ((A.encrypt key.bytes (vector env₁) plain).drop ivOffset).take Gcm.ivLength <+:
        env₁.iv.bytes := by
  set cipher := A.encrypt key.bytes (vector env₁) plain with hcipher
  have hclen : cipher.length = plain.length := A.length_encrypt _ _ _
  rw [← hclen] at hdata
  have hread : req.data.take req.dataLen = cipher := by
    rw [hreq.data, hreq.dataLen, hdata, hlen, ← hclen, List.take_left]
  have hkept : _ = vector env₁ ↔ _ := vector_kept_iff (c := cipher) (hclen ▸ hplain)
  rw [← hdata, ← hreq.iv] at hkept
  obtain ⟨keys', resp', hans, hcase⟩ := handleRequest_decrypt (A := A) (H := H) hreq.op
    hctx (hreq.keyId ▸ hid) (by rw [hreq.dataLen, hlen]; exact hplain) hread
  rw [hreq.tag, htag] at hcase
  rw [← hkept]
  constructor
  · rintro ⟨keys'', resp'', hans', hstatus, -⟩
    obtain ⟨rfl, rfl⟩ := Prod.mk.inj (Option.some.inj (hans.symm.trans hans'))
    by_contra hne
    have hmac : A.mac key.bytes (req.iv.take Gcm.ivLength) cipher ≠
        A.mac key.bytes (vector env₁) cipher :=
      hA key.bytes (vector env₁) _ plain (length_vector env₁) (length_take_iv req) hne
    rw [if_neg fun h ↦ hmac (Buf.ext h), hstatus] at hcase
    cases hcase
  · intro heq
    rw [heq, if_pos rfl, hcipher, A.decrypt_encrypt, ← hcipher, hclen] at hcase
    exact ⟨keys', resp', hans, hcase⟩

/-- **The round trip of a known id.** -/
theorem roundTrips_iff_of_keyOf (hA : A.RejectsWrongIv) {env₁ env₂ : Env} {key : Buf keySize}
    {plain : Bytes} (hctx₁ : env₁.ctxNew = true) (hctx₂ : env₂.ctxNew = true)
    (hid : keyOf keys id = some key) (hplain : plain.length ≤ maxDataSize) :
    RoundTrips A H env₁ env₂ keys id plain ↔
      plain.length ≤ maxDataSize - ivSize ∨
        ((A.encrypt key.bytes (vector env₁) plain).drop ivOffset).take Gcm.ivLength <+:
          env₁.iv.bytes := by
  have hshort : plain.length ≤ maxDataSize - ivSize →
      ((A.encrypt key.bytes (vector env₁) plain).drop ivOffset).take Gcm.ivLength <+:
        env₁.iv.bytes := by
    intro h
    have hnil : (A.encrypt key.bytes (vector env₁) plain).drop ivOffset = [] :=
      List.drop_of_length_le ((A.length_encrypt _ _ _).le.trans h)
    rw [hnil, List.take_nil]
    exact List.nil_prefix
  rw [or_iff_right_of_imp hshort]
  constructor
  · intro h
    obtain ⟨b, rfl⟩ := exists_id_of_keyOf hid
    have hreq := encryptionOf_ofFields b hplain
    obtain ⟨keys₁, resp, hans, hround⟩ := h _ hreq
    obtain ⟨keys₁', resp', hans', hdata, htag, hlen⟩ := handleRequest_encrypt (A := A)
      (H := H) hreq.op hctx₁ (hreq.keyId ▸ hid) (hreq.dataLen.le.trans hplain)
      (by rw [hreq.dataLen, hreq.data])
    obtain ⟨rfl, rfl⟩ := Prod.mk.inj (Option.some.inj (hans.symm.trans hans'))
    have hid₁ := keyOf_handleRequest hans (freshId_of_encryptionOf hreq) hid
    have hreq' := decryptionOf_ofFields b (hlen ▸ hplain)
    exact (answersPlain_iff hA hctx₂ hid₁ hplain hdata htag hlen hreq').1
      (hround [] _ trivial rfl _ hreq')
  · intro h req hreq
    obtain ⟨keys₁, resp, hans, hdata, htag, hlen⟩ := handleRequest_encrypt (A := A) 
      (H := H) hreq.op hctx₁ (hreq.keyId ▸ hid) (hreq.dataLen.le.trans hplain)
      (by rw [hreq.dataLen, hreq.data])
    refine ⟨keys₁, resp, hans, fun ls keys₂ hguard hrun req' hreq' ↦ ?_⟩
    have hid₁ := keyOf_handleRequest hans (freshId_of_encryptionOf hreq) hid
    exact (answersPlain_iff hA hctx₂ (keyOf_run hid₁ hguard hrun) hplain hdata htag hlen hreq').2 h

/-- **The enclave round trip.** Whatever is asked after a key was generated, a plaintext encrypted
under its id is given back exactly if it has at most 4080 bytes, so that the ciphertext leaves the
vector alone, or the ciphertext has the vector's own first bytes in the vector's place. -/
theorem roundTrips_iff (hA : A.RejectsWrongIv) {envₖ env₁ env₂ : Env} {keys₀ keys₁ : Keys}
    (hop : req.op = EnclaveOp.keygen)
    (hgen : handleRequest A H envₖ keys₀ (some req) = some (keys₁, resp))
    (hok : resp.status = 0) (hfresh : FreshId keys₀ (envₖ, some req))
    {ls : List (Env × Option EnclaveRequest)}
    (hguard : (daemon A H).Guarded FreshId keys₁ ls)
    (hrun : (daemon A H).run keys₁ ls = some keys) {plain : Bytes}
    (hplain : plain.length ≤ maxDataSize) (hctx₁ : env₁.ctxNew = true)
    (hctx₂ : env₂.ctxNew = true) :
    RoundTrips A H env₁ env₂ keys (resp.data.bytes.take 32) plain ↔
      plain.length ≤ maxDataSize - ivSize ∨
        ((A.encrypt envₖ.key.bytes (vector env₁) plain).drop ivOffset).take Gcm.ivLength <+:
          env₁.iv.bytes :=
  roundTrips_iff_of_keyOf hA hctx₁ hctx₂ (keyOf_run (keyOf_keygen hop hgen hok hfresh) hguard hrun)
    hplain

/-- An environment that draws zeros. -/
def Env.zeros : Env := ⟨.zero _, .zero _, .zero _, 0, true⟩

/-- A request for a key. -/
def EnclaveRequest.keygen : EnclaveRequest :=
  .ofFields EnclaveOp.keygen 0 (.zero _) (.zero _) (.zero _) (.zero _)

theorem op_keygen : EnclaveRequest.keygen.op = EnclaveOp.keygen := op_ofFields (by decide)

/-- The table after one key was generated. -/
def Keys.one : Keys := (keygenCase .zeros .init .keygen).1

/-- The answer. -/
def EnclaveResponse.one : EnclaveResponse := (keygenCase .zeros .init .keygen).2

theorem handleRequest_keygen : handleRequest A H .zeros .init (some .keygen) =
    some (.one, .one) := by
  rw [handleRequest, op_keygen]
  rfl

theorem status_one : EnclaveResponse.one.status = 0 := by
  rw [EnclaveResponse.one, keygenCase_of_lt (by decide)]
  rfl

theorem freshId_init (l : Env × Option EnclaveRequest) : FreshId .init l := fun _ _ _ ↦ rfl

theorem keyOf_one : keyOf .one (EnclaveResponse.one.data.bytes.take 32) = some (.zero keySize) :=
  keyOf_keygen (A := Gcm.transparent) (H := fun _ ↦ .zero 32) op_keygen handleRequest_keygen
    status_one (freshId_init _)

/-- The empty plaintext makes the round trip. -/
theorem roundTrips_iff_empty :
    RoundTrips Gcm.transparent (fun _ ↦ .zero 32) .zeros .zeros .one
      (EnclaveResponse.one.data.bytes.take 32) [] :=
  (roundTrips_iff Gcm.transparent_rejectsWrongIv op_keygen handleRequest_keygen status_one
    (freshId_init _)
    (show (daemon Gcm.transparent fun _ ↦ .zero 32).Guarded FreshId .one [] from trivial)
    rfl (by decide) rfl rfl).2 (Or.inl (by decide))

/-- A plaintext of 4096 ones, encrypted under a vector of zeros, does not. -/
theorem not_roundTrips_full :
    handleRequest Gcm.transparent (fun _ ↦ .zero 32) .zeros .init (some .keygen) =
        some (.one, .one) ∧ EnclaveResponse.one.status = 0 ∧
      ¬ RoundTrips Gcm.transparent (fun _ ↦ .zero 32) .zeros .zeros .one
        (EnclaveResponse.one.data.bytes.take 32) (List.replicate 4096 1) := by
  have hlen : (List.replicate 4096 (1 : UInt8)).length = 4096 := List.length_replicate
  refine ⟨handleRequest_keygen, status_one, fun h ↦ ?_⟩
  rw [roundTrips_iff_of_keyOf Gcm.transparent_rejectsWrongIv rfl rfl
    keyOf_one hlen.le, hlen] at h
  rcases h with h | h
  · exact absurd h (by decide)
  · rw [show Gcm.transparent.encrypt _ (vector .zeros) (List.replicate 4096 1) =
      List.replicate 4096 1 from rfl, List.drop_replicate, List.take_replicate] at h
    exact absurd h (by decide)

end JuliusOS.Enclave
