import JuliusOS.Core.Receive
import JuliusOS.Enclave.Daemon
import JuliusOS.Keychain.Map

/-!
# Lengths that a client sends

Three daemons take a length from a client and hand it to a cipher, a hash or `memcpy`. Here each
entry point has its list of `Transfer`s, the calls that process a length's worth of bytes with
the sizes of the buffers they do it in, and the length a request announces for such a call.

The lists follow the handlers, and they are the right ones: a handler is stuck, which is how the
models say that the C code leaves a buffer, exactly at a transfer out of bounds
(`handleKcRequest_eq_none_iff`, `handleRequest_eq_none_iff`, `copyPayload_eq_none_iff`).

`bounded_iff` is the condition under which every transfer is in bounds and a length out of range
is answered with an error. No handler compares the length with anything, so it is a condition on
the length itself, except where another check (a full table, an unknown key, a topic nobody asked
for) comes first. `ipc_receive` does take the caller's `buflen` into account, but a negative
length passes that test, and a length beyond `data` is cut and reported as received.
-/

open CString StructLayout

namespace JuliusOS.UntrustedLengths

open JuliusOS.Keychain JuliusOS.Enclave JuliusOS.Core

/-- A call that processes `count` bytes of each of some buffers. -/
structure Transfer where
  /-- The length argument. -/
  count : ℤ
  /-- The sizes of the buffers. -/
  buffers : List ℕ

/-- The call stays inside its buffers. -/
def Transfer.InBounds (t : Transfer) : Prop := 0 ≤ t.count ∧ ∀ size ∈ t.buffers, t.count ≤ size

/-! ### The keychain -/

/-- The cipher calls of `handle_kc_request`: from `req.data` to `encrypted`, and from `encrypted`
to `resp.data`. -/
def kcTransfers (env : Keychain.Env) (st : Store) (req : KeychainRequest) : List Transfer :=
  match req.op with
  | kcAdd =>
    if kcMaxItems ≤ st.items.count then []
    else if env.ctxNew then [⟨req.dataLen, [512, 512]⟩] else []
  | kcGet =>
    match (kcFind st.items req.service req.account).bind fun i ↦ st.items.live[i]? with
    | none => []
    | some it => if env.ctxNew then [⟨it.encLen, [512, 512]⟩] else []
  | _ => []

/-! ### The enclave -/

/-- A `uint32_t` passed as an `int`. -/
def toInt32 (n : ℕ) : ℤ := if n < 2 ^ 31 then n else n - 2 ^ 32

/-- The cipher and hash calls of `handle_request`. `SHA256_Update` takes a `size_t` and writes
nothing. -/
def enclaveTransfers (env : Enclave.Env) (keys : Keys) : Option EnclaveRequest → List Transfer
  | none => []
  | some req =>
    match req.op with
    | EnclaveOp.encrypt | EnclaveOp.decrypt =>
      if (findKey keys req.keyId).isSome ∧ env.ctxNew = true then
        [⟨toInt32 req.dataLen, [maxDataSize, maxDataSize]⟩]
      else []
    | EnclaveOp.hash => [⟨req.dataLen, [maxDataSize]⟩]
    | _ => []

/-! ### The core daemon -/

/-- The `memcpy` from `msg.data` to the caller's buffer. -/
def copyTransfer (msg : IpcMessage) (buflen : ℕ) : Transfer :=
  ⟨copyLen msg buflen, [ipcBufSize, buflen]⟩

/-! ### Entry points -/

/-- A request that has reached one of the daemons, with everything else its handling depends
on. -/
inductive Entry
  /-- `handle_kc_request`. -/
  | keychain (env : Keychain.Env) (st : Store) (req : KeychainRequest)
  /-- `handle_request` of the enclave. -/
  | enclave (env : Enclave.Env) (keys : Keys) (req : Option EnclaveRequest)
  /-- `ipc_receive`. -/
  | receive (buflen : ℕ) (topic : Bytes) (buf : Buf buflen) (msg : Option IpcMessage)
  /-- `ipc_receive_any`. -/
  | receiveAny (buflen : ℕ) (topicOut : Buf 64) (buf : Buf buflen) (msg : Option IpcMessage)

namespace Entry

/-- The calls that process a length's worth of bytes. -/
def transfers : Entry → List Transfer
  | keychain env st req => kcTransfers env st req
  | enclave env keys req => enclaveTransfers env keys req
  | receive buflen topic _ msg =>
    match msg with
    | some msg => if strcmpEq msg.topic topic then [copyTransfer msg buflen] else []
    | none => []
  | receiveAny buflen _ _ msg =>
    match msg with
    | some msg => [copyTransfer msg buflen]
    | none => []

/-- The length that the request announces for such a call, and the size of the field it is the
length of. -/
def announced : Entry → Option (ℤ × ℕ)
  | keychain _ _ req => if req.op = kcAdd then some (req.dataLen, 512) else none
  | enclave _ _ (some req) =>
    if req.op = EnclaveOp.encrypt ∨ req.op = EnclaveOp.decrypt ∨ req.op = EnclaveOp.hash then
      some (req.dataLen, maxDataSize)
    else none
  | receive _ _ _ (some msg) => some (msg.dataLen, ipcBufSize)
  | receiveAny _ _ _ (some msg) => some (msg.dataLen, ipcBufSize)
  | _ => none

variable (A : Gcm) (sha256 : Bytes → Buf 32)

/-- The request is answered with an error. -/
def AnswersError : Entry → Prop
  | keychain env st req =>
    ∃ st' resp, handleKcRequest A env st req = some (st', resp) ∧ resp.status ≠ 0
  | enclave env keys req =>
    ∃ keys' resp, handleRequest A sha256 env keys req = some (keys', resp) ∧ resp.status ≠ 0
  | receive _ topic buf msg => ∃ buf', ipcReceive topic buf msg = some (-1, buf')
  | receiveAny _ topicOut buf msg =>
    ∃ topicOut' buf', ipcReceiveAny topicOut buf msg = some (-1, topicOut', buf')

/-- Every transfer is in bounds, and a length out of range is answered with an error. -/
structure Bounded (e : Entry) : Prop where
  /-- The transfers are in bounds. -/
  inBounds : ∀ t ∈ e.transfers, t.InBounds
  /-- A length out of range is answered with an error. -/
  answersError : ∀ n size, e.announced = some (n, size) → ¬ (0 ≤ n ∧ n ≤ size) →
    e.AnswersError A sha256

/-- The lengths that the daemon uses are in range. -/
def InRange : Entry → Prop
  | keychain env st req =>
    (req.op = kcAdd → st.Full ∨ 0 ≤ req.dataLen ∧ req.dataLen ≤ 512) ∧
      (req.op = kcGet → env.ctxNew = true → ∀ it, st.lookup req.key = some it →
        0 ≤ it.encLen ∧ it.encLen ≤ 512)
  | enclave env keys req => ∀ r, req = some r →
    (r.op = EnclaveOp.encrypt ∨ r.op = EnclaveOp.decrypt → (findKey keys r.keyId).isSome →
      env.ctxNew = true → r.dataLen ≤ maxDataSize) ∧
    (r.op = EnclaveOp.hash → r.dataLen ≤ maxDataSize)
  | receive _ topic _ msg => ∀ m, msg = some m → cstr m.topic = cstr topic →
    0 ≤ m.dataLen ∧ m.dataLen ≤ ipcBufSize
  | receiveAny _ _ _ msg => ∀ m, msg = some m → 0 ≤ m.dataLen ∧ m.dataLen ≤ ipcBufSize

end Entry

variable {A : Gcm} {sha256 : Bytes → Buf 32}

/-! ### Receiving -/

theorem copyTransfer_inBounds_iff (msg : IpcMessage) (buflen : ℕ) :
    (copyTransfer msg buflen).InBounds ↔
      0 ≤ copyLen msg buflen ∧ copyLen msg buflen ≤ ipcBufSize := by
  have hle : copyLen msg buflen ≤ buflen := by
    rw [copyLen]
    split <;> omega
  simp only [Transfer.InBounds, copyTransfer, List.forall_mem_cons, List.not_mem_nil,
    false_implies, implies_true, and_true, hle]

/-- `memcpy` leaves a buffer exactly if the transfer is out of bounds. -/
theorem copyPayload_eq_none_iff {buflen : ℕ} (msg : IpcMessage) (buf : Buf buflen) :
    copyPayload msg buf = none ↔ ¬ (copyTransfer msg buflen).InBounds := by
  rw [copyTransfer_inBounds_iff, copyPayload]
  split <;> simp_all

/-- What is copied is reported as received. -/
theorem copyPayload_ne_error {buflen : ℕ} (msg : IpcMessage) (buf buf' : Buf buflen) :
    copyPayload msg buf ≠ some (-1, buf') := by
  rw [copyPayload]
  split
  next hcopy =>
    intro heq
    obtain ⟨hlen, -⟩ := Prod.ext_iff.1 (Option.some.inj heq)
    have : copyLen msg buflen = -1 := hlen
    omega
  next => simp

/-- So a message that is copied needs a length in range. -/
theorem bounded_copy_iff (msg : IpcMessage) (buflen : ℕ) {P : Prop} (hno : ¬ P) :
    ((copyTransfer msg buflen).InBounds ∧ (¬ (0 ≤ msg.dataLen ∧ msg.dataLen ≤ ipcBufSize) → P)) ↔
      0 ≤ msg.dataLen ∧ msg.dataLen ≤ ipcBufSize := by
  rw [copyTransfer_inBounds_iff, copyLen]
  constructor
  · exact fun h ↦ by_contra fun hrange ↦ hno (h.2 hrange)
  · intro hrange
    refine ⟨?_, fun hbad ↦ absurd hrange hbad⟩
    split <;> omega

/-- Whether an entry with at most one transfer and an announced length is bounded. -/
theorem bounded_iff_of_eq {e : Entry} {ts : List Transfer} {n : ℤ} {size : ℕ}
    (hts : e.transfers = ts) (hann : e.announced = some (n, size)) :
    e.Bounded A sha256 ↔
      (∀ t ∈ ts, t.InBounds) ∧ (¬ (0 ≤ n ∧ n ≤ size) → e.AnswersError A sha256) := by
  constructor
  · exact fun h ↦ ⟨hts ▸ h.inBounds, h.answersError n size hann⟩
  · rintro ⟨hin, herr⟩
    refine ⟨hts ▸ hin, fun n' size' hann' ↦ ?_⟩
    obtain ⟨rfl, rfl⟩ := Prod.ext_iff.1 (Option.some.inj (hann.symm.trans hann'))
    exact herr

/-- An entry that announces no length only has to keep its transfers in bounds. -/
theorem bounded_iff_of_none {e : Entry} {ts : List Transfer} (hts : e.transfers = ts)
    (hann : e.announced = none) : e.Bounded A sha256 ↔ ∀ t ∈ ts, t.InBounds := by
  refine ⟨fun h ↦ hts ▸ h.inBounds, fun h ↦ ⟨hts ▸ h, fun n size hsome ↦ ?_⟩⟩
  rw [hann] at hsome
  cases hsome

/-- An entry that processes nothing and announces nothing is bounded. -/
theorem bounded_of_nil {e : Entry} (hts : e.transfers = []) (hann : e.announced = none) :
    e.Bounded A sha256 :=
  (bounded_iff_of_none hts hann).2 (List.forall_mem_nil _)

theorem bounded_receive_iff {buflen : ℕ} (topic : Bytes) (buf : Buf buflen)
    (msg : Option IpcMessage) :
    (Entry.receive buflen topic buf msg).Bounded A sha256 ↔
      (Entry.receive buflen topic buf msg).InRange := by
  cases msg with
  | none => exact iff_of_true (bounded_of_nil rfl rfl) (by rintro m ⟨⟩)
  | some msg =>
    simp only [Entry.InRange, Option.some.injEq, forall_eq']
    by_cases htopic : strcmpEq msg.topic topic = true
    · have hts : (Entry.receive buflen topic buf (some msg)).transfers =
          [copyTransfer msg buflen] := if_pos htopic
      have hno : ¬ (Entry.receive buflen topic buf (some msg)).AnswersError A sha256 := by
        rintro ⟨buf', herr⟩
        rw [ipcReceive, if_pos htopic] at herr
        exact copyPayload_ne_error msg buf buf' herr
      rw [bounded_iff_of_eq hts rfl, List.forall_mem_singleton, bounded_copy_iff msg buflen hno]
      exact ⟨fun h _ ↦ h, fun h ↦ h (strcmpEq_iff.1 htopic)⟩
    · have hts : (Entry.receive buflen topic buf (some msg)).transfers = [] := if_neg htopic
      rw [bounded_iff_of_eq hts rfl]
      refine iff_of_true ⟨List.forall_mem_nil _, fun _ ↦ ⟨buf, if_neg htopic⟩⟩ fun h ↦ ?_
      exact absurd (strcmpEq_iff.2 h) htopic

theorem bounded_receiveAny_iff {buflen : ℕ} (topicOut : Buf 64) (buf : Buf buflen)
    (msg : Option IpcMessage) :
    (Entry.receiveAny buflen topicOut buf msg).Bounded A sha256 ↔
      (Entry.receiveAny buflen topicOut buf msg).InRange := by
  cases msg with
  | none => exact iff_of_true (bounded_of_nil rfl rfl) (by rintro m ⟨⟩)
  | some msg =>
    have hno : ¬ (Entry.receiveAny buflen topicOut buf (some msg)).AnswersError A sha256 := by
      rintro ⟨topicOut', buf', herr⟩
      obtain ⟨out, hout, heq⟩ := Option.map_eq_some_iff.1 herr
      have hlen : out.1 = -1 := congrArg Prod.fst heq
      exact copyPayload_ne_error msg buf out.2 (hout.trans (congrArg some (Prod.ext hlen rfl)))
    have hts : (Entry.receiveAny buflen topicOut buf (some msg)).transfers =
        [copyTransfer msg buflen] := rfl
    simp only [Entry.InRange, Option.some.injEq, forall_eq']
    rw [bounded_iff_of_eq hts rfl, List.forall_mem_singleton, bounded_copy_iff msg buflen hno]

/-! ### The enclave -/

theorem toInt32_inRange_iff {n : ℕ} (hn : n < 2 ^ 32) :
    0 ≤ toInt32 n ∧ toInt32 n ≤ maxDataSize ↔ n ≤ maxDataSize := by
  have hmax : maxDataSize < 2 ^ 31 := by decide
  rw [toInt32]
  split <;> omega

/-- Whether `withKey` answers with an error. -/
theorem withKey_cases (env : Enclave.Env) (keys : Keys) (req : EnclaveRequest)
    (op : ℕ → EnclaveKey → Keys × EnclaveResponse) :
    (findKey keys req.keyId = none ∧
        withKey env keys req op = some (keys, EnclaveResponse.zero.fail "Key not found")) ∨
      ∃ i k, findKey keys req.keyId = some i ∧ withKey env keys req op =
        if env.ctxNew = false ∨ req.dataLen ≤ maxDataSize then some (op i k) else none := by
  rw [withKey]
  cases hfind : findKey keys req.keyId with
  | none => exact Or.inl ⟨rfl, rfl⟩
  | some i =>
    have hi : i < keys.live.length := by
      rw [PackedTable.length_live]
      exact PackedTable.lt_count_of_find?_eq_some hfind
    refine Or.inr ⟨i, keys.live[i], rfl, ?_⟩
    rw [Option.bind_some, List.getElem?_eq_getElem hi]
    rfl

/-- Without a cipher context, encryption and decryption fail. -/
theorem status_encryptCase {env : Enclave.Env} (hctx : env.ctxNew = false) (keys : Keys) (i : ℕ)
    (k : EnclaveKey) (req : EnclaveRequest) : (encryptCase A env keys i k req).2.status = -1 := by
  rw [encryptCase]
  simp only [enclaveEncrypt, hctx]
  rfl

theorem status_decryptCase {env : Enclave.Env} (hctx : env.ctxNew = false) (keys : Keys) (i : ℕ)
    (k : EnclaveKey) (req : EnclaveRequest) : (decryptCase A env keys i k req).2.status = -1 := by
  rw [decryptCase]
  simp only [enclaveDecrypt, hctx]
  rfl

/-- A cipher operation of the enclave is handled after the key lookup, and fails without a
context. -/
theorem exists_withKey (A : Gcm) (sha256 : Bytes → Buf 32) (env : Enclave.Env) (keys : Keys)
    {req : EnclaveRequest} (hop : req.op = EnclaveOp.encrypt ∨ req.op = EnclaveOp.decrypt) :
    ∃ op, handleRequest A sha256 env keys (some req) = withKey env keys req op ∧
      (env.ctxNew = false → ∀ i k, (op i k).2.status = -1) := by
  rcases hop with hop | hop
  · refine ⟨fun i k ↦ encryptCase A env keys i k req, ?_, fun hctx i k ↦
      status_encryptCase hctx keys i k req⟩
    simp only [handleRequest, hop]
  · refine ⟨fun i k ↦ decryptCase A env keys i k req, ?_, fun hctx i k ↦
      status_decryptCase hctx keys i k req⟩
    simp only [handleRequest, hop]

theorem transfers_cipher {env : Enclave.Env} {keys : Keys} {req : EnclaveRequest}
    (hop : req.op = EnclaveOp.encrypt ∨ req.op = EnclaveOp.decrypt) :
    (Entry.enclave env keys (some req)).transfers =
      if (findKey keys req.keyId).isSome ∧ env.ctxNew = true then
        [⟨toInt32 req.dataLen, [maxDataSize, maxDataSize]⟩]
      else [] := by
  rcases hop with hop | hop <;> simp only [Entry.transfers, enclaveTransfers, hop]

theorem cipherTransfer_inBounds_iff (req : EnclaveRequest) :
    Transfer.InBounds ⟨toInt32 req.dataLen, [maxDataSize, maxDataSize]⟩ ↔
      req.dataLen ≤ maxDataSize := by
  rw [← toInt32_inRange_iff (show req.dataLen < 2 ^ 32 from req.u32_lt 1)]
  simp [Transfer.InBounds]

/-- **A cipher operation** is bounded if the length fits, or the key is unknown, or there is no
context. -/
theorem bounded_cipher_iff {env : Enclave.Env} {keys : Keys} {req : EnclaveRequest}
    (hop : req.op = EnclaveOp.encrypt ∨ req.op = EnclaveOp.decrypt) :
    (Entry.enclave env keys (some req)).Bounded A sha256 ↔
      ((findKey keys req.keyId).isSome → env.ctxNew = true → req.dataLen ≤ maxDataSize) := by
  have hann : (Entry.enclave env keys (some req)).announced =
      some ((req.dataLen : ℤ), maxDataSize) :=
    if_pos (hop.imp_right Or.inl)
  obtain ⟨op, hhandle, hfails⟩ := exists_withKey A sha256 env keys hop
  rw [bounded_iff_of_eq (transfers_cipher hop) hann]
  by_cases hused : (findKey keys req.keyId).isSome ∧ env.ctxNew = true
  · rw [if_pos hused, List.forall_mem_singleton, cipherTransfer_inBounds_iff]
    exact ⟨fun h _ _ ↦ h.1, fun h ↦ ⟨h hused.1 hused.2, fun hbad ↦
      absurd ⟨Int.natCast_nonneg _, Int.ofNat_le.2 (h hused.1 hused.2)⟩ hbad⟩⟩
  · rw [if_neg hused]
    refine iff_of_true ⟨List.forall_mem_nil _, fun _ ↦ ?_⟩ fun hkey hctx ↦ absurd ⟨hkey, hctx⟩ hused
    rcases withKey_cases env keys req op with ⟨-, heq⟩ | ⟨i, k, hfind, heq⟩
    · exact ⟨_, _, hhandle.trans heq, by decide⟩
    · have hctx : env.ctxNew = false :=
        Bool.eq_false_iff.2 fun hctx ↦ hused ⟨by rw [hfind]; rfl, hctx⟩
      rw [if_pos (Or.inl hctx)] at heq
      refine ⟨_, _, hhandle.trans heq, ?_⟩
      rw [hfails hctx]
      decide

/-- **A hash** is bounded if the length fits. -/
theorem bounded_hash_iff {env : Enclave.Env} {keys : Keys} {req : EnclaveRequest}
    (hop : req.op = EnclaveOp.hash) :
    (Entry.enclave env keys (some req)).Bounded A sha256 ↔ req.dataLen ≤ maxDataSize := by
  have hts : (Entry.enclave env keys (some req)).transfers =
      [⟨(req.dataLen : ℤ), [maxDataSize]⟩] := by
    simp only [Entry.transfers, enclaveTransfers, hop]
  have hann : (Entry.enclave env keys (some req)).announced =
      some ((req.dataLen : ℤ), maxDataSize) :=
    if_pos (Or.inr (Or.inr hop))
  rw [bounded_iff_of_eq hts hann, List.forall_mem_singleton]
  constructor
  · rintro ⟨hin, -⟩
    exact Int.ofNat_le.1 (hin.2 maxDataSize (List.mem_singleton_self _))
  · intro hle
    refine ⟨⟨Int.natCast_nonneg _, List.forall_mem_singleton.2 (Int.ofNat_le.2 hle)⟩,
      fun hbad ↦ absurd ⟨Int.natCast_nonneg _, Int.ofNat_le.2 hle⟩ hbad⟩

theorem bounded_enclave_iff {env : Enclave.Env} {keys : Keys} (req : Option EnclaveRequest) :
    (Entry.enclave env keys req).Bounded A sha256 ↔ (Entry.enclave env keys req).InRange := by
  cases req with
  | none => exact iff_of_true (bounded_of_nil rfl rfl) (by rintro r ⟨⟩)
  | some req =>
    simp only [Entry.InRange, Option.some.injEq, forall_eq']
    by_cases hcipher : req.op = EnclaveOp.encrypt ∨ req.op = EnclaveOp.decrypt
    · have hhash : req.op ≠ EnclaveOp.hash := by
        rcases hcipher with hop | hop <;> rw [hop] <;> decide
      rw [bounded_cipher_iff hcipher]
      exact ⟨fun h ↦ ⟨fun _ ↦ h, fun hop ↦ absurd hop hhash⟩, fun h ↦ h.1 hcipher⟩
    · by_cases hhash : req.op = EnclaveOp.hash
      · rw [bounded_hash_iff hhash]
        exact ⟨fun h ↦ ⟨fun hop ↦ absurd hop hcipher, fun _ ↦ h⟩, fun h ↦ h.2 hhash⟩
      · have hts : (Entry.enclave env keys (some req)).transfers = [] := by
          rw [Entry.transfers, enclaveTransfers]
          split <;> simp_all
        have hann : (Entry.enclave env keys (some req)).announced = none :=
          if_neg (by rintro (hop | hop | hop) <;> simp_all)
        exact iff_of_true (bounded_of_nil hts hann)
          ⟨fun hop ↦ absurd hop hcipher, fun hop ↦ absurd hop hhash⟩

/-! ### The keychain -/

theorem kcTransfer_inBounds_iff (n : ℤ) :
    Transfer.InBounds ⟨n, [512, 512]⟩ ↔ 0 ≤ n ∧ n ≤ 512 := by
  simp [Transfer.InBounds]

theorem transfers_add {env : Keychain.Env} {st : Store} {req : KeychainRequest}
    (hop : req.op = kcAdd) : (Entry.keychain env st req).transfers =
      if kcMaxItems ≤ st.items.count then []
      else if env.ctxNew then [⟨req.dataLen, [512, 512]⟩] else [] := by
  simp only [Entry.transfers, kcTransfers, hop]

theorem transfers_get {env : Keychain.Env} {st : Store} {req : KeychainRequest}
    (hop : req.op = kcGet) : (Entry.keychain env st req).transfers =
      (st.lookup req.key).elim [] fun it ↦
        if env.ctxNew then [⟨it.encLen, [512, 512]⟩] else [] := by
  simp only [Entry.transfers, kcTransfers, hop]
  rw [kcFind_req, PackedTable.find?_bind_getElem?]
  show _ = (st.items.lookup KeychainItem.key req.key).elim _ _
  cases st.items.lookup KeychainItem.key req.key <;> rfl

/-- **An add** is bounded if the length fits, or the table is full. Without a cipher context it
is not: nothing is encrypted, but status 0 is answered all the same. -/
theorem bounded_add_iff {env : Keychain.Env} {st : Store} {req : KeychainRequest}
    (hop : req.op = kcAdd) :
    (Entry.keychain env st req).Bounded A sha256 ↔
      st.Full ∨ 0 ≤ req.dataLen ∧ req.dataLen ≤ 512 := by
  have hann : (Entry.keychain env st req).announced = some (req.dataLen, 512) := if_pos hop
  have hhandle := handleKcRequest_add A env st hop
  rw [bounded_iff_of_eq (transfers_add hop) hann]
  by_cases hfull : kcMaxItems ≤ st.items.count
  · rw [if_pos hfull]
    refine iff_of_true ⟨List.forall_mem_nil _, fun _ ↦ ?_⟩ (Or.inl hfull)
    exact ⟨_, _, hhandle.trans (kcAddCase_full hfull), by decide⟩
  · rw [if_neg hfull, or_iff_right (show ¬ st.Full from hfull)]
    by_cases hlen : 0 ≤ req.dataLen ∧ req.dataLen ≤ 512
    · refine iff_of_true ⟨?_, fun hbad ↦ absurd hlen hbad⟩ hlen
      split
      · exact List.forall_mem_singleton.2 ((kcTransfer_inBounds_iff _).2 hlen)
      · exact List.forall_mem_nil _
    · refine iff_of_false ?_ hlen
      rintro ⟨hin, herr⟩
      cases hctx : env.ctxNew with
      | true =>
        rw [hctx, if_pos rfl, List.forall_mem_singleton, kcTransfer_inBounds_iff] at hin
        exact hlen hin
      | false =>
        obtain ⟨st', resp, h, hstatus⟩ := herr hlen
        obtain rfl := kcAddCase_resp hfull (hhandle.symm.trans h)
        exact hstatus rfl

/-- **A get** is bounded if the stored length fits, or nothing is decrypted. -/
theorem bounded_get_iff {env : Keychain.Env} {st : Store} {req : KeychainRequest}
    (hop : req.op = kcGet) :
    (Entry.keychain env st req).Bounded A sha256 ↔ (env.ctxNew = true → ∀ it,
      st.lookup req.key = some it → 0 ≤ it.encLen ∧ it.encLen ≤ 512) := by
  have hann : (Entry.keychain env st req).announced = none := if_neg (by rw [hop]; decide)
  rw [bounded_iff_of_none (transfers_get hop) hann]
  cases hlook : st.lookup req.key with
  | none => exact iff_of_true (List.forall_mem_nil _) (by rintro - it ⟨⟩)
  | some it =>
    simp only [Option.elim_some, Option.some.injEq, forall_eq']
    cases hctx : env.ctxNew with
    | true =>
      rw [if_pos rfl, List.forall_mem_singleton, kcTransfer_inBounds_iff]
      exact ⟨fun h _ ↦ h, fun h ↦ h rfl⟩
    | false => exact iff_of_true (List.forall_mem_nil _) (by rintro ⟨⟩)

theorem bounded_keychain_iff (env : Keychain.Env) (st : Store) (req : KeychainRequest) :
    (Entry.keychain env st req).Bounded A sha256 ↔ (Entry.keychain env st req).InRange := by
  by_cases hadd : req.op = kcAdd
  · have hget : req.op ≠ kcGet := by
      rw [hadd]
      decide
    rw [bounded_add_iff hadd]
    exact ⟨fun h ↦ ⟨fun _ ↦ h, fun hop ↦ absurd hop hget⟩, fun h ↦ h.1 hadd⟩
  · by_cases hget : req.op = kcGet
    · rw [bounded_get_iff hget]
      exact ⟨fun h ↦ ⟨fun hop ↦ absurd hop hadd, fun _ ↦ h⟩, fun h ↦ h.2 hget⟩
    · have hts : (Entry.keychain env st req).transfers = [] := by
        rw [Entry.transfers, kcTransfers]
        split <;> simp_all
      exact iff_of_true (bounded_of_nil hts (if_neg hadd))
        ⟨fun hop ↦ absurd hop hadd, fun hop ↦ absurd hop hget⟩

/-! ### All entry points -/

/-- **The exact condition.** For every request and message, and every state of the daemon it
reaches, the bytes processed stay inside their buffers and a length out of range is answered
with an error exactly if the lengths that are used are in range. -/
theorem bounded_iff (A : Gcm) (sha256 : Bytes → Buf 32) (e : Entry) :
    e.Bounded A sha256 ↔ e.InRange := by
  cases e with
  | keychain env st req => exact bounded_keychain_iff env st req
  | enclave env keys req => exact bounded_enclave_iff req
  | receive buflen topic buf msg => exact bounded_receive_iff topic buf msg
  | receiveAny buflen topicOut buf msg => exact bounded_receiveAny_iff topicOut buf msg

/-! ### The handlers are stuck exactly at such transfers -/

/-- `handle_kc_request` leaves a buffer exactly at a transfer out of bounds, or in a listing. -/
theorem handleKcRequest_eq_none_iff {env : Keychain.Env} {st : Store} {req : KeychainRequest}
    (hlist : req.op ≠ kcList) :
    handleKcRequest A env st req = none ↔
      ∃ t ∈ (Entry.keychain env st req).transfers, ¬ t.InBounds := by
  have hctx : ∀ b : Bool, b = false ∨ b = true := by decide
  by_cases hadd : req.op = kcAdd
  · rw [handleKcRequest_add A env st hadd, transfers_add hadd]
    by_cases hfull : kcMaxItems ≤ st.items.count
    · rw [kcAddCase_full hfull, if_pos hfull]
      simp
    · rw [kcAddCase_eq_none_iff hfull, if_neg hfull]
      rcases hctx env.ctxNew with hno | hyes
      · simp [hno]
      · simp [hyes, kcTransfer_inBounds_iff]
  · by_cases hget : req.op = kcGet
    · rw [handleKcRequest_get A env st hget, transfers_get hget, kcGetCase_eq]
      cases st.lookup req.key with
      | none => simp
      | some it =>
        rw [Option.elim_some, Option.elim_some, Option.map_eq_none_iff, openItem_eq_none_iff]
        rcases hctx env.ctxNew with hno | hyes
        · simp [hno]
        · simp [hyes, kcTransfer_inBounds_iff]
    · have hts : (Entry.keychain env st req).transfers = [] := by
        rw [Entry.transfers, kcTransfers]
        split <;> simp_all
      rw [hts, handleKcRequest]
      split <;> simp_all

/-- `handle_request` of the enclave leaves a buffer exactly at a transfer out of bounds. -/
theorem handleRequest_eq_none_iff {env : Enclave.Env} {keys : Keys} (req : Option EnclaveRequest) :
    handleRequest A sha256 env keys req = none ↔
      ∃ t ∈ (Entry.enclave env keys req).transfers, ¬ t.InBounds := by
  cases req with
  | none => simp [handleRequest, Entry.transfers, enclaveTransfers]
  | some req =>
    by_cases hcipher : req.op = EnclaveOp.encrypt ∨ req.op = EnclaveOp.decrypt
    · obtain ⟨op, hhandle, -⟩ := exists_withKey A sha256 env keys hcipher
      rw [hhandle, transfers_cipher hcipher]
      rcases withKey_cases env keys req op with ⟨hfind, heq⟩ | ⟨i, k, hfind, heq⟩
      · simp [heq, hfind]
      · rw [heq, hfind]
        rcases Bool.eq_false_or_eq_true env.ctxNew with hctx | hctx
        · simp [hctx, cipherTransfer_inBounds_iff]
        · simp [hctx]
    · by_cases hhash : req.op = EnclaveOp.hash
      · have hts : (Entry.enclave env keys (some req)).transfers =
            [⟨(req.dataLen : ℤ), [maxDataSize]⟩] := by
          simp only [Entry.transfers, enclaveTransfers, hhash]
        simp [hts, handleRequest, hhash, Transfer.InBounds]
      · have hts : (Entry.enclave env keys (some req)).transfers = [] := by
          rw [Entry.transfers, enclaveTransfers]
          split <;> simp_all
        rw [hts, handleRequest]
        split <;> simp_all

/-! ### A negative length -/

/-- The message of 4164 bytes of value 255: its `data_len` is -1. -/
def allOnes : IpcMessage := ⟨List.replicate 4164 255, List.length_replicate⟩

theorem dataLen_allOnes : allOnes.dataLen = -1 := by decide +kernel

/-- It makes `ipc_receive_any` copy -1 bytes, whatever the caller's buffer. -/
theorem not_bounded_allOnes :
    ¬ (Entry.receiveAny 512 (.zero 64) (.zero 512) (some allOnes)).Bounded Gcm.transparent
      fun _ ↦ .zero 32 := by
  rw [bounded_receiveAny_iff]
  intro h
  have hrange := h allOnes rfl
  rw [dataLen_allOnes] at hrange
  exact absurd hrange.1 (by decide)

end JuliusOS.UntrustedLengths
