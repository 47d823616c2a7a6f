import JuliusOS.Keychain.Daemon
import JuliusOS.Foundations.Machine
import Mathlib.Tactic.Set

/-!
# The keychain is a map

What clients see of the keychain is a map from (service, account) to data: an add that
succeeds sets a key, a delete clears it, a get reads it. `latest` is that map as a function
of the *history* of requests and responses, and this file shows that the packed table of
encrypted items implements it, in every state a run of requests can reach.

The simulation is `Represents`: the table's map of items (`PackedTable.lookup`) has an item
for exactly the keys the abstract map has, and the item opens to the abstract data. One
lemma per request says what the request does to the lookup, `represents_step` combines
them, and `represents_run` carries the simulation along a run.
-/

open CString StructLayout

namespace JuliusOS.Keychain

/-- The (service, account) pair of an item. -/
abbrev Key := Bytes × Bytes

/-- The bytes an add stores. -/
def KeychainRequest.plain (req : KeychainRequest) : Bytes := req.data.take req.dataLen.toNat

/-- The requests of a client that terminates the names and announces 1 to 512 bytes of data
when it adds. -/
structure KeychainRequest.Valid (req : KeychainRequest) : Prop where
  /-- An add, a get or a delete. -/
  op : req.op = kcAdd ∨ req.op = kcGet ∨ req.op = kcDelete
  /-- The names are terminated inside their fields. -/
  terminated : req.Terminated
  /-- An add has some data, and no more than fit. -/
  dataLen : req.op = kcAdd → 1 ≤ req.dataLen ∧ req.dataLen ≤ 512

/-! ### The abstract map -/

/-- The requests of a run with the responses they got. -/
abbrev History := List (KeychainRequest × KeychainResponse)

/-- What one request does to the value of `k`: an add of `k` that answered status 0 sets it, a
delete of `k` clears it, everything else leaves it. -/
def latestStep (k : Key) (v : Option Bytes) (e : KeychainRequest × KeychainResponse) :
    Option Bytes :=
  if e.1.key = k then
    if e.1.op = kcAdd ∧ e.2.status = 0 then some e.1.plain
    else if e.1.op = kcDelete then none
    else v
  else v

/-- The value of `k` after a history: the data of the latest add of `k` that answered status
0, unless a delete of `k` came after it. -/
def latest (k : Key) (hist : History) : Option Bytes := hist.foldl (latestStep k) none

/-- A response carries a value: status 0 with exactly its bytes, and status -1 for none. -/
def Answers (resp : KeychainResponse) : Option Bytes → Prop
  | some v => resp.status = 0 ∧ resp.dataLen = v.length ∧ resp.data.bytes.take v.length = v
  | none => resp.status = -1

/-! ### Names and keys -/

variable {A : Gcm} {env : Env} {st st' : Store} {req : KeychainRequest}
  {resp : KeychainResponse}

/-- `kc_find` looks the key up. -/
theorem kcFind_eq (items : PackedTable KeychainItem kcMaxItems) (svc acc : Bytes) :
    kcFind items svc acc = items.find? fun it ↦ it.key = (cstr svc, cstr acc) := by
  rw [kcFind]
  congr 1
  funext it
  simp [strcmpEq, KeychainItem.key, Prod.ext_iff, Bool.decide_and, beq_eq_decide]

theorem kcFind_req (items : PackedTable KeychainItem kcMaxItems) (req : KeychainRequest) :
    kcFind items req.service req.account = items.find? fun it ↦ it.key = req.key :=
  kcFind_eq items _ _

/-- A slot's name fields are terminated. -/
def NamesTerminated (it : KeychainItem) : Prop :=
  LastZero it.service.bytes ∧ LastZero it.account.bytes

theorem namesTerminated_zero : NamesTerminated .zero :=
  ⟨lastZero_replicate (by decide), lastZero_replicate (by decide)⟩

theorem NamesTerminated.nameItem {it : KeychainItem} (h : NamesTerminated it) :
    NamesTerminated (nameItem env req it) :=
  ⟨lastZero_strncpy it.service.length_bytes h.1, lastZero_strncpy it.account.length_bytes h.2⟩

/-- A terminated name is at most 63 bytes long. -/
theorem length_cstr_name_le {i : ℕ} (h : (0 : UInt8) ∈ req.field i)
    (hlen : (req.field i).length = 64) : (cstr (req.memFrom i)).length ≤ 63 := by
  obtain ⟨rest, hrest⟩ := req.memFrom_eq i
  have hlt := length_cstr_lt_of_mem h
  rw [hrest, cstr_append_of_mem h]
  omega

theorem length_field_service (req : KeychainRequest) : (req.field 1).length = 64 :=
  Bytes.length_slice (by rw [req.length_bytes]; decide)

theorem length_field_account (req : KeychainRequest) : (req.field 2).length = 64 :=
  Bytes.length_slice (by rw [req.length_bytes]; decide)

/-- **The slot that an add names has the request's key**, whatever was in the slot. -/
theorem key_nameItem {it : KeychainItem} (ht : req.Terminated) (h : NamesTerminated it) :
    (nameItem env req it).key = req.key := by
  have hservice := length_cstr_name_le ht.1 (length_field_service req)
  have haccount := length_cstr_name_le ht.2 (length_field_account req)
  exact Prod.ext (cstr_strncpy_of_le it.service.length_bytes h.1 hservice)
    (cstr_strncpy_of_le it.account.length_bytes h.2 haccount)

/-! ### What an item opens to -/

/-- The response to a get that finds `v`. -/
def KeychainResponse.found (v : Bytes) (h : v.length ≤ 512) : KeychainResponse :=
  { KeychainResponse.zero with
    data := (Buf.zero 512).write 0 v (by omega)
    dataLen := v.length }

theorem answers_found {v : Bytes} (h : v.length ≤ 512) : Answers (.found v h) (some v) :=
  ⟨rfl, rfl, Buf.take_write_zero _ v (by omega)⟩

/-- The item's ciphertext, as far as `enc_len` says. -/
def KeychainItem.cipher (it : KeychainItem) : Bytes := it.encrypted.bytes.take it.encLen.toNat

/-- The item holds `v`: `enc_len` is its length, the ciphertext decrypts to it and the tag
matches. -/
structure Seals (A : Gcm) (kcKey : Bytes) (it : KeychainItem) (v : Bytes) : Prop where
  /-- `v` fits. -/
  le : v.length ≤ 512
  /-- `enc_len` is its length. -/
  encLen : it.encLen = v.length
  /-- The ciphertext decrypts to it. -/
  decrypt : A.decrypt kcKey (it.iv.bytes.take Gcm.ivLength) it.cipher = v
  /-- The tag is the ciphertext's. -/
  tag : A.mac kcKey (it.iv.bytes.take Gcm.ivLength) it.cipher = it.tag

/-- **A freshly encrypted item holds its data.** -/
theorem seals_encryptItem (hctx : env.ctxNew = true) {kcKey plain : Bytes}
    (h : plain.length ≤ 512) (it : KeychainItem) :
    Seals A kcKey (encryptItem A env kcKey plain h it) plain := by
  set cipher := A.encrypt kcKey (env.iv.bytes.take Gcm.ivLength) plain with hcipher
  have hlen : cipher.length = plain.length := A.length_encrypt _ _ _
  have hsealed : kcEncrypt A env kcKey plain it.tag =
      (cipher, A.mac kcKey (env.iv.bytes.take Gcm.ivLength) cipher, (cipher.length : ℤ)) :=
    if_pos hctx
  have hstored : (encryptItem A env kcKey plain h it).cipher = cipher := by
    simp only [KeychainItem.cipher, encryptItem, hsealed, Int.toNat_natCast]
    exact Buf.take_write_zero _ _ _
  refine ⟨h, ?_, ?_, ?_⟩
  · simp only [encryptItem, hsealed, hlen]
  · rw [hstored, hcipher]
    exact A.decrypt_encrypt _ _ _
  · rw [hstored]
    simp only [encryptItem, hsealed]

/-- The answer to a get of an item that holds `v`. -/
theorem openItem_of_seals (hctx : env.ctxNew = true) {kcKey v : Bytes} {it : KeychainItem}
    (h : Seals A kcKey it v) :
    openItem A env kcKey it =
      some { KeychainResponse.found v h.le with status := if 0 < v.length then 0 else -1 } := by
  have hrange : env.ctxNew = false ∨ 0 ≤ it.encLen ∧ it.encLen ≤ 512 := by
    have := h.le
    have := h.encLen
    omega
  have hopened : kcDecrypt A env kcKey (it.encrypted.bytes.take it.encLen.toNat) it.iv it.tag =
      (v, (v.length : ℤ)) := by
    rw [kcDecrypt, if_pos hctx, show it.encrypted.bytes.take it.encLen.toNat = it.cipher from rfl]
    simp only [h.decrypt, if_pos h.tag]
  rw [openItem, if_pos hrange]
  simp only [hopened, KeychainResponse.found, Int.natCast_pos]
  rfl

/-- The item opens to `v`, in every environment that has a cipher context. -/
def Opens (A : Gcm) (kcKey : Bytes) (it : KeychainItem) (v : Bytes) : Prop :=
  ∃ h, ∀ env : Env, env.ctxNew = true → openItem A env kcKey it = some (.found v h)

/-- An item that holds some data opens to it. -/
theorem Seals.opens {kcKey v : Bytes} {it : KeychainItem} (h : Seals A kcKey it v)
    (hpos : 0 < v.length) : Opens A kcKey it v := by
  refine ⟨h.le, fun env hctx ↦ (openItem_of_seals hctx h).trans ?_⟩
  rw [if_pos hpos]
  rfl

/-! ### What each request does to the table -/

theorem KeychainRequest.length_data (req : KeychainRequest) : req.data.length = 512 :=
  Bytes.length_slice (by rw [req.length_bytes]; decide)

theorem KeychainRequest.length_plain_le (req : KeychainRequest) : req.plain.length ≤ 512 := by
  rw [plain, List.length_take, req.length_data]
  omega

theorem KeychainRequest.length_plain_pos (h : 1 ≤ req.dataLen) : 0 < req.plain.length := by
  rw [plain, List.length_take, req.length_data]
  omega

/-- The invariant of the table: names are terminated in every slot, used or stale, and the
keys of the items in use are distinct. -/
structure Store.Inv (st : Store) : Prop where
  /-- Names are terminated in every slot. -/
  terminated : st.items.AllSlots NamesTerminated
  /-- No two items in use have the same key. -/
  keysNodup : st.items.KeysNodup KeychainItem.key

theorem Store.inv_init (kcKey : Bytes) : (Store.init kcKey).Inv :=
  ⟨PackedTable.allSlots_empty namesTerminated_zero, PackedTable.keysNodup_empty _⟩

/-- The item stored under a key. -/
def Store.lookup (st : Store) (k : Key) : Option KeychainItem :=
  st.items.lookup KeychainItem.key k

@[simp]
theorem kcSave_items (env : Env) (st : Store) : (kcSave env st).items = st.items := by
  rw [kcSave]
  split <;> rfl

@[simp]
theorem kcSave_kcKey (env : Env) (st : Store) : (kcSave env st).kcKey = st.kcKey := by
  rw [kcSave]
  split <;> rfl

/-- The encryption of an add's data into a slot. -/
def encryptReq (A : Gcm) (env : Env) (kcKey : Bytes) (req : KeychainRequest) :
    KeychainItem → KeychainItem :=
  encryptItem A env kcKey req.plain req.length_plain_le

/-- Encryption does not touch the names. -/
theorem NamesTerminated.encryptReq {kcKey : Bytes} {it : KeychainItem} (h : NamesTerminated it) :
    NamesTerminated (encryptReq A env kcKey req it) := h

/-- What an add of a new key does: the stale slot behind the table is named, encrypted into
and taken into use. -/
theorem kcAddCase_new (hlen : env.ctxNew = false ∨ 0 ≤ req.dataLen ∧ req.dataLen ≤ 512)
    (hroom : st.items.count < kcMaxItems)
    (hfind : st.lookup req.key = none) :
    kcAddCase A env st req = some (kcSave env { st with
      items := st.items.append hroom (encryptReq A env st.kcKey req ∘ nameItem env req) },
      .zero) := by
  have hnone := PackedTable.find?_eq_none_iff.2 hfind
  rw [kcAddCase, dif_neg (by omega), if_pos hlen, kcFind_req, hnone]
  simp only [PackedTable.modify_append]
  rfl

/-- What an add of a stored key does: its item is encrypted into again. -/
theorem kcAddCase_stored (hlen : env.ctxNew = false ∨ 0 ≤ req.dataLen ∧ req.dataLen ≤ 512)
    (hroom : st.items.count < kcMaxItems) {i : ℕ}
    (hfind : (st.items.find? fun it ↦ it.key = req.key) = some i) :
    kcAddCase A env st req = some (kcSave env { st with
      items := st.items.modify i (encryptReq A env st.kcKey req) }, .zero) := by
  rw [kcAddCase, dif_neg (by omega), if_pos hlen, kcFind_req, hfind]
  rfl

/-- An add to a table with room leaves the request's buffer exactly if it encrypts a length that
does not fit. -/
theorem kcAddCase_eq_none_iff (hroom : ¬ kcMaxItems ≤ st.items.count) :
    kcAddCase A env st req = none ↔
      ¬ (env.ctxNew = false ∨ 0 ≤ req.dataLen ∧ req.dataLen ≤ 512) := by
  constructor
  · intro hnone hlen
    have hlt : st.items.count < kcMaxItems := Nat.lt_of_not_le hroom
    cases hfind : st.items.find? fun it ↦ it.key = req.key with
    | none =>
      cases (kcAddCase_new hlen hlt (PackedTable.find?_eq_none_iff.1 hfind)).symm.trans hnone
    | some i => cases (kcAddCase_stored hlen hlt hfind).symm.trans hnone
  · intro hlen
    rw [kcAddCase, dif_neg hroom, if_neg hlen]

theorem openItem_eq_none_iff {kcKey : Bytes} {it : KeychainItem} :
    openItem A env kcKey it = none ↔
      ¬ (env.ctxNew = false ∨ 0 ≤ it.encLen ∧ it.encLen ≤ 512) := by
  rw [openItem]
  split <;> simp_all

/-- An add to a table with room answers status 0, encrypted or not. -/
theorem kcAddCase_resp (hroom : ¬ kcMaxItems ≤ st.items.count)
    (h : kcAddCase A env st req = some (st', resp)) : resp = .zero := by
  have hlt : st.items.count < kcMaxItems := Nat.lt_of_not_le hroom
  by_cases hlen : env.ctxNew = false ∨ 0 ≤ req.dataLen ∧ req.dataLen ≤ 512
  · cases hfind : st.items.find? fun it ↦ it.key = req.key with
    | none =>
      rw [kcAddCase_new hlen hlt (PackedTable.find?_eq_none_iff.1 hfind)] at h
      exact (Prod.ext_iff.1 (Option.some.inj h)).2.symm
    | some i =>
      rw [kcAddCase_stored hlen hlt hfind] at h
      exact (Prod.ext_iff.1 (Option.some.inj h)).2.symm
  · rw [(kcAddCase_eq_none_iff hroom).2 hlen] at h
    cases h

/-- **An add to a table with room** answers status 0; it encrypts the request's data into the
key's item, and changes no other key's item. -/
theorem kcAddCase_spec (A : Gcm) (hnt : st.items.AllSlots NamesTerminated) (ht : req.Terminated)
    (hlen : env.ctxNew = false ∨ 0 ≤ req.dataLen ∧ req.dataLen ≤ 512)
    (hroom : st.items.count < kcMaxItems) :
    ∃ st' it, kcAddCase A env st req = some (st', .zero) ∧ st'.kcKey = st.kcKey ∧
      (st.items.KeysNodup KeychainItem.key → st'.Inv) ∧
      ∀ k, st'.lookup k =
        if k = req.key then some (encryptReq A env st.kcKey req it) else st.lookup k := by
  have hkey : ∀ it, (encryptReq A env st.kcKey req it).key = it.key := fun _ ↦ rfl
  cases hfind : st.items.find? fun it ↦ it.key = req.key with
  | none =>
    have hfresh : st.lookup req.key = none := PackedTable.find?_eq_none_iff.1 hfind
    have hnamed : ((encryptReq A env st.kcKey req ∘ nameItem env req)
        (st.items.nextSlot hroom)).key = req.key :=
      (hkey _).trans (key_nameItem ht (hnt.nextSlot hroom))
    refine ⟨_, nameItem env req (st.items.nextSlot hroom), kcAddCase_new hlen hroom hfresh,
      kcSave_kcKey _ _, fun hnd ↦ ⟨?_, ?_⟩, fun k ↦ ?_⟩
    · rw [kcSave_items]
      exact hnt.append fun _ h ↦ h.nameItem.encryptReq
    · rw [kcSave_items]
      exact hnd.append hfresh hnamed
    · rw [Store.lookup, kcSave_items]
      exact PackedTable.lookup_append hfresh hnamed k
  | some i =>
    obtain ⟨-, it, -, -, -, hlook⟩ := PackedTable.exists_lookup_of_find? hfind
    refine ⟨_, it, kcAddCase_stored hlen hroom hfind, kcSave_kcKey _ _, fun hnd ↦ ⟨?_, ?_⟩,
      fun k ↦ ?_⟩
    · rw [kcSave_items]
      exact hnt.modify fun _ h ↦ h.encryptReq
    · rw [kcSave_items]
      exact hnd.modify hkey
    · rw [Store.lookup, kcSave_items]
      exact PackedTable.lookup_modify hfind hlook hkey k

/-- The table is full. -/
def Store.Full (st : Store) : Prop := kcMaxItems ≤ st.items.count

/-- An add to a full table answers -1 and does nothing, even if its key is stored. -/
theorem kcAddCase_full (hfull : kcMaxItems ≤ st.items.count) :
    kcAddCase A env st req = some (st, KeychainResponse.zero.fail "Keychain full") := by
  rw [kcAddCase, dif_pos hfull]

/-- **A get** answers with the item that the lookup returns. -/
theorem kcGetCase_eq :
    kcGetCase A env st req = (st.lookup req.key).elim
      (some (KeychainResponse.zero.fail "Item not found")) (openItem A env st.kcKey) := by
  rw [kcGetCase]
  split
  next h =>
    rw [kcFind_req] at h
    rw [Store.lookup, PackedTable.find?_eq_none_iff.1 h]
    rfl
  next i h =>
    rw [kcFind_req] at h
    obtain ⟨pre, it, post, hlive, rfl, hlook⟩ := PackedTable.exists_lookup_of_find? h
    rw [Store.lookup, hlook]
    simp [hlive]

/-- A delete always answers status 0. -/
theorem kcDeleteLoop_resp (env : Env) (st : Store) (req : KeychainRequest) :
    (kcDeleteLoop env st req .zero).2 = .zero := by
  rw [kcDeleteLoop]
  split <;> rfl

/-- **A delete** removes the key's item, if there is one, and changes no other key's. -/
theorem kcDeleteLoop_spec (env : Env) (hinv : st.Inv) (req : KeychainRequest) :
    (kcDeleteLoop env st req resp).1.Inv ∧ (kcDeleteLoop env st req resp).1.kcKey = st.kcKey ∧
      ∀ k, (kcDeleteLoop env st req resp).1.lookup k =
        if k = req.key then none else st.lookup k := by
  rw [kcDeleteLoop]
  split
  next h =>
    rw [kcFind_req] at h
    refine ⟨hinv, rfl, fun k ↦ ?_⟩
    split
    next hk => rw [hk, Store.lookup, PackedTable.find?_eq_none_iff.1 h]
    next => rfl
  next i h =>
    have hi := PackedTable.lt_count_of_find?_eq_some h
    rw [kcFind_req] at h
    refine ⟨⟨?_, ?_⟩, kcSave_kcKey _ _, fun k ↦ ?_⟩
    · rw [kcSave_items]
      exact hinv.terminated.eraseAt hi
    · rw [kcSave_items]
      exact hinv.keysNodup.eraseAt hi
    · rw [Store.lookup, kcSave_items]
      exact PackedTable.lookup_eraseAt hinv.keysNodup h k

theorem kcDeleteCase_eq (env : Env) (st : Store) (req : KeychainRequest) :
    kcDeleteCase env st req = ((kcDeleteLoop env st req .zero).1, .zero) := by
  rw [kcDeleteCase]
  simp only [kcDeleteLoop_resp]
  rfl

theorem handleKcRequest_add (A : Gcm) (env : Env) (st : Store) (hop : req.op = kcAdd) :
    handleKcRequest A env st req = kcAddCase A env st req := by
  rw [handleKcRequest, hop]
  rfl

theorem handleKcRequest_get (A : Gcm) (env : Env) (st : Store) (hop : req.op = kcGet) :
    handleKcRequest A env st req = (kcGetCase A env st req).map fun resp ↦ (st, resp) := by
  rw [handleKcRequest, hop]
  rfl

theorem handleKcRequest_delete (A : Gcm) (env : Env) (st : Store) (hop : req.op = kcDelete) :
    handleKcRequest A env st req = some ((kcDeleteLoop env st req .zero).1, .zero) := by
  rw [handleKcRequest, hop, ← kcDeleteCase_eq]
  rfl

/-! ### The simulation -/

/-- What a lookup returns agrees with a value: there is an item exactly if there is a value,
and the item opens to it. -/
def Holds (A : Gcm) (kcKey : Bytes) : Option KeychainItem → Option Bytes → Prop
  | none, none => True
  | some it, some v => Opens A kcKey it v
  | _, _ => False

/-- The table implements the map `m`. -/
def Represents (A : Gcm) (st : Store) (m : Key → Option Bytes) : Prop :=
  ∀ k, Holds A st.kcKey (st.lookup k) (m k)

theorem represents_init (A : Gcm) (kcKey : Bytes) :
    Represents A (Store.init kcKey) fun k ↦ latest k [] :=
  fun _ ↦ trivial

/-- A point update of the lookup is one of the map. -/
theorem Represents.update {m m' : Key → Option Bytes} (h : Represents A st m) {k₀ : Key}
    (hkey : st'.kcKey = st.kcKey) (hk₀ : Holds A st.kcKey (st'.lookup k₀) (m' k₀))
    (hother : ∀ k, k ≠ k₀ → st'.lookup k = st.lookup k ∧ m' k = m k) : Represents A st' m' := by
  intro k
  rw [hkey]
  rcases eq_or_ne k k₀ with rfl | hk
  · exact hk₀
  · rw [(hother k hk).1, (hother k hk).2]
    exact h k

/-- **A get answers what the map says.** -/
theorem Represents.get {m : Key → Option Bytes} (h : Represents A st m)
    (hctx : env.ctxNew = true) (req : KeychainRequest) :
    ∃ resp, kcGetCase A env st req = some resp ∧ Answers resp (m req.key) := by
  have hk := h req.key
  rw [kcGetCase_eq]
  cases hlook : st.lookup req.key with
  | none =>
    cases hm : m req.key with
    | none => exact ⟨_, rfl, rfl⟩
    | some v => simp [Holds, hlook, hm] at hk
  | some it =>
    cases hm : m req.key with
    | none => simp [Holds, hlook, hm] at hk
    | some v =>
      rw [hlook, hm] at hk
      obtain ⟨h, hopen⟩ := hk
      exact ⟨_, hopen env hctx, answers_found h⟩

/-- The daemon as a machine. Its state is the store and the history. It starts on the table
that `kc_load` finds: the empty one, or one that an earlier daemon saved, in which names are
terminated. -/
def daemon (A : Gcm) : Machine (Store × History) (Env × KeychainRequest) where
  Init s := s.1.items.AllSlots NamesTerminated ∧ s.2 = []
  step s e := (handleKcRequest A e.1 s.1 e.2).map fun out ↦ (out.1, s.2 ++ [(e.2, out.2)])

/-- A daemon may start on an empty table. -/
theorem reachable_init (A : Gcm) (kcKey : Bytes) : (daemon A).Reachable (Store.init kcKey, []) :=
  .of_init ⟨(Store.inv_init kcKey).terminated, rfl⟩

theorem count_init_lt (kcKey : Bytes) : (Store.init kcKey).items.count < kcMaxItems :=
  Nat.zero_lt_succ 1023

/-- **Names stay terminated**, whatever the requests: every request writes names with
`strncpy` or copies whole slots. -/
theorem namesTerminated_step (hnt : st.items.AllSlots NamesTerminated)
    (h : handleKcRequest A env st req = some (st', resp)) :
    st'.items.AllSlots NamesTerminated := by
  rw [handleKcRequest] at h
  split at h
  · rcases Nat.lt_or_ge st.items.count kcMaxItems with hroom | hfull
    · by_cases hlen : env.ctxNew = false ∨ 0 ≤ req.dataLen ∧ req.dataLen ≤ 512
      · cases hfind : st.items.find? fun it ↦ it.key = req.key with
        | none =>
          rw [kcAddCase_new hlen hroom (PackedTable.find?_eq_none_iff.1 hfind)] at h
          obtain ⟨rfl, -⟩ := Prod.ext_iff.1 (Option.some.inj h)
          rw [kcSave_items]
          exact hnt.append fun _ hit ↦ hit.nameItem.encryptReq
        | some i =>
          rw [kcAddCase_stored hlen hroom hfind] at h
          obtain ⟨rfl, -⟩ := Prod.ext_iff.1 (Option.some.inj h)
          rw [kcSave_items]
          exact hnt.modify fun _ hit ↦ hit.encryptReq
      · rw [(kcAddCase_eq_none_iff (by omega)).2 hlen] at h
        cases h
    · rw [kcAddCase_full hfull] at h
      obtain ⟨rfl, -⟩ := Prod.ext_iff.1 (Option.some.inj h)
      exact hnt
  · obtain ⟨_, -, hout⟩ := Option.map_eq_some_iff.1 h
    obtain ⟨rfl, -⟩ := Prod.ext_iff.1 hout
    exact hnt
  · rw [kcDeleteCase_eq] at h
    obtain ⟨rfl, -⟩ := Prod.ext_iff.1 (Option.some.inj h)
    rw [kcDeleteLoop]
    split
    · exact hnt
    next i hfind =>
      rw [kcSave_items]
      exact hnt.eraseAt (PackedTable.lt_count_of_find?_eq_some hfind)
  · obtain ⟨_, -, hout⟩ := Option.map_eq_some_iff.1 h
    obtain ⟨rfl, -⟩ := Prod.ext_iff.1 hout
    exact hnt
  · obtain ⟨rfl, -⟩ := Prod.ext_iff.1 (Option.some.inj h)
    exact hnt

/-- In every state of the daemon, names are terminated in every slot. -/
theorem namesTerminated_of_reachable {hist : History} (h : (daemon A).Reachable (st, hist)) :
    st.items.AllSlots NamesTerminated := by
  refine Machine.Reachable.induction (M := daemon A)
    (I := fun s ↦ s.1.items.AllSlots NamesTerminated) (fun _ hinit ↦ hinit.1)
    (fun s e s' hs hstep ↦ ?_) h
  obtain ⟨_, hreq, rfl⟩ := Option.map_eq_some_iff.1 hstep
  exact namesTerminated_step hs hreq

/-- The invariant of a run: the table is well formed and implements the map of the history. -/
def Faithful (A : Gcm) (s : Store × History) : Prop :=
  s.1.Inv ∧ Represents A s.1 fun k ↦ latest k s.2

theorem latest_concat (k : Key) (hist : History) (e : KeychainRequest × KeychainResponse) :
    latest k (hist ++ [e]) = latestStep k (latest k hist) e := by
  rw [latest, List.foldl_append]
  rfl

/-- A request changes the value of its own key only. -/
theorem latestStep_of_ne {k : Key} {v : Option Bytes} (hk : k ≠ req.key) :
    latestStep k v (req, resp) = v := if_neg (Ne.symm hk)

/-- A request that was not carried out, and one that only reads, changes no value. -/
theorem Represents.concat {hist : History} (h : Represents A st fun k ↦ latest k hist)
    (hsame : ∀ k v, latestStep k v (req, resp) = v) :
    Represents A st fun k ↦ latest k (hist ++ [(req, resp)]) := by
  simpa only [latest_concat, hsame] using h

/-- **The step lemma.** A valid request that gets a cipher context is answered, the table implements
the new map, and no other key's item has changed. -/
theorem handleKcRequest_spec {hist : History} (hctx : env.ctxNew = true)
    (h : Faithful A (st, hist)) (hv : req.Valid) :
    ∃ st' resp, handleKcRequest A env st req = some (st', resp) ∧
      Faithful A (st', hist ++ [(req, resp)]) ∧ st'.kcKey = st.kcKey ∧
      ∀ k, k ≠ req.key → st'.lookup k = st.lookup k := by
  obtain ⟨hinv, hrep⟩ := h
  rcases hv.op with hop | hop | hop
  · rw [handleKcRequest_add A env st hop]
    rcases Nat.lt_or_ge st.items.count kcMaxItems with hroom | hfull
    · obtain ⟨hpos, hle⟩ := hv.dataLen hop
      obtain ⟨st', it, hadd, hkey, hinv', hlook⟩ :=
        kcAddCase_spec A hinv.terminated hv.terminated (Or.inr ⟨by omega, hle⟩) hroom
      have hother : ∀ k, k ≠ req.key → st'.lookup k = st.lookup k :=
        fun k hk ↦ (hlook k).trans (if_neg hk)
      refine ⟨st', _, hadd, ⟨hinv' hinv.keysNodup,
        hrep.update hkey ?_ fun k hk ↦ ⟨hother k hk, ?_⟩⟩, hkey, hother⟩
      · rw [latest_concat, latestStep, if_pos rfl, if_pos ⟨hop, rfl⟩, hlook, if_pos rfl]
        exact (seals_encryptItem hctx _ it).opens (KeychainRequest.length_plain_pos hpos)
      · rw [latest_concat, latestStep_of_ne hk]
    · refine ⟨st, _, kcAddCase_full hfull, ⟨hinv, hrep.concat fun k v ↦ ?_⟩, rfl, fun _ _ ↦ rfl⟩
      rw [latestStep, hop]
      simp [KeychainResponse.fail]
  · obtain ⟨resp, hget, -⟩ := hrep.get hctx req
    rw [handleKcRequest_get A env st hop, hget]
    refine ⟨st, resp, rfl, ⟨hinv, hrep.concat fun k v ↦ ?_⟩, rfl, fun _ _ ↦ rfl⟩
    rw [latestStep, hop]
    simp
  · obtain ⟨hinv', hkey, hlook⟩ := kcDeleteLoop_spec env hinv req
    have hother : ∀ k, k ≠ req.key → (kcDeleteLoop env st req .zero).1.lookup k = st.lookup k :=
      fun k hk ↦ (hlook k).trans (if_neg hk)
    rw [handleKcRequest_delete A env st hop]
    refine ⟨_, _, rfl,
      ⟨hinv', hrep.update hkey ?_ fun k hk ↦ ⟨hother k hk, ?_⟩⟩, hkey, hother⟩
    · rw [latest_concat, latestStep, if_pos rfl, hop, hlook, if_pos rfl]
      trivial
    · rw [latest_concat, latestStep_of_ne hk]

/-- A run of valid requests is never stuck, and it ends in a table that implements the map. -/
theorem exists_run_daemon (A : Gcm) (kcKey : Bytes) {es : List (Env × KeychainRequest)}
    (hvalid : ∀ e ∈ es, e.1.ctxNew = true ∧ e.2.Valid) :
    ∃ s, (daemon A).run (Store.init kcKey, []) es = some s ∧ Faithful A s := by
  refine Machine.exists_run (fun s e hs hv ↦ ?_) ⟨Store.inv_init kcKey, represents_init A kcKey⟩
    hvalid
  obtain ⟨st', resp, hstep, hfaithful, -⟩ := handleKcRequest_spec hv.1 hs hv.2
  exact ⟨_, congrArg (Option.map _) hstep, hfaithful⟩

/-- **The keychain is a map.** After any run of valid requests from the empty store, in which
the cipher calls succeed, the keys of the items in use are distinct and there are at most 1024 of
them, a get answers with the value of its key under the history, and a further request leaves
every other key's answer as it was. -/
theorem keychain_is_map (A : Gcm) (kcKey : Bytes) (es : List (Env × KeychainRequest))
    (hvalid : ∀ e ∈ es, e.1.ctxNew = true ∧ e.2.Valid) :
    ∃ st hist, (daemon A).run (Store.init kcKey, []) es = some (st, hist) ∧
      (st.items.live.map KeychainItem.key).Nodup ∧ st.items.count ≤ kcMaxItems ∧
      (∀ env : Env, env.ctxNew = true → ∀ get, get.Valid → get.op = kcGet → ∃ resp,
        handleKcRequest A env st get = some (st, resp) ∧ Answers resp (latest get.key hist)) ∧
      ∀ env : Env, env.ctxNew = true → ∀ req, req.Valid →
        ∃ st' resp, handleKcRequest A env st req = some (st', resp) ∧
          ∀ env' get, get.Valid → get.op = kcGet → get.key ≠ req.key →
            (handleKcRequest A env' st' get).map Prod.snd =
              (handleKcRequest A env' st get).map Prod.snd := by
  obtain ⟨⟨st, hist⟩, hrun, hfaithful⟩ := exists_run_daemon A kcKey hvalid
  refine ⟨st, hist, hrun, hfaithful.1.keysNodup, st.items.count_le,
    fun env hctx get _ hget ↦ ?_, fun env hctx req hv ↦ ?_⟩
  · obtain ⟨resp, hresp, hanswers⟩ := hfaithful.2.get hctx get
    refine ⟨resp, ?_, hanswers⟩
    rw [handleKcRequest, hget]
    exact congrArg (Option.map _) hresp
  · obtain ⟨st', resp, hstep, -, hkey, hother⟩ := handleKcRequest_spec hctx hfaithful hv
    refine ⟨st', resp, hstep, fun env' get _ hget hne ↦ ?_⟩
    rw [handleKcRequest, handleKcRequest, hget]
    simp only [kcGetCase_eq, hother get.key hne, hkey, Option.map_map]
    rfl

/-- An add of `x` under `a/b`. -/
def addLetter : KeychainRequest where
  bytes := Bytes.le 4 kcAdd ++ Bytes.ljust 64 0 (Bytes.ofAscii "a") ++
    Bytes.ljust 64 0 (Bytes.ofAscii "b") ++ Bytes.ljust 512 0 (Bytes.ofAscii "x") ++
    Bytes.le 4 1 ++ Bytes.ljust 128 0 []
  length_bytes := by simp [Bytes.ofAscii, sizeof, keychainRequestFields]; decide

theorem addLetter_valid : addLetter.Valid where
  op := by decide +kernel
  terminated := by constructor <;> decide +kernel
  dataLen := by decide +kernel

theorem keychain_is_map_addLetter :
    ∃ st hist, (daemon Gcm.transparent).run (Store.init [], [])
        [(⟨.zero _, 0, 0, true, true⟩, addLetter)] = some (st, hist) ∧
      ∀ env : Env, env.ctxNew = true → ∀ get, get.Valid → get.op = kcGet → ∃ resp,
        handleKcRequest Gcm.transparent env st get = some (st, resp) ∧
          Answers resp (latest get.key hist) := by
  obtain ⟨st, hist, hrun, -, -, hget, -⟩ := keychain_is_map Gcm.transparent []
    [(⟨.zero _, 0, 0, true, true⟩, addLetter)]
    fun _ he ↦ List.mem_singleton.1 he ▸ ⟨rfl, addLetter_valid⟩
  exact ⟨st, hist, hrun, hget⟩

end JuliusOS.Keychain
