import JuliusOS.Foundations.Listing
import JuliusOS.Keychain.Map

/-!
# When the keychain's status is truthful

A status of 0 should mean that the requested effect took place and any other status that it did
not. `Truthful` says so for each operation: an add has stored its data, and is refused only when
its key is absent and the table full or when there is no cipher context; a delete has removed an
item; a get carries the data of the item; a listing is whole; and an operation that the switch
does not know is not reported as done.

`handle_kc_request` keeps to this on some paths only, and `answeredTruly_iff` says which. It is
wrong about an update refused at a full table, an add reported as done without encryption, a get
of empty data, a listing that was cut, a delete of a missing key and every unknown operation.
The last two have one reason: the response is zeroed first, so a path that decides nothing
answers 0.
-/

open CString StructLayout

namespace JuliusOS.Keychain

variable {A : Gcm} {env : Env} {st st' : Store} {req : KeychainRequest}
  {resp : KeychainResponse}

/-! ### The effect of each operation -/

/-- The request's data was stored under its key, and no other key's item has changed. -/
def Added (A : Gcm) (st st' : Store) (req : KeychainRequest) : Prop :=
  (∃ it, st'.lookup req.key = some it ∧ Seals A st'.kcKey it req.plain) ∧
    ∀ k, k ≠ req.key → st'.lookup k = st.lookup k

/-- A refusal with a reason, which leaves the table as it was. -/
def Refused (env : Env) (st st' : Store) (req : KeychainRequest) : Prop :=
  st'.items = st.items ∧ (st.lookup req.key = none ∧ st.Full ∨ env.ctxNew = false)

/-- The response carries the data of the item under the key. -/
def Delivered (A : Gcm) (st : Store) (req : KeychainRequest) (resp : KeychainResponse) : Prop :=
  ∃ it v, st.lookup req.key = some it ∧ Seals A st.kcKey it v ∧ resp.dataLen = v.length ∧
    resp.data.bytes.take v.length = v

/-- There was an item under the key, and it is gone. -/
def Removed (st st' : Store) (req : KeychainRequest) : Prop :=
  ∃ i, (st.items.find? fun it ↦ it.key = req.key) = some i ∧
    st'.items.live = st.items.live.eraseIdx i

/-- The line of an item in a listing. -/
def KeychainItem.line (it : KeychainItem) : Bytes :=
  cstr it.service.bytes ++ Bytes.ofAscii "/" ++ cstr it.account.bytes ++ [10]

/-- The lines of all items. -/
def listing (its : List KeychainItem) : Bytes := its.flatMap KeychainItem.line

/-- The operations that `handle_kc_request` carries out. -/
def KeychainRequest.Known (req : KeychainRequest) : Prop :=
  req.op = kcAdd ∨ req.op = kcGet ∨ req.op = kcDelete ∨ req.op = kcList

/-- The status is 0 exactly if the requested effect took place, and a refusal is one that may
occur. -/
structure Truthful (A : Gcm) (env : Env) (st : Store) (req : KeychainRequest) (st' : Store)
    (resp : KeychainResponse) : Prop where
  /-- An add that is reported as done is done. -/
  added : req.op = kcAdd → resp.status = 0 → Added A st st' req
  /-- Any other add is refused for a reason. -/
  refused : req.op = kcAdd → resp.status ≠ 0 → Refused env st st' req
  /-- A get answers 0 exactly if it delivers the data. -/
  delivered : req.op = kcGet → (resp.status = 0 ↔ Delivered A st req resp)
  /-- A delete answers 0 exactly if it removed an item. -/
  removed : req.op = kcDelete → (resp.status = 0 ↔ Removed st st' req)
  /-- Otherwise it answers -1. -/
  notFound : req.op = kcDelete → resp.status ≠ 0 → resp.status = -1
  /-- A listing is reported as done exactly if it is whole. -/
  listed : req.op = kcList → (resp.status = 0 ↔ cstr resp.items.bytes = listing st.items.live)
  /-- Nothing else is reported as done. -/
  unknown : ¬ req.Known → resp.status ≠ 0

/-- The request is answered, and the status is truthful. -/
def AnsweredTruly (A : Gcm) (env : Env) (st : Store) (req : KeychainRequest) : Prop :=
  ∃ st' resp, handleKcRequest A env st req = some (st', resp) ∧ Truthful A env st req st' resp

/-- The requests whose status is truthful, in a given state and environment. -/
structure TruthfulCase (A : Gcm) (env : Env) (st : Store) (req : KeychainRequest) : Prop where
  /-- The operation is one of the four. -/
  known : req.Known
  /-- An add to a full table is of a new key, or cannot be encrypted anyway. -/
  addFull : req.op = kcAdd → st.Full → st.lookup req.key = none ∨ env.ctxNew = false
  /-- Any other add can be encrypted, and its length is one of the field's. -/
  addRoom : req.op = kcAdd → ¬ st.Full →
    env.ctxNew = true ∧ 0 ≤ req.dataLen ∧ req.dataLen ≤ 512
  /-- A get that can be decrypted is of an item with data, or with a wrong tag. -/
  get : req.op = kcGet → env.ctxNew = true → ∀ it, st.lookup req.key = some it →
    (0 ≤ it.encLen ∧ it.encLen ≤ 512) ∧ ¬ Seals A st.kcKey it []
  /-- A delete is of a stored key. -/
  delete : req.op = kcDelete → st.lookup req.key ≠ none
  /-- A listing fits. -/
  list : req.op = kcList → (listing st.items.live).length < 4096

/-! ### What the status has to say for each operation -/

theorem truthful_add_iff (hop : req.op = kcAdd) :
    Truthful A env st req st' resp ↔
      (resp.status = 0 → Added A st st' req) ∧ (resp.status ≠ 0 → Refused env st st' req) := by
  constructor
  · exact fun h ↦ ⟨h.added hop, h.refused hop⟩
  · rintro ⟨hadded, hrefused⟩
    constructor <;> simp_all [KeychainRequest.Known]

theorem truthful_get_iff (hop : req.op = kcGet) :
    Truthful A env st req st' resp ↔ (resp.status = 0 ↔ Delivered A st req resp) := by
  constructor
  · exact fun h ↦ h.delivered hop
  · intro hdelivered
    constructor <;> simp_all [KeychainRequest.Known]

theorem truthful_delete_iff (hop : req.op = kcDelete) :
    Truthful A env st req st' resp ↔
      (resp.status = 0 ↔ Removed st st' req) ∧ (resp.status ≠ 0 → resp.status = -1) := by
  constructor
  · exact fun h ↦ ⟨h.removed hop, h.notFound hop⟩
  · rintro ⟨hremoved, hnotFound⟩
    constructor <;> simp_all [KeychainRequest.Known]

theorem truthful_list_iff (hop : req.op = kcList) :
    Truthful A env st req st' resp ↔
      (resp.status = 0 ↔ cstr resp.items.bytes = listing st.items.live) := by
  constructor
  · exact fun h ↦ h.listed hop
  · intro hlisted
    constructor <;> simp_all [KeychainRequest.Known]

/-- An answered request is truthful if its outcome is. -/
theorem answeredTruly_iff_of_eq (h : handleKcRequest A env st req = some (st', resp)) :
    AnsweredTruly A env st req ↔ Truthful A env st req st' resp := by
  constructor
  · rintro ⟨st'', resp', h', htruth⟩
    rw [h, Option.some.injEq, Prod.mk.injEq] at h'
    rwa [h'.1, h'.2]
  · exact fun htruth ↦ ⟨st', resp, h, htruth⟩

/-- A request that makes the daemon leave a buffer is not answered. -/
theorem not_answeredTruly_of_none (h : handleKcRequest A env st req = none) :
    ¬ AnsweredTruly A env st req := by
  rintro ⟨st', resp, h', -⟩
  rw [h] at h'
  cases h'

/-! ### Adds -/

/-- An item whose encryption failed holds nothing. -/
theorem not_seals_encryptReq (hctx : env.ctxNew = false) {kcKey kcKey' v : Bytes}
    (it : KeychainItem) : ¬ Seals A kcKey' (encryptReq A env kcKey req it) v := by
  intro h
  have hfailed : (encryptReq A env kcKey req it).encLen = -1 := by
    simp only [encryptReq, encryptItem, kcEncrypt, hctx]
    rfl
  have hlen := h.encLen
  omega

/-- An add to a full table is refused, so its key has to be absent, or the encryption doomed. -/
theorem answeredTruly_add_of_full (hop : req.op = kcAdd) (hfull : st.Full) :
    AnsweredTruly A env st req ↔ st.lookup req.key = none ∨ env.ctxNew = false := by
  have hrefused : (KeychainResponse.zero.fail "Keychain full").status ≠ 0 := by decide
  rw [answeredTruly_iff_of_eq ((handleKcRequest_add A env st hop).trans (kcAddCase_full hfull)),
    truthful_add_iff hop]
  simp only [hrefused, Refused, hfull, and_true, true_and, ne_eq, not_false_eq_true, forall_const,
    false_implies]

/-- An add to a table with room is reported as done, so the data has to be encrypted, and it
has to be the request's. -/
theorem answeredTruly_add_of_room (hnt : st.items.AllSlots NamesTerminated)
    (ht : req.Terminated) (hop : req.op = kcAdd) (hroom : ¬ st.Full) :
    AnsweredTruly A env st req ↔
      env.ctxNew = true ∧ 0 ≤ req.dataLen ∧ req.dataLen ≤ 512 := by
  by_cases hlen : env.ctxNew = false ∨ 0 ≤ req.dataLen ∧ req.dataLen ≤ 512
  · obtain ⟨st', it, hadd, hkcKey, -, hlook⟩ :=
      kcAddCase_spec A hnt ht hlen (Nat.lt_of_not_le hroom)
    have hitem : st'.lookup req.key = some (encryptReq A env st.kcKey req it) := by
      rw [hlook, if_pos rfl]
    rw [answeredTruly_iff_of_eq ((handleKcRequest_add A env st hop).trans hadd),
      truthful_add_iff hop]
    constructor
    · rintro ⟨hadded, -⟩
      obtain ⟨⟨it', hit', hseals⟩, -⟩ := hadded rfl
      rw [hitem, Option.some.injEq] at hit'
      rw [← hit'] at hseals
      rcases Bool.eq_false_or_eq_true env.ctxNew with hctx | hctx
      · exact ⟨hctx, hlen.resolve_left (by rw [hctx]; decide)⟩
      · exact absurd hseals (not_seals_encryptReq hctx it)
    · rintro ⟨hctx, -⟩
      refine ⟨fun _ ↦ ⟨⟨_, hitem, ?_⟩, fun k hk ↦ (hlook k).trans (if_neg hk)⟩,
        fun h0 ↦ absurd rfl h0⟩
      rw [hkcKey]
      exact seals_encryptItem hctx _ it
  · have hnone : handleKcRequest A env st req = none := by
      rw [handleKcRequest_add A env st hop]
      exact (kcAddCase_eq_none_iff hroom).2 hlen
    have hrange : ¬ (0 ≤ req.dataLen ∧ req.dataLen ≤ 512) := fun h ↦ hlen (Or.inr h)
    exact iff_of_false (not_answeredTruly_of_none hnone) fun h ↦ hrange h.2

/-! ### Gets -/

/-- An item with a length that fits and a tag that matches holds what it decrypts to. -/
theorem seals_decrypt {kcKey : Bytes} {it : KeychainItem} (hlen : 0 ≤ it.encLen ∧ it.encLen ≤ 512)
    (htag : A.mac kcKey (it.iv.bytes.take Gcm.ivLength) it.cipher = it.tag) :
    Seals A kcKey it (A.decrypt kcKey (it.iv.bytes.take Gcm.ivLength) it.cipher) := by
  have hcipher : it.cipher.length = it.encLen.toNat := by
    rw [KeychainItem.cipher, List.length_take, it.encrypted.length_bytes]
    omega
  refine ⟨?_, ?_, rfl, htag⟩
  · rw [A.length_decrypt, hcipher]
    omega
  · rw [A.length_decrypt, hcipher]
    omega

/-- An item holds one thing at most. -/
theorem Seals.unique {kcKey v w : Bytes} {it : KeychainItem} (h : Seals A kcKey it v)
    (h' : Seals A kcKey it w) : v = w :=
  h.decrypt.symm.trans h'.decrypt

/-- Where `kc_decrypt` fails, the length it returns is not that of any data. -/
theorem not_delivered (hlen : resp.dataLen = -1) : ¬ Delivered A st req resp := by
  rintro ⟨it, v, -, -, hv, -⟩
  omega

/-- Decryption fails without a context, and on an item whose tag is another ciphertext's. -/
def DecryptFails (A : Gcm) (env : Env) (kcKey : Bytes) (it : KeychainItem) : Prop :=
  env.ctxNew = false ∨ (0 ≤ it.encLen ∧ it.encLen ≤ 512) ∧
    A.mac kcKey (it.iv.bytes.take Gcm.ivLength) it.cipher ≠ it.tag

theorem openItem_of_fails {kcKey : Bytes} {it : KeychainItem} (h : DecryptFails A env kcKey it) :
    ∃ resp, openItem A env kcKey it = some resp ∧ resp.status = -1 ∧ resp.dataLen = -1 := by
  have hopened : (kcDecrypt A env kcKey it.cipher it.iv it.tag).2 = -1 := by
    rw [kcDecrypt]
    split
    next hctx =>
      rcases h with hno | ⟨-, htag⟩
      · rw [hctx] at hno
        cases hno
      · exact if_neg htag
    next => rfl
  rw [openItem, if_pos (h.imp_right And.left)]
  refine ⟨_, rfl, ?_, hopened⟩
  show (if 0 < (kcDecrypt A env kcKey it.cipher it.iv it.tag).2 then (0 : ℤ) else -1) = -1
  rw [hopened]
  rfl

/-- A get of a stored key is answered from its item. -/
theorem answeredTruly_get_of_lookup (hop : req.op = kcGet) {it : KeychainItem}
    (hlook : st.lookup req.key = some it) :
    AnsweredTruly A env st req ↔ ∃ resp, openItem A env st.kcKey it = some resp ∧
      (resp.status = 0 ↔ Delivered A st req resp) := by
  have hhandle : handleKcRequest A env st req =
      (openItem A env st.kcKey it).map fun resp ↦ (st, resp) := by
    rw [handleKcRequest_get A env st hop, kcGetCase_eq, hlook, Option.elim_some]
  constructor
  · rintro ⟨st', resp, h, htruth⟩
    rw [hhandle] at h
    obtain ⟨resp', hresp, heq⟩ := Option.map_eq_some_iff.1 h
    obtain ⟨-, rfl⟩ := Prod.ext_iff.1 heq
    exact ⟨resp', hresp, (truthful_get_iff hop).1 htruth⟩
  · rintro ⟨resp, hresp, hdelivered⟩
    exact ⟨st, resp, by rw [hhandle, hresp]; rfl, (truthful_get_iff hop).2 hdelivered⟩

/-- A get of an item that can be decrypted is answered truthfully if there is some data. -/
theorem answeredTruly_get_of_seals (hop : req.op = kcGet) (hctx : env.ctxNew = true)
    {it : KeychainItem} {v : Bytes} (hlook : st.lookup req.key = some it)
    (hseals : Seals A st.kcKey it v) : AnsweredTruly A env st req ↔ v ≠ [] := by
  rw [answeredTruly_get_of_lookup hop hlook, openItem_of_seals hctx hseals]
  have hdelivered : Delivered A st req { KeychainResponse.found v hseals.le with
      status := if 0 < v.length then 0 else -1 } :=
    ⟨it, v, hlook, hseals, rfl, (answers_found hseals.le).2.2⟩
  constructor
  · rintro ⟨resp, hresp, hstatus⟩ rfl
    obtain rfl := Option.some.inj hresp
    exact absurd (hstatus.2 hdelivered) (show (-1 : ℤ) ≠ 0 by decide)
  · intro hne
    exact ⟨_, rfl, iff_of_true (if_pos (List.length_pos_iff.2 hne)) hdelivered⟩

/-- **A get is answered truthfully** unless it makes the daemon leave the item or the item
holds the empty text, which is reported as missing. -/
theorem answeredTruly_get_iff (hop : req.op = kcGet) :
    AnsweredTruly A env st req ↔ (env.ctxNew = true → ∀ it, st.lookup req.key = some it →
      (0 ≤ it.encLen ∧ it.encLen ≤ 512) ∧ ¬ Seals A st.kcKey it []) := by
  cases hlook : st.lookup req.key with
  | none =>
    have hhandle : handleKcRequest A env st req =
        some (st, KeychainResponse.zero.fail "Item not found") := by
      rw [handleKcRequest_get A env st hop, kcGetCase_eq, hlook, Option.elim_none, Option.map_some]
    rw [answeredTruly_iff_of_eq hhandle, truthful_get_iff hop]
    refine iff_of_true (iff_of_false (by decide) ?_) (by rintro - it ⟨⟩)
    rintro ⟨it, v, hit, -⟩
    rw [hlook] at hit
    cases hit
  | some it =>
    simp only [Option.some.injEq, forall_eq']
    by_cases hfails : DecryptFails A env st.kcKey it
    · obtain ⟨resp, hresp, hstatus, hlen⟩ := openItem_of_fails hfails
      refine iff_of_true ((answeredTruly_get_of_lookup hop hlook).2
        ⟨resp, hresp, iff_of_false (by omega) (not_delivered hlen)⟩) fun hctx ↦ ?_
      rcases hfails with hno | ⟨hlen, htag⟩
      · rw [hctx] at hno
        cases hno
      · exact ⟨hlen, fun hseals ↦ htag hseals.tag⟩
    · have hctx : env.ctxNew = true := by
        by_contra hno
        exact hfails (Or.inl (Bool.eq_false_iff.2 hno))
      by_cases hlen : 0 ≤ it.encLen ∧ it.encLen ≤ 512
      · have htag : A.mac st.kcKey (it.iv.bytes.take Gcm.ivLength) it.cipher = it.tag := by
          by_contra hne
          exact hfails (Or.inr ⟨hlen, hne⟩)
        have hseals := seals_decrypt hlen htag
        rw [answeredTruly_get_of_seals hop hctx hlook hseals]
        refine ⟨fun hne _ ↦ ⟨hlen, fun hnil ↦ hne (hseals.unique hnil)⟩, fun h hnil ↦ ?_⟩
        exact (h hctx).2 (hnil ▸ hseals)
      · refine iff_of_false ?_ fun h ↦ hlen (h hctx).1
        have hnone : openItem A env st.kcKey it = none :=
          openItem_eq_none_iff.2 fun h ↦ hlen (h.resolve_left (by rw [hctx]; decide))
        rw [answeredTruly_get_of_lookup hop hlook, hnone]
        rintro ⟨resp, h, -⟩
        cases h

/-! ### Deletes and listings -/

/-- **A delete is answered truthfully** only where there is something to delete. -/
theorem answeredTruly_delete_iff (hop : req.op = kcDelete) :
    AnsweredTruly A env st req ↔ st.lookup req.key ≠ none := by
  rw [answeredTruly_iff_of_eq (handleKcRequest_delete A env st hop), truthful_delete_iff hop]
  constructor
  · rintro ⟨hremoved, -⟩ hnone
    obtain ⟨i, hfind, -⟩ := hremoved.1 rfl
    rw [PackedTable.find?_eq_none_iff.2 hnone] at hfind
    cases hfind
  · intro hstored
    refine ⟨iff_of_true rfl ?_, fun h0 ↦ absurd rfl h0⟩
    rw [kcDeleteLoop]
    split
    next h =>
      rw [kcFind_req] at h
      exact absurd (PackedTable.find?_eq_none_iff.1 h) hstored
    next i h =>
      rw [kcFind_req] at h
      exact ⟨i, h, by rw [kcSave_items, PackedTable.live_eraseAt]⟩

/-- The loop of `KC_LIST` is the loop over the items' lines. -/
theorem kcListLoop_eq_print (its : List KeychainItem) (pos : ℕ) (buf : Buf 4096) :
    kcListLoop its pos buf = (Listing.print (its.map KeychainItem.line) pos buf).map Prod.snd := by
  induction its generalizing pos buf with
  | nil => rfl
  | cons it its ih =>
    rw [kcListLoop, List.map_cons, Listing.print]
    split
    next => exact ih _ _
    next => rfl

/-- The lines of a listing are text. -/
theorem zero_notMem_listing (its : List KeychainItem) : (0 : UInt8) ∉ listing its := by
  intro h
  obtain ⟨it, -, hit⟩ := List.mem_flatMap.1 h
  simp only [KeychainItem.line, List.mem_append, List.mem_singleton] at hit
  rcases hit with ((hservice | hslash) | haccount) | hnewline
  · exact zero_notMem_cstr _ hservice
  · exact absurd hslash (by decide)
  · exact zero_notMem_cstr _ haccount
  · exact absurd hnewline (by decide)

theorem handleKcRequest_list (hop : req.op = kcList) :
    handleKcRequest A env st req =
      (Listing.print (st.items.live.map KeychainItem.line) 0 (.zero 4096)).map fun r ↦
        (st, { KeychainResponse.zero with items := r.2 }) := by
  rw [handleKcRequest, hop]
  show (kcListLoop st.items.live 0 (.zero 4096)).map _ = _
  rw [kcListLoop_eq_print, Option.map_map]
  rfl

/-- **A listing is answered truthfully** exactly if it fits its buffer. -/
theorem answeredTruly_list_iff (hop : req.op = kcList) :
    AnsweredTruly A env st req ↔ (listing st.items.live).length < 4096 := by
  have hlist : (st.items.live.map KeychainItem.line).flatten = listing st.items.live :=
    List.flatMap_def.symm
  constructor
  · rintro ⟨st', resp, h, htruth⟩
    rw [handleKcRequest_list hop] at h
    obtain ⟨⟨pos, buf⟩, hprint, heq⟩ := Option.map_eq_some_iff.1 h
    obtain ⟨-, rfl⟩ := Prod.ext_iff.1 heq
    have hwhole : cstr buf.bytes = listing st.items.live := ((truthful_list_iff hop).1 htruth).1 rfl
    have hlast := Listing.lastZero_of_print (lastZero_replicate (by decide)) hprint
    rw [← hwhole]
    exact (length_cstr_lt_of_mem hlast.mem_zero).trans_eq buf.length_bytes
  · intro hfits
    obtain ⟨buf, hprint, hbuf⟩ := Listing.print_of_le_zero (hlist ▸ hfits.le)
    have hhandle : handleKcRequest A env st req = _ := handleKcRequest_list hop
    rw [hprint] at hhandle
    rw [answeredTruly_iff_of_eq hhandle, truthful_list_iff hop]
    refine iff_of_true rfl ?_
    show cstr buf.bytes = _
    rw [hbuf, hlist, Listing.cstr_cut (zero_notMem_listing _)]
    exact List.take_of_length_le (Nat.le_pred_of_lt hfits)

/-! ### All requests -/

/-- Whatever the switch does not know is reported as done. -/
theorem not_answeredTruly_of_unknown (hop : ¬ req.Known) : ¬ AnsweredTruly A env st req := by
  have hhandle : handleKcRequest A env st req = some (st, .zero) := by
    rw [handleKcRequest]
    split <;> simp_all [KeychainRequest.Known]
  rw [answeredTruly_iff_of_eq hhandle]
  exact fun htruth ↦ htruth.unknown hop rfl

/-- A delete of `a/b`. -/
def deleteLetter : KeychainRequest where
  bytes := Bytes.le 4 kcDelete ++ Bytes.ljust 64 0 (Bytes.ofAscii "a") ++
    Bytes.ljust 64 0 (Bytes.ofAscii "b") ++ Bytes.ljust 644 0 []
  length_bytes := by simp [Bytes.ofAscii, sizeof, keychainRequestFields]; decide

end JuliusOS.Keychain
