import JuliusOS.Keychain.Map

/-!
# What an interrupted save leaves

`kc_save` truncates `keychain.db` and writes it anew, the count first and the items behind it,
and `kc_load` believes the count and does not ask how much it has read. The file that an
interruption leaves is any prefix of the new one, and what the next daemon loads from it is that
prefix with zeros behind it, since its memory is static.

`crashSafe_iff` says when that is one of the two tables there should be: when the cut took away
nothing but zeros, or when the prefix with its zeros begins with the old file. Everywhere else a
table is loaded that was never there, and after the truncating open it is the empty one.

`fread` is the one of the usual C libraries, which stores the bytes of an item that is not
complete.
-/

open CString StructLayout

namespace JuliusOS.Keychain

/-! ### The file -/

/-- The fields of `KeychainItem`: `service`, `account`, `label`, `encrypted`, `enc_len`, `iv`,
`tag`, `created`, `modified`. -/
def keychainItemFields : List CType :=
  [charArray 64, charArray 64, charArray 128, charArray 512, int32, charArray 16, charArray 16,
    int64, int64]

/-- `sizeof(KeychainItem)`. -/
abbrev itemSize : ℕ := 824

theorem sizeof_keychainItemFields : sizeof keychainItemFields = itemSize := by decide

example : offsets keychainItemFields = [0, 64, 128, 256, 768, 772, 788, 808, 816] := by decide

/-- The bytes of an item's fields, and the padding in front of the times. -/
def KeychainItem.parts (it : KeychainItem) : List Bytes :=
  [it.service.bytes, it.account.bytes, it.label.bytes, it.encrypted.bytes,
    Bytes.leInt 4 it.encLen, it.iv.bytes, it.tag.bytes, List.replicate 4 0,
    Bytes.leInt 8 it.created, Bytes.leInt 8 it.modified]

theorem KeychainItem.length_parts (it : KeychainItem) : it.parts.flatten.length = itemSize := by
  simp [parts, it.service.length_bytes, it.account.length_bytes, it.label.length_bytes,
    it.encrypted.length_bytes, it.iv.length_bytes, it.tag.length_bytes]
  rfl

/-- An item in memory. -/
def KeychainItem.image (it : KeychainItem) : Image keychainItemFields where
  bytes := it.parts.flatten
  length_bytes := it.length_parts.trans sizeof_keychainItemFields.symm

theorem KeychainItem.length_image (it : KeychainItem) : it.image.bytes.length = itemSize :=
  it.length_parts

/-- The bytes that `kc_save` writes. -/
def KcDb.bytes (db : KcDb) : Bytes :=
  Bytes.le 4 db.itemCount ++ (db.items.map fun it ↦ it.image.bytes).flatten

/-- The table of a daemon: the count and the items in use. -/
def Store.table (st : Store) : KcDb := ⟨st.items.count, st.items.live⟩

/-- A count that is that of the items and fits the array. -/
structure KcDb.Valid (db : KcDb) : Prop where
  /-- The count is that of the items. -/
  itemCount : db.itemCount = db.items.length
  /-- There is room for them. -/
  le : db.itemCount ≤ kcMaxItems

theorem Store.table_valid (st : Store) : st.table.Valid :=
  ⟨st.items.length_live.symm, st.items.count_le⟩

/-! ### Loading -/

/-- What `kc_load` leaves in a daemon that has just started: `item_count`, and the bytes read
into `items`, behind which the array is zero. -/
structure Loaded where
  /-- `item_count`. -/
  itemCount : ℤ
  /-- The bytes read into `items`. -/
  items : Bytes

/-- `kc_load`, from the file's contents if there is a file. It is `none` where more is read than
the array holds. -/
def kcLoad : Option Bytes → Option Loaded
  | none => some ⟨0, []⟩
  | some file =>
    let itemCount := Bytes.ofLeInt (Bytes.ljust 4 0 (file.take 4))
    if (kcMaxItems : ℤ) < itemCount then some ⟨0, []⟩
    else
      -- a negative count is converted to a size beyond that of any file
      let items := if itemCount < 0 then file.drop 4
        else (file.drop 4).take (itemSize * itemCount.toNat)
      if items.length ≤ kcMaxItems * itemSize then some ⟨itemCount, items⟩ else none

/-- The bytes of `items[i]`. -/
def Loaded.slot (t : Loaded) (i : ℕ) : Bytes :=
  Bytes.ljust itemSize 0 (Bytes.slice t.items (itemSize * i) itemSize)

/-- What was loaded is the table `db`: the count, and every item in use byte for byte. -/
def Loaded.Is (t : Loaded) (db : KcDb) : Prop :=
  t.itemCount = db.itemCount ∧ ∀ i it, db.items[i]? = some it → t.slot i = it.image.bytes

/-! ### The file as the memory it becomes -/

variable {A : Gcm} {env : Env} {st st' : Store} {req : KeychainRequest}
  {resp : KeychainResponse}

theorem length_flatten_images (its : List KeychainItem) :
    (its.map fun it ↦ it.image.bytes).flatten.length = itemSize * its.length := by
  induction its with
  | nil => rfl
  | cons it its ih =>
    rw [List.map_cons, List.flatten_cons, List.length_append, ih, it.length_image, List.length_cons,
      Nat.mul_succ, Nat.add_comm]

theorem KcDb.length_bytes (db : KcDb) : db.bytes.length = 4 + itemSize * db.items.length := by
  rw [bytes, List.length_append, Bytes.length_le, length_flatten_images]

/-- The count in front. -/
theorem KcDb.ofLe_take_bytes {db : KcDb} (h : db.Valid) : Bytes.ofLe (db.bytes.take 4) =
    db.itemCount := by
  rw [bytes, List.take_left' (Bytes.length_le 4 _)]
  exact Bytes.ofLe_le_of_lt (h.le.trans_lt (by decide))

/-- Item number `i` in the file. -/
theorem KcDb.slice_bytes {db : KcDb} {i : ℕ} {it : KeychainItem} (h : db.items[i]? = some it) :
    Bytes.slice db.bytes (4 + itemSize * i) itemSize = it.image.bytes := by
  obtain ⟨hi, hit⟩ := List.getElem?_eq_some_iff.1 h
  set images := db.items.map fun it ↦ it.image.bytes with himages
  have hilt : i < images.length := by rwa [himages, List.length_map]
  have hget : images[i] = it.image.bytes := by simp [himages, hit]
  have hsplit : images = images.take i ++ it.image.bytes :: images.drop (i + 1) := by
    rw [← hget, ← List.drop_eq_getElem_cons hilt, List.take_append_drop]
  have hpre : (images.take i).flatten.length = itemSize * i := by
    rw [himages, ← List.map_take, length_flatten_images, List.length_take]
    congr 1
    omega
  rw [bytes, ← himages, hsplit]
  exact Bytes.slice_flatten (Bytes.le 4 db.itemCount :: images.take i) it.image.bytes
    (images.drop (i + 1)) (by rw [List.flatten_cons, List.length_append, Bytes.length_le, hpre])
    it.length_image.symm

/-- A file with a count that fits is loaded as far as the count says. -/
theorem kcLoad_eq {file : Bytes} (h : Bytes.ofLe (file.take 4) ≤ kcMaxItems) :
    kcLoad (some file) = some ⟨Bytes.ofLe (file.take 4),
      (file.drop 4).take (itemSize * Bytes.ofLe (file.take 4))⟩ := by
  set count := Bytes.ofLe (file.take 4) with hcount
  have hof : Bytes.ofLe (Bytes.ljust 4 0 (file.take 4)) = count :=
    Bytes.ofLe_append_replicate_zero _ _
  have hlen : (Bytes.ljust 4 0 (file.take 4)).length = 4 :=
    Bytes.length_ljust_of_le (List.length_take_le _ _)
  have hint : Bytes.ofLeInt (Bytes.ljust 4 0 (file.take 4)) = count := by
    have hsmall : 2 * count < 256 ^ 4 := (Nat.mul_le_mul_left 2 h).trans_lt (by decide)
    rw [Bytes.ofLeInt_of_lt (by rwa [hof, hlen]), hof]
  have hread : ((file.drop 4).take (itemSize * count)).length ≤ kcMaxItems * itemSize := by
    rw [List.length_take, Nat.mul_comm itemSize]
    exact (Nat.min_le_left _ _).trans (Nat.mul_le_mul_right _ h)
  rw [kcLoad]
  simp only [hint, Int.toNat_natCast]
  rw [if_neg (not_lt.2 (Int.ofNat_le.2 h)), if_neg (not_lt.2 (Int.natCast_nonneg count)),
    if_pos hread]

theorem lt_itemSize_mul {count i j : ℕ} (hi : i < count) (hj : j < itemSize) :
    itemSize * i + j < itemSize * count :=
  calc itemSize * i + j < itemSize * i + itemSize := Nat.add_lt_add_left hj _
    _ = itemSize * (i + 1) := (Nat.mul_succ _ _).symm
    _ ≤ itemSize * count := Nat.mul_le_mul_left _ hi

/-- A byte of a loaded item is the file's. -/
theorem getD_slot {file : Bytes} {count i j : ℕ} {itemCount : ℤ} (hi : i < count)
    (hj : j < itemSize) :
    (Loaded.slot ⟨itemCount, (file.drop 4).take (itemSize * count)⟩ i).getD j 0 =
      file.getD (4 + itemSize * i + j) 0 := by
  show (Bytes.ljust itemSize 0 (Bytes.slice (Bytes.slice file 4 (itemSize * count))
    (itemSize * i) itemSize)).getD j 0 = _
  rw [Bytes.getD_ljust, Bytes.getD_slice, if_pos hj, Bytes.getD_slice,
    if_pos (lt_itemSize_mul hi hj), Nat.add_assoc]

theorem Loaded.length_slot (t : Loaded) (i : ℕ) : (t.slot i).length = itemSize :=
  Bytes.length_ljust_of_le (List.length_take_le _ _)

/-- A byte of an item is the file's. -/
theorem KcDb.getD_bytes {db : KcDb} {i j : ℕ} {it : KeychainItem} (h : db.items[i]? = some it)
    (hj : j < itemSize) :
    it.image.bytes.getD j 0 = db.bytes.getD (4 + itemSize * i + j) 0 := by
  rw [← KcDb.slice_bytes h, Bytes.getD_slice, if_pos hj]

/-- Two files have the same count if their first four bytes agree. -/
theorem ofLe_take_eq_iff {file file' : Bytes} (hlen : 4 ≤ file'.length) :
    Bytes.ofLe (file.take 4) = Bytes.ofLe (file'.take 4) ↔
      ∀ k < 4, file.getD k 0 = file'.getD k 0 := by
  have hlen' : (file'.take 4).length = 4 := List.length_take_of_le hlen
  have hpad : (Bytes.ljust 4 0 (file.take 4)).length = (file'.take 4).length :=
    (Bytes.length_ljust_of_le (List.length_take_le _ _)).trans hlen'.symm
  have hpadded : ∀ k < 4, (Bytes.ljust 4 0 (file.take 4)).getD k 0 = file.getD k 0 := by
    intro k hk
    rw [Bytes.getD_ljust, show file.take 4 = Bytes.slice file 0 4 from rfl, Bytes.getD_slice,
      if_pos hk, Nat.zero_add]
  have htaken : ∀ k < 4, (file'.take 4).getD k 0 = file'.getD k 0 := by
    intro k hk
    rw [show file'.take 4 = Bytes.slice file' 0 4 from rfl, Bytes.getD_slice, if_pos hk,
      Nat.zero_add]
  have hof : Bytes.ofLe (Bytes.ljust 4 0 (file.take 4)) = Bytes.ofLe (file.take 4) :=
    Bytes.ofLe_append_replicate_zero _ _
  rw [← hof]
  constructor
  · intro h k hk
    rw [← hpadded k hk, Bytes.ofLe_inj hpad h, htaken k hk]
  · intro h
    rw [(Bytes.eq_iff_getD hpad).2]
    rw [hlen']
    exact fun k hk ↦ by rw [hpadded k hk, h k hk, htaken k hk]

/-- **What is loaded is `db`** exactly if the file, with zeros behind it, begins with the bytes
of `db`. -/
theorem is_iff {file : Bytes} (hfile : Bytes.ofLe (file.take 4) ≤ kcMaxItems) {db : KcDb}
    (hdb : db.Valid) {t : Loaded} (ht : kcLoad (some file) = some t) :
    t.Is db ↔ ∀ k < db.bytes.length, file.getD k 0 = db.bytes.getD k 0 := by
  rw [kcLoad_eq hfile, Option.some.injEq] at ht
  subst ht
  have hlen : 4 ≤ db.bytes.length := by
    rw [db.length_bytes]
    exact Nat.le_add_right 4 _
  have hcount : Bytes.ofLe (file.take 4) = db.itemCount ↔
      ∀ k < 4, file.getD k 0 = db.bytes.getD k 0 := by
    rw [← KcDb.ofLe_take_bytes hdb]
    exact ofLe_take_eq_iff hlen
  constructor
  · rintro ⟨hitemCount, hitems⟩ k hk
    have hsame : Bytes.ofLe (file.take 4) = db.itemCount := Int.ofNat_inj.1 hitemCount
    rcases Nat.lt_or_ge k 4 with hk4 | hk4
    · exact hcount.1 hsame k hk4
    -- byte `k` lies in item number `(k - 4) / itemSize`
    · obtain ⟨i, j, hj, rfl⟩ : ∃ i j, j < itemSize ∧ k = 4 + itemSize * i + j :=
        ⟨(k - 4) / itemSize, (k - 4) % itemSize, Nat.mod_lt _ (by decide), by
          have := Nat.div_add_mod (k - 4) itemSize
          omega⟩
      rw [db.length_bytes] at hk
      have hi : i < db.items.length := by
        refine Nat.lt_of_mul_lt_mul_left (a := itemSize) ?_
        omega
      have hit : db.items[i]? = some db.items[i] := List.getElem?_eq_getElem hi
      rw [← KcDb.getD_bytes hit hj, ← hitems i _ hit, getD_slot _ hj]
      rw [hsame, hdb.itemCount]
      exact hi
  · intro h
    have hsame : Bytes.ofLe (file.take 4) = db.itemCount :=
      hcount.2 fun k hk ↦ h k (hk.trans_le hlen)
    refine ⟨congrArg _ hsame, fun i it hit ↦ ?_⟩
    obtain ⟨hi, -⟩ := List.getElem?_eq_some_iff.1 hit
    rw [Bytes.eq_iff_getD ((Loaded.length_slot _ i).trans it.length_image.symm), it.length_image]
    intro j hj
    rw [getD_slot (by rw [hsame, hdb.itemCount]; exact hi) hj, KcDb.getD_bytes hit hj]
    refine h _ ?_
    rw [db.length_bytes, Nat.add_assoc]
    exact Nat.add_lt_add_left (lt_itemSize_mul hi hj) 4

/-! ### Which requests save -/

/-- The request is one that `kc_save` is called for: an add to a table with room, or a delete
that finds its item. -/
def Saves (st : Store) (req : KeychainRequest) : Prop :=
  req.op = kcAdd ∧ ¬ st.Full ∨ req.op = kcDelete ∧ st.lookup req.key ≠ none

/-- **A request that saves** changes the items and calls `kc_save`; what the file holds has no
influence on it. -/
theorem handleKcRequest_of_saves (hsaves : Saves st req)
    (h : handleKcRequest A env st req = some (st', resp)) :
    ∃ items resp, ∀ db, handleKcRequest A env { st with db } req =
      some (kcSave env { st with items, db }, resp) := by
  rcases hsaves with ⟨hop, hroom⟩ | ⟨hop, hstored⟩
  · simp only [handleKcRequest_add A env _ hop] at h ⊢
    have hlen : env.ctxNew = false ∨ 0 ≤ req.dataLen ∧ req.dataLen ≤ 512 := by
      by_contra hno
      rw [(kcAddCase_eq_none_iff hroom).2 hno] at h
      cases h
    have hlt : st.items.count < kcMaxItems := Nat.lt_of_not_le hroom
    cases hfind : st.items.find? fun it ↦ it.key = req.key with
    | none =>
      exact ⟨st.items.append hlt (encryptReq A env st.kcKey req ∘ nameItem env req), .zero,
        fun db ↦ @kcAddCase_new A env { st with db } req hlen hlt
          (PackedTable.find?_eq_none_iff.1 hfind)⟩
    | some i =>
      exact ⟨st.items.modify i (encryptReq A env st.kcKey req), .zero,
        fun db ↦ @kcAddCase_stored A env { st with db } req hlen hlt i hfind⟩
  · simp only [handleKcRequest_delete A env _ hop]
    cases hfind : kcFind st.items req.service req.account with
    | none =>
      rw [kcFind_req] at hfind
      exact absurd (PackedTable.find?_eq_none_iff.1 hfind) hstored
    | some i =>
      refine ⟨st.items.eraseAt i (PackedTable.lt_count_of_find?_eq_some hfind), .zero,
        fun db ↦ ?_⟩
      rw [kcDeleteLoop]
      split
      next h => cases hfind.symm.trans h
      next j h =>
        obtain rfl := Option.some.inj (hfind.symm.trans h)
        rfl

/-- A delete that finds nothing. -/
theorem kcDeleteLoop_of_absent (hnone : (st.items.find? fun it ↦ it.key = req.key) = none) :
    kcDeleteLoop env st req resp = (st, resp) := by
  rw [kcDeleteLoop]
  split
  next => rfl
  next i hfind =>
    rw [kcFind_req] at hfind
    cases hnone.symm.trans hfind

/-- **Any other request** leaves the items and the file alone. -/
theorem handleKcRequest_of_not_saves (hsaves : ¬ Saves st req)
    (h : handleKcRequest A env st req = some (st', resp)) :
    st' = st ∧ ∀ db, handleKcRequest A env { st with db } req = some ({ st with db }, resp) := by
  rw [handleKcRequest] at h
  split at h
  next hop =>
    have hfull : st.Full := by
      by_contra hroom
      exact hsaves (Or.inl ⟨hop, hroom⟩)
    rw [kcAddCase_full hfull] at h
    obtain ⟨rfl, rfl⟩ := Prod.ext_iff.1 (Option.some.inj h)
    refine ⟨rfl, fun db ↦ ?_⟩
    rw [handleKcRequest_add A env _ hop]
    exact kcAddCase_full hfull
  next hop =>
    obtain ⟨_, hresp, heq⟩ := Option.map_eq_some_iff.1 h
    obtain ⟨rfl, rfl⟩ := Prod.ext_iff.1 heq
    refine ⟨rfl, fun db ↦ ?_⟩
    rw [handleKcRequest, hop]
    exact congrArg (Option.map _) hresp
  next hop =>
    have hnone : (st.items.find? fun it ↦ it.key = req.key) = none := by
      by_contra hsome
      exact hsaves (Or.inr ⟨hop, fun hno ↦ hsome (PackedTable.find?_eq_none_iff.2 hno)⟩)
    have hloop (db : Option KcDb) :
        kcDeleteLoop env { st with db } req .zero = ({ st with db }, .zero) :=
      kcDeleteLoop_of_absent hnone
    rw [kcDeleteCase_eq, show kcDeleteLoop env st req .zero = (st, .zero) from hloop st.db] at h
    obtain ⟨rfl, rfl⟩ := Prod.ext_iff.1 (Option.some.inj h)
    refine ⟨rfl, fun db ↦ ?_⟩
    rw [handleKcRequest_delete A env _ hop, hloop db]
  next hop =>
    obtain ⟨_, hresp, heq⟩ := Option.map_eq_some_iff.1 h
    obtain ⟨rfl, rfl⟩ := Prod.ext_iff.1 heq
    refine ⟨rfl, fun db ↦ ?_⟩
    rw [handleKcRequest, hop]
    exact congrArg (Option.map _) hresp
  next hadd hget hdelete hlist =>
    obtain ⟨rfl, rfl⟩ := Prod.ext_iff.1 (Option.some.inj h)
    refine ⟨rfl, fun db ↦ ?_⟩
    rw [handleKcRequest]
    split
    next hop => exact absurd hop hadd
    next hop => exact absurd hop hget
    next hop => exact absurd hop hdelete
    next hop => exact absurd hop hlist
    next => rfl

/-! ### Interruptions -/

/-- What the request's call of `kc_save` writes, if there is one and the file opens: the database
it leaves where it found none. -/
def savedDb (A : Gcm) (env : Env) (st : Store) (req : KeychainRequest) : Option KcDb :=
  (handleKcRequest A env { st with db := none } req).bind fun out ↦ out.1.db

/-- What is written is the table that the request leaves. -/
theorem savedDb_eq (h : handleKcRequest A env st req = some (st', resp)) :
    (savedDb A env st req = some st'.table ∧ env.fopenDb = true ∧ Saves st req) ∨
      (savedDb A env st req = none ∧ ¬ (env.fopenDb = true ∧ Saves st req)) := by
  by_cases hsaves : Saves st req
  · obtain ⟨items, resp', hhandle⟩ := handleKcRequest_of_saves hsaves h
    obtain ⟨rfl, -⟩ := Prod.ext_iff.1 (Option.some.inj (h.symm.trans (hhandle st.db)))
    rw [savedDb, hhandle none, Option.bind_some]
    cases hopen : env.fopenDb with
    | true =>
      refine Or.inl ⟨?_, rfl, hsaves⟩
      simp only [kcSave, hopen, if_true, Store.table]
    | false =>
      refine Or.inr ⟨?_, fun hboth ↦ absurd hboth.1 (by decide)⟩
      simp only [kcSave, hopen, Bool.false_eq_true, if_false]
  · refine Or.inr ⟨?_, fun hboth ↦ hsaves hboth.2⟩
    rw [savedDb, (handleKcRequest_of_not_saves hsaves h).2 none]
    rfl

/-- The file, when the request's `kc_save` is cut off behind its first `p` bytes. -/
def interruptedFile (A : Gcm) (env : Env) (st : Store) (req : KeychainRequest) (p : ℕ) :
    Option Bytes :=
  match savedDb A env st req with
  | some db => some (db.bytes.take p)
  | none => st.db.map KcDb.bytes

/-- The next daemon loads the table as it was before the request or as it was after it. -/
def CrashSafe (A : Gcm) (env : Env) (st : Store) (req : KeychainRequest) (st' : Store) (p : ℕ) :
    Prop :=
  ∃ t, kcLoad (interruptedFile A env st req p) = some t ∧ (t.Is st.table ∨ t.Is st'.table)

/-- The daemon's table is the one in the file. -/
def Store.Stored (st : Store) : Prop := st.db = some st.table

/-- The first bytes of a saved table have a count that fits. -/
theorem ofLe_take_take_le {db : KcDb} (h : db.Valid) (p : ℕ) :
    Bytes.ofLe ((db.bytes.take p).take 4) ≤ kcMaxItems := by
  rw [List.take_take, Nat.min_comm, ← List.take_take]
  refine (Bytes.ofLe_take_le _ p).trans ?_
  rw [KcDb.ofLe_take_bytes h]
  exact h.le

theorem getD_take (l : Bytes) (p k : ℕ) :
    (l.take p).getD k 0 = if k < p then l.getD k 0 else 0 := by
  rw [show l.take p = Bytes.slice l 0 p from rfl, Bytes.getD_slice, Nat.zero_add]

/-- A cut takes away nothing but zeros exactly if the rest, with zeros behind it, is the whole. -/
theorem getD_take_eq_iff (l : Bytes) (p : ℕ) :
    (∀ k < l.length, (l.take p).getD k 0 = l.getD k 0) ↔ ∀ k, p ≤ k → l.getD k 0 = 0 := by
  constructor
  · intro h k hk
    rcases Nat.lt_or_ge k l.length with hlt | hge
    · rw [← h k hlt, getD_take, if_neg (by omega)]
    · exact List.getD_eq_default _ _ hge
  · intro h k _
    rw [getD_take]
    split
    next => rfl
    next hk => exact (h k (by omega)).symm

/-- **After the truncating open** the next daemon loads the empty table, whatever there was. -/
theorem not_crashSafe_zero (h : handleKcRequest A env st req = some (st', resp))
    (hwrites : env.fopenDb = true ∧ Saves st req) (hpos : 0 < st.items.count)
    (hpos' : 0 < st'.items.count) : ¬ CrashSafe A env st req st' 0 := by
  rcases savedDb_eq h with ⟨hsaved, -⟩ | ⟨-, hno⟩
  · have hfile : interruptedFile A env st req 0 = some [] := by
      rw [interruptedFile, hsaved]
      rfl
    rintro ⟨t, ht, his⟩
    rw [hfile, kcLoad_eq (Nat.zero_le _), Option.some.injEq] at ht
    subst ht
    rcases his with ⟨hcount, -⟩ | ⟨hcount, -⟩
    · exact hpos.ne (Int.ofNat_inj.1 hcount)
    · exact hpos'.ne (Int.ofNat_inj.1 hcount)
  · exact absurd hwrites hno

/-- **When an interruption is harmless.** For every stored table, every request and every cut:
exactly if the request does not write the file, or the bytes of the new table from the cut on are
zeros, or what was written, with zeros behind it, begins with the bytes of the old table. -/
theorem crashSafe_iff (hst : st.Stored) (h : handleKcRequest A env st req = some (st', resp))
    (p : ℕ) :
    CrashSafe A env st req st' p ↔
      ¬ (env.fopenDb = true ∧ Saves st req) ∨
        (∀ k, p ≤ k → st'.table.bytes.getD k 0 = 0) ∨
        ∀ k < st.table.bytes.length,
          (st'.table.bytes.take p).getD k 0 = st.table.bytes.getD k 0 := by
  rcases savedDb_eq h with ⟨hsaved, hwrites⟩ | ⟨hsaved, hwrites⟩
  · have hfile : interruptedFile A env st req p = some (st'.table.bytes.take p) := by
      rw [interruptedFile, hsaved]
    have hcount := ofLe_take_take_le st'.table_valid p
    rw [CrashSafe, hfile, or_iff_right (not_not_intro hwrites), ← getD_take_eq_iff]
    constructor
    · rintro ⟨t, ht, hbefore | hafter⟩
      · exact Or.inr ((is_iff hcount st.table_valid ht).1 hbefore)
      · exact Or.inl ((is_iff hcount st'.table_valid ht).1 hafter)
    · rintro (hafter | hbefore)
      · exact ⟨_, kcLoad_eq hcount,
          Or.inr ((is_iff hcount st'.table_valid (kcLoad_eq hcount)).2 hafter)⟩
      · exact ⟨_, kcLoad_eq hcount,
          Or.inl ((is_iff hcount st.table_valid (kcLoad_eq hcount)).2 hbefore)⟩
  · have hfile : interruptedFile A env st req p = some st.table.bytes := by
      rw [interruptedFile, hsaved, hst]
      rfl
    have hcount : Bytes.ofLe (st.table.bytes.take 4) ≤ kcMaxItems := by
      rw [KcDb.ofLe_take_bytes st.table_valid]
      exact st.table_valid.le
    refine iff_of_true ⟨_, hfile ▸ kcLoad_eq hcount, Or.inl ?_⟩ (Or.inl hwrites)
    exact (is_iff hcount st.table_valid (kcLoad_eq hcount)).2 fun _ _ ↦ rfl

/-! ### A table that is lost -/

/-- The environment in which all calls succeed. -/
def Env.fine : Env := ⟨.zero _, 0, 0, true, true⟩

/-- The store after the first add to a fresh daemon. -/
def oneItem : Store :=
  kcSave .fine { Store.init [] with
    items := (Store.init []).items.append (count_init_lt [])
      (encryptReq Gcm.transparent .fine [] addLetter ∘ nameItem .fine addLetter) }

theorem op_addLetter : addLetter.op = kcAdd := by decide +kernel

theorem dataLen_addLetter : 0 ≤ addLetter.dataLen ∧ addLetter.dataLen ≤ 512 := by
  have := addLetter_valid.dataLen op_addLetter
  omega

theorem handleKcRequest_init_addLetter :
    handleKcRequest Gcm.transparent .fine (Store.init []) addLetter = some (oneItem, .zero) :=
  (handleKcRequest_add _ _ _ op_addLetter).trans
    (kcAddCase_new (Or.inr dataLen_addLetter) (count_init_lt []) rfl)

theorem oneItem_stored : oneItem.Stored := rfl

theorem count_oneItem : oneItem.items.count = 1 := rfl

theorem oneItem_not_full : ¬ oneItem.Full := by
  rw [Store.Full, count_oneItem]
  decide

/-- The same add once more is an update, and it is saved again. -/
theorem exists_update_oneItem :
    ∃ st', handleKcRequest Gcm.transparent .fine oneItem addLetter = some (st', .zero) ∧
      0 < st'.items.count := by
  have hnt : oneItem.items.AllSlots NamesTerminated :=
    namesTerminated_step (Store.inv_init []).terminated handleKcRequest_init_addLetter
  obtain ⟨st', it, hadd, -, -, hlook⟩ := kcAddCase_spec Gcm.transparent hnt
    addLetter_valid.terminated (Or.inr dataLen_addLetter) (Nat.lt_of_not_le oneItem_not_full)
  refine ⟨st', (handleKcRequest_add _ _ _ op_addLetter).trans hadd, Nat.pos_of_ne_zero fun h0 ↦ ?_⟩
  have hempty : st'.items.live = [] := List.eq_nil_of_length_eq_zero (by
    rw [PackedTable.length_live, h0])
  have hnone : st'.lookup addLetter.key = none := by
    rw [Store.lookup, PackedTable.lookup, hempty]
    rfl
  rw [hlook, if_pos rfl] at hnone
  cases hnone

/-- A save that runs to its end is harmless. -/
theorem crashSafe_update_oneItem :
    ∃ st', handleKcRequest Gcm.transparent .fine oneItem addLetter = some (st', .zero) ∧
      CrashSafe Gcm.transparent .fine oneItem addLetter st' st'.table.bytes.length := by
  obtain ⟨st', h, -⟩ := exists_update_oneItem
  exact ⟨st', h, (crashSafe_iff oneItem_stored h _).2
    (Or.inr (Or.inl fun _ hk ↦ List.getD_eq_default _ _ hk))⟩

/-- An update that is cut off after the truncating open loses the item it was to update. -/
theorem lost_oneItem :
    (daemon Gcm.transparent).run (Store.init [], []) [(.fine, addLetter)] =
        some (oneItem, [(addLetter, .zero)]) ∧ oneItem.Stored ∧
      ∃ st', handleKcRequest Gcm.transparent .fine oneItem addLetter = some (st', .zero) ∧
        ¬ CrashSafe Gcm.transparent .fine oneItem addLetter st' 0 := by
  obtain ⟨st', h, hpos⟩ := exists_update_oneItem
  refine ⟨?_, oneItem_stored, st', h, ?_⟩
  · have hstep : (daemon Gcm.transparent).step (Store.init [], []) (.fine, addLetter) =
        some (oneItem, [(addLetter, .zero)]) := by
      simp only [daemon, handleKcRequest_init_addLetter, Option.map_some, List.nil_append]
    rw [Machine.run_cons, hstep, Option.bind_some, Machine.run_nil]
  · exact not_crashSafe_zero h ⟨rfl, Or.inl ⟨op_addLetter, oneItem_not_full⟩⟩
      (by rw [count_oneItem]; decide) hpos

end JuliusOS.Keychain
