import JuliusOS.Keychain.Load

/-!
# The keychain across restarts

The keychain is a map as long as its daemon runs (`keychain_is_map`). Here daemons come and go: one
is started with what the last one left in `keychain.key` and `keychain.db`, answers requests and is
stopped between two of them; what an interruption of `kc_save` leaves is the subject of
`JuliusOS.Keychain.Crash`.

`keychain_survives` says that the map is that of the whole history, over all the daemons there have
been. What is loaded is the saved table up to the stale slots and the times (`reload`), the key is
drawn once and kept, and whatever a request changes it also saves, so that the file is always the
table of the daemon (`Kept`).

The file is not written before the first change, and a daemon that cannot open it starts on an empty
table and overwrites it with the next add. This is why a start has to open the file.
-/

open CString StructLayout

namespace JuliusOS.Keychain

/-! ### Starting -/

/-- What the environment contributes to a start. -/
structure StartEnv where
  /-- Whether `fopen` of the key file succeeds, for reading or for writing. -/
  fopenKey : Bool
  /-- The bytes `RAND_bytes` puts into `kc_key`. -/
  rand : Buf 32
  /-- Whether `fopen(KC_DB_FILE, "rb")` succeeds, if there is the file. -/
  fopenDb : Bool

/-- `kc_init_key`, from the contents of the key file: the key and the contents afterwards. It is
`none` where the daemon exits. -/
def kcInitKey (env : StartEnv) (keyFile : Option Bytes) : Option (Bytes × Bytes) :=
  match keyFile with
  | some file =>
    if env.fopenKey then some (Bytes.ljust 32 0 (file.take 32), file) else none
  | none => if env.fopenKey then some (env.rand.bytes, env.rand.bytes) else none

/-- `items` and `item_count` after `kc_load`. -/
def Loaded.packed (t : Loaded) (h : t.itemCount ≤ kcMaxItems) :
    PackedTable KeychainItem kcMaxItems where
  slots := (List.range kcMaxItems).map fun i ↦ .ofSlot (t.slot i)
  count := t.itemCount.toNat
  length_slots := (List.length_map _).trans List.length_range
  count_le := Int.toNat_le.2 h

/-- The table of a daemon that has loaded the database, if the count is that of a table. -/
def Loaded.table (t : Loaded) : Option (PackedTable KeychainItem kcMaxItems) :=
  if h : 0 ≤ t.itemCount ∧ t.itemCount ≤ kcMaxItems then some (t.packed h.2) else none

/-- `main` up to the loop: the daemon, and the contents of the key file. -/
def kcMain (env : StartEnv) (keyFile : Option Bytes) (db : Option KcDb) : Option (Store × Bytes) :=
  (kcInitKey env keyFile).bind fun key ↦
    (kcLoad (if env.fopenDb then db.map KcDb.bytes else none)).bind fun t ↦
      t.table.map fun items ↦ (⟨items, key.1, db⟩, key.2)

/-! ### Daemons that come and go -/

/-- The files, the daemon and what it has been asked. -/
structure System where
  /-- The contents of `keychain.key`. -/
  keyFile : Option Bytes
  /-- The contents of `KC_DB_FILE`. -/
  db : Option KcDb
  /-- The daemon that runs. -/
  store : Option Store
  /-- The requests that any daemon has answered. -/
  history : History

namespace System

/-- Before the first start. -/
def init : System := ⟨none, none, none, []⟩

/-- A step of the system. -/
inductive Label where
  /-- The daemon is started. -/
  | start (env : StartEnv)
  /-- It answers a request. -/
  | request (env : Env) (req : KeychainRequest)
  /-- It is stopped, between two requests. -/
  | stop

/-- The daemon is started, or exits at once. -/
def start (env : StartEnv) (s : System) : System :=
  match kcMain env s.keyFile s.db with
  | some (st, key) => { s with keyFile := some key, store := some st }
  | none => s

/-- The daemon that runs answers a request. -/
def request (A : Gcm) (env : Env) (req : KeychainRequest) (s : System) : Option System :=
  s.store.bind fun st ↦ (handleKcRequest A env st req).map fun out ↦
    { s with
      db := out.1.db
      store := some out.1
      history := s.history ++ [(req, out.2)] }

/-- A step. There is one daemon at a time. -/
def step (A : Gcm) (s : System) : Label → Option System
  | .start env => if s.store.isNone then some (s.start env) else none
  | .request env req => s.request A env req
  | .stop => some { s with store := none }

/-- The system as a machine. -/
def machine (A : Gcm) : Machine System Label where
  Init s := s = init
  step := step A

theorem step_start {A : Gcm} {s : System} {env : StartEnv} (h : s.store = none) :
    (machine A).step s (.start env) = some (s.start env) := by
  show (if s.store.isNone then some (s.start env) else none) = _
  rw [h, Option.isNone_none, if_pos rfl]

theorem step_request {A : Gcm} {s : System} {env : Env} {req : KeychainRequest} :
    (machine A).step s (.request env req) = s.request A env req := rfl

theorem step_stop {A : Gcm} {s : System} :
    (machine A).step s .stop = some { s with store := none } := rfl

/-- The requests are valid and their calls succeed, and a start opens the database. -/
def Label.Fine : Label → Prop
  | .start env => env.fopenDb = true
  | .request env req => req.Valid ∧ env.ctxNew = true ∧ env.fopenDb = true
  | .stop => True

end System

/-! ### What is loaded -/

variable {A : Gcm} {st st' : Store} {it : KeychainItem} {hist : History}

/-- An item that is saved and loaded. -/
def KeychainItem.reload (it : KeychainItem) : KeychainItem := .ofSlot it.image.bytes

namespace KeychainItem

/-- A buffer of an item is a field of it in memory. -/
theorem fieldAt_image {n i off : ℕ} {buf : Buf n} (hp : it.parts[i]? = some buf.bytes)
    (hoff : off = (it.parts.take i).flatten.length) : fieldAt n off it.image.bytes = buf := by
  refine Buf.ext ?_
  show Bytes.ljust n 0 (Bytes.slice it.parts.flatten off n) = buf.bytes
  rw [Bytes.slice_flatten_of_getElem? hp hoff buf.length_bytes.symm, Bytes.ljust, buf.length_bytes,
    Nat.sub_self, List.replicate_zero, List.append_nil]

/-- And so is a number. -/
theorem slice_image {w i off : ℕ} {z : ℤ} (hp : it.parts[i]? = some (Bytes.leInt w z))
    (hoff : off = (it.parts.take i).flatten.length) :
    Bytes.slice it.image.bytes off w = Bytes.leInt w z :=
  Bytes.slice_flatten_of_getElem? hp hoff (Bytes.length_leInt w z).symm

theorem reload_service (it : KeychainItem) : it.reload.service = it.service :=
  fieldAt_image (i := 0) rfl rfl

theorem reload_account (it : KeychainItem) : it.reload.account = it.account :=
  fieldAt_image (i := 1) rfl (by simp [parts, Buf.length_bytes])

theorem reload_label (it : KeychainItem) : it.reload.label = it.label :=
  fieldAt_image (i := 2) rfl (by simp [parts, Buf.length_bytes])

theorem reload_encrypted (it : KeychainItem) : it.reload.encrypted = it.encrypted :=
  fieldAt_image (i := 3) rfl (by simp [parts, Buf.length_bytes])

theorem slice_encLen (it : KeychainItem) :
    Bytes.slice it.image.bytes 768 4 = Bytes.leInt 4 it.encLen :=
  slice_image (i := 4) rfl (by simp [parts, Buf.length_bytes])

theorem reload_iv (it : KeychainItem) : it.reload.iv = it.iv :=
  fieldAt_image (i := 5) rfl (by simp [parts, Buf.length_bytes])

theorem reload_tag (it : KeychainItem) : it.reload.tag = it.tag :=
  fieldAt_image (i := 6) rfl (by simp [parts, Buf.length_bytes, kcIvSize])

theorem slice_created (it : KeychainItem) :
    Bytes.slice it.image.bytes 808 8 = Bytes.leInt 8 it.created :=
  slice_image (i := 8) rfl (by simp [parts, Buf.length_bytes, kcIvSize])

theorem slice_modified (it : KeychainItem) :
    Bytes.slice it.image.bytes 816 8 = Bytes.leInt 8 it.modified :=
  slice_image (i := 9) rfl (by simp [parts, Buf.length_bytes, kcIvSize])

/-- What is read as an integer is written again as it was. -/
theorem leInt_ofLeInt_leInt (w : ℕ) (z : ℤ) :
    Bytes.leInt w (Bytes.ofLeInt (Bytes.leInt w z)) = Bytes.leInt w z := by
  have h := Bytes.leInt_ofLeInt (Bytes.leInt w z)
  rwa [Bytes.length_leInt] at h

/-- **An item that was loaded is saved as it was.** -/
theorem image_reload (it : KeychainItem) : it.reload.image.bytes = it.image.bytes := by
  have hencLen : Bytes.leInt 4 it.reload.encLen = Bytes.leInt 4 it.encLen :=
    (congrArg _ (congrArg _ it.slice_encLen)).trans (leInt_ofLeInt_leInt 4 _)
  have hcreated : Bytes.leInt 8 it.reload.created = Bytes.leInt 8 it.created :=
    (congrArg _ (congrArg _ it.slice_created)).trans (leInt_ofLeInt_leInt 8 _)
  have hmodified : Bytes.leInt 8 it.reload.modified = Bytes.leInt 8 it.modified :=
    (congrArg _ (congrArg _ it.slice_modified)).trans (leInt_ofLeInt_leInt 8 _)
  show it.reload.parts.flatten = it.parts.flatten
  rw [parts, parts, reload_service, reload_account, reload_label, reload_encrypted, hencLen,
    reload_iv, reload_tag, hcreated, hmodified]

theorem key_reload (it : KeychainItem) : it.reload.key = it.key := by
  rw [key, key, reload_service, reload_account]

end KeychainItem

theorem NamesTerminated.reload (h : NamesTerminated it) : NamesTerminated it.reload := by
  rwa [NamesTerminated, it.reload_service, it.reload_account]

/-- An item that opens has the length of some data. -/
theorem Opens.encLen {kcKey v : Bytes} (h : Opens A kcKey it v) :
    0 ≤ it.encLen ∧ it.encLen ≤ 512 := by
  obtain ⟨_, hopen⟩ := h
  by_contra hno
  have hnone : openItem A .fine kcKey it = none :=
    openItem_eq_none_iff.2 fun hlen ↦ hno (hlen.resolve_left (by decide))
  rw [hopen .fine rfl] at hnone
  cases hnone

/-- **An item that opens** still does after it was saved and loaded. -/
theorem Opens.reload {kcKey v : Bytes} (h : Opens A kcKey it v) : Opens A kcKey it.reload v := by
  obtain ⟨n, hn⟩ := Int.eq_ofNat_of_zero_le h.encLen.1
  have hle : n ≤ 512 := Int.ofNat_le.1 (hn ▸ h.encLen.2)
  have hencLen : it.reload.encLen = it.encLen := by
    show Bytes.ofLeInt (Bytes.slice it.image.bytes 768 4) = it.encLen
    rw [it.slice_encLen, hn, Bytes.leInt_natCast (hle.trans_lt (by decide))]
    exact Bytes.ofLeInt_le_iff.2 (hle.trans_lt (by decide))
  obtain ⟨hlen, hopen⟩ := h
  refine ⟨hlen, fun env hctx ↦ (Eq.trans ?_ (hopen env hctx))⟩
  simp only [openItem, hencLen, it.reload_encrypted, it.reload_iv, it.reload_tag]

/-! ### The table that is loaded -/

/-- A saved table is loaded as far as it is in use. -/
theorem kcLoad_bytes {db : KcDb} (hdb : db.Valid) :
    kcLoad (some db.bytes) =
      some ⟨db.items.length, (db.items.map fun it ↦ it.image.bytes).flatten⟩ := by
  have hcount := KcDb.ofLe_take_bytes hdb
  rw [kcLoad_eq (hcount.le.trans hdb.le), hcount, hdb.itemCount, KcDb.bytes,
    List.drop_left' (Bytes.length_le 4 _),
    List.take_of_length_le (length_flatten_images db.items).le]

variable {its : List KeychainItem}

/-- A slot in use is an item of the file. -/
theorem slot_of_getElem? {n : ℤ} {i : ℕ} (h : its[i]? = some it) :
    Loaded.slot ⟨n, (its.map fun it ↦ it.image.bytes).flatten⟩ i = it.image.bytes := by
  have hread : Bytes.slice (its.map fun it ↦ it.image.bytes).flatten (itemSize * i) itemSize =
      it.image.bytes := by
    obtain ⟨hi, -⟩ := List.getElem?_eq_some_iff.1 h
    refine Bytes.slice_flatten_of_getElem? (i := i) (by rw [List.getElem?_map, h]; rfl) ?_
      it.length_image.symm
    rw [← List.map_take, length_flatten_images, List.length_take_of_le hi.le]
  show Bytes.ljust itemSize 0 (Bytes.slice _ (itemSize * i) itemSize) = _
  rw [hread, Bytes.ljust, it.length_image, Nat.sub_self, List.replicate_zero, List.append_nil]

/-- The others are zero. -/
theorem slot_of_le {n : ℤ} {i : ℕ} (h : its.length ≤ i) :
    Loaded.slot ⟨n, (its.map fun it ↦ it.image.bytes).flatten⟩ i = List.replicate itemSize 0 := by
  have hread : Bytes.slice (its.map fun it ↦ it.image.bytes).flatten (itemSize * i) itemSize =
      [] := by
    rw [Bytes.slice, List.drop_of_length_le (by
      rw [length_flatten_images]
      exact Nat.mul_le_mul_left _ h), List.take_nil]
  rw [Loaded.slot, hread, Bytes.ljust, List.length_nil, Nat.sub_zero, List.nil_append]

theorem bytes_fieldAt_replicate {n off k : ℕ} (h : off + n ≤ k) :
    (fieldAt n off (List.replicate k 0)).bytes = List.replicate n 0 := by
  show Bytes.ljust n 0 (((List.replicate k 0).drop off).take n) = _
  rw [List.drop_replicate, List.take_replicate, Nat.min_eq_left (by omega),
    Bytes.ljust, List.length_replicate, Nat.sub_self, List.replicate_zero, List.append_nil]

theorem namesTerminated_ofSlot_replicate {k : ℕ} (h : 128 ≤ k) :
    NamesTerminated (.ofSlot (List.replicate k 0)) := by
  have hservice : (fieldAt 64 0 (List.replicate k 0)).bytes = List.replicate 64 0 :=
    bytes_fieldAt_replicate (by omega)
  have haccount : (fieldAt 64 64 (List.replicate k 0)).bytes = List.replicate 64 0 :=
    bytes_fieldAt_replicate h
  rw [NamesTerminated, KeychainItem.ofSlot, hservice, haccount]
  exact ⟨lastZero_replicate (by decide), lastZero_replicate (by decide)⟩

theorem Loaded.slots_packed {t : Loaded} (h : t.itemCount ≤ kcMaxItems) :
    (t.packed h).slots = (List.range kcMaxItems).map fun i ↦ .ofSlot (t.slot i) := by
  rw [packed]

/-- **The table that is loaded** has the items of the file in use. -/
theorem Loaded.live_packed {t : Loaded} (h : t.itemCount ≤ kcMaxItems)
    (hcount : t.itemCount = its.length)
    (hitems : t.items = (its.map fun it ↦ it.image.bytes).flatten) :
    (t.packed h).live = its.map KeychainItem.reload := by
  have hle : its.length ≤ kcMaxItems := Int.ofNat_le.1 (hcount ▸ h)
  have hslot (i : ℕ) (hi : i < its.length) : t.slot i = its[i].image.bytes := by
    obtain ⟨count, items⟩ := t
    obtain rfl : items = _ := hitems
    exact slot_of_getElem? (List.getElem?_eq_getElem hi)
  have hlen : (t.packed h).count = its.length := by
    show t.itemCount.toNat = its.length
    rw [hcount, Int.toNat_natCast]
  rw [PackedTable.live, hlen, slots_packed]
  refine List.ext_getElem? fun i ↦ ?_
  rw [List.getElem?_take, List.getElem?_map, List.getElem?_map]
  split
  next hi =>
    rw [List.getElem?_range (hi.trans_le hle), List.getElem?_eq_getElem hi, Option.map_some,
      Option.map_some, hslot i hi]
    rfl
  next hi => rw [List.getElem?_eq_none (Nat.le_of_not_lt hi), Option.map_none]

theorem Loaded.namesTerminated_packed {t : Loaded} (h : t.itemCount ≤ kcMaxItems)
    (hitems : t.items = (its.map fun it ↦ it.image.bytes).flatten)
    (hnt : ∀ it ∈ its, NamesTerminated it) : (t.packed h).AllSlots NamesTerminated := by
  have hslot (i : ℕ) : NamesTerminated (.ofSlot (t.slot i)) := by
    obtain ⟨count, items⟩ := t
    obtain rfl : items = _ := hitems
    rcases Nat.lt_or_ge i its.length with hi | hi
    · rw [slot_of_getElem? (List.getElem?_eq_getElem hi)]
      exact (hnt _ (List.getElem_mem hi)).reload
    · rw [slot_of_le hi]
      exact namesTerminated_ofSlot_replicate (by decide)
  rw [PackedTable.AllSlots, slots_packed, List.forall_mem_map]
  exact fun i _ ↦ hslot i

/-- A table whose items are those of a faithful one, saved and loaded. -/
theorem Faithful.reload (h : Faithful A (st, hist)) (hkey : st'.kcKey = st.kcKey)
    (hlive : st'.items.live = st.items.live.map KeychainItem.reload)
    (hnt : st'.items.AllSlots NamesTerminated) : Faithful A (st', hist) := by
  have hkeys : st'.items.live.map KeychainItem.key = st.items.live.map KeychainItem.key := by
    rw [hlive, List.map_map]
    exact List.map_congr_left fun (it : KeychainItem) _ ↦ it.key_reload
  refine ⟨⟨hnt, ?_⟩, fun k ↦ ?_⟩
  · have hnd := h.1.keysNodup
    rwa [PackedTable.KeysNodup, ← hkeys] at hnd
  · have hk : Holds A st.kcKey (st.lookup k) (latest k hist) := h.2 k
    show Holds A st'.kcKey (st'.lookup k) (latest k hist)
    rw [hkey, Store.lookup, PackedTable.lookup_of_live_eq_map hlive fun it _ ↦ it.key_reload]
    show Holds A st.kcKey ((st.lookup k).map KeychainItem.reload) (latest k hist)
    cases hlook : st.lookup k with
    | none =>
      rw [hlook] at hk
      exact hk
    | some it =>
      cases hv : latest k hist with
      | none =>
        rw [hlook, hv] at hk
        exact absurd hk id
      | some v =>
        rw [hlook, hv] at hk
        exact Opens.reload hk

/-- An empty table is faithful under any key. -/
theorem Faithful.of_live_nil (h : Faithful A (st, hist)) (hnil : st.items.live = [])
    (kcKey : Bytes) : Faithful A ({ st with kcKey }, hist) := by
  refine ⟨⟨h.1.terminated, h.1.keysNodup⟩, fun k ↦ ?_⟩
  have hk : Holds A st.kcKey (st.lookup k) (latest k hist) := h.2 k
  have hlook : st.lookup k = none := by
    rw [Store.lookup, PackedTable.lookup, hnil]
    rfl
  show Holds A kcKey (st.lookup k) (latest k hist)
  rw [hlook] at hk ⊢
  cases hv : latest k hist with
  | none => trivial
  | some v =>
    rw [hv] at hk
    exact absurd hk id

/-! ### The invariant -/

/-- The table that the files keep, whether or not a daemon runs. -/
structure Kept (A : Gcm) (s : System) (st : Store) : Prop where
  /-- It implements the map of the history. -/
  faithful : Faithful A (st, s.history)
  /-- It knows what is in the file. -/
  db : st.db = s.db
  /-- It is what is in the file, or there is no file and it is empty. -/
  file : s.db.map KcDb.bytes = some st.table.bytes ∨ s.db = none ∧ st.items.live = []
  /-- Its key is the one in the key file, or no daemon has ever run. -/
  keyFile : s.keyFile = some st.kcKey ∧ st.kcKey.length = 32 ∨
    s.keyFile = none ∧ s.store = none ∧ st.items.live = []
  /-- It is that of the daemon that runs. -/
  store : s.store = none ∨ s.store = some st

variable {s s' : System} {env : Env} {req : KeychainRequest}

theorem kept_init (A : Gcm) : Kept A .init (.init []) where
  faithful := ⟨Store.inv_init [], represents_init A []⟩
  db := rfl
  file := Or.inr ⟨rfl, rfl⟩
  keyFile := Or.inr ⟨rfl, rfl, rfl⟩
  store := Or.inl rfl

/-- A saved table and what a daemon loads from it have the same bytes. -/
theorem Store.bytes_table_of_reload
    (hlive : st'.items.live = st.items.live.map KeychainItem.reload) :
    st'.table.bytes = st.table.bytes := by
  have hcount : st'.items.count = st.items.count := by
    rw [← PackedTable.length_live, hlive, List.length_map, PackedTable.length_live]
  show Bytes.le 4 st'.items.count ++ (st'.items.live.map _).flatten =
    Bytes.le 4 st.items.count ++ (st.items.live.map _).flatten
  rw [hcount, hlive, List.map_map]
  exact congrArg _ (congrArg _ (List.map_congr_left fun it _ ↦ it.image_reload))

/-- What a daemon that is started loads. -/
theorem Kept.exists_loaded (h : Kept A s st) :
    ∃ t, kcLoad (s.db.map KcDb.bytes) = some t ∧ t.itemCount = st.items.live.length ∧
      t.items = (st.items.live.map fun it ↦ it.image.bytes).flatten := by
  rcases h.file with hfile | ⟨hnone, hnil⟩
  · rw [hfile]
    exact ⟨_, kcLoad_bytes st.table_valid, rfl, rfl⟩
  · rw [hnone, hnil]
    exact ⟨_, rfl, rfl, rfl⟩

/-- The key of a daemon that is started, under which the table that is kept is faithful. -/
theorem Kept.exists_key (h : Kept A s st) {env : StartEnv} (hkey : env.fopenKey = true) :
    ∃ kcKey, kcInitKey env s.keyFile = some (kcKey, kcKey) ∧ kcKey.length = 32 ∧
      Faithful A ({ st with kcKey }, s.history) := by
  rcases h.keyFile with ⟨hfile, hlen⟩ | ⟨hnone, -, hnil⟩
  · refine ⟨st.kcKey, ?_, hlen, h.faithful⟩
    rw [hfile]
    simp only [kcInitKey, hkey, if_true, Bytes.ljust, List.take_of_length_le hlen.le, hlen,
      Nat.sub_self, List.replicate_zero, List.append_nil]
  · refine ⟨env.rand.bytes, ?_, env.rand.length_bytes, h.faithful.of_live_nil hnil _⟩
    rw [hnone]
    simp only [kcInitKey, hkey, if_true]

/-- **A start** loads the table that the files keep. -/
theorem Kept.start (h : Kept A s st) {env : StartEnv} (hkey : env.fopenKey = true)
    (hdb : env.fopenDb = true) :
    ∃ st', (s.start env).store = some st' ∧ Kept A (s.start env) st' := by
  obtain ⟨kcKey, hinit, hlen, hfaithful⟩ := h.exists_key hkey
  obtain ⟨t, ht, hcount, hitems⟩ := h.exists_loaded
  have hrange : 0 ≤ t.itemCount ∧ t.itemCount ≤ kcMaxItems := by
    have := st.items.count_le
    rw [hcount, PackedTable.length_live]
    omega
  have hlive := Loaded.live_packed hrange.2 hcount hitems
  have hnt := Loaded.namesTerminated_packed hrange.2 hitems
    fun it hit ↦ h.faithful.1.terminated.of_mem_live hit
  have htable : t.table = some (t.packed hrange.2) := dif_pos hrange
  generalize t.packed hrange.2 = items at hlive hnt htable
  have hmain : kcMain env s.keyFile s.db = some (⟨items, kcKey, s.db⟩, kcKey) := by
    rw [kcMain, hinit, hdb, if_pos rfl, ht, Option.bind_some, Option.bind_some, htable,
      Option.map_some]
  have hstart : s.start env =
      { s with keyFile := some kcKey, store := some ⟨items, kcKey, s.db⟩ } := by
    rw [System.start, hmain]
  rw [hstart]
  refine ⟨⟨items, kcKey, s.db⟩, rfl, hfaithful.reload rfl hlive hnt, rfl, ?_, Or.inl ⟨rfl, hlen⟩,
    Or.inr rfl⟩
  rcases h.file with hfile | ⟨hnone, hnil⟩
  · exact Or.inl (hfile.trans (congrArg some (Store.bytes_table_of_reload hlive).symm))
  · exact Or.inr ⟨hnone, by rw [hlive, hnil, List.map_nil]⟩

/-- A start that fails changes nothing. -/
theorem System.start_of_fopenKey (s : System) {env : StartEnv} (hkey : env.fopenKey = false) :
    s.start env = s := by
  have hinit : kcInitKey env s.keyFile = none := by
    cases hfile : s.keyFile <;> simp [kcInitKey, hkey]
  rw [start, kcMain, hinit, Option.bind_none]

/-- **A request** that changes the table saves it. -/
theorem Kept.request (h : Kept A s st) (hstore : s.store = some st) (hv : req.Valid)
    (hctx : env.ctxNew = true) (hdb : env.fopenDb = true)
    (hstep : s.request A env req = some s') : ∃ st', Kept A s' st' := by
  obtain ⟨st', resp, hhandle, hfaithful, hkey, -⟩ := handleKcRequest_spec hctx h.faithful hv
  have hs' : s' = ⟨s.keyFile, st'.db, some st', s.history ++ [(req, resp)]⟩ := by
    rw [System.request, hstore, Option.bind_some, hhandle, Option.map_some] at hstep
    exact (Option.some.inj hstep).symm
  have hkeyFile : s.keyFile = some st'.kcKey ∧ st'.kcKey.length = 32 := by
    rw [hkey]
    refine h.keyFile.resolve_right fun hno ↦ ?_
    rw [hstore] at hno
    cases hno.2.1
  have hfile : st'.db.map KcDb.bytes = some st'.table.bytes ∨
      st'.db = none ∧ st'.items.live = [] := by
    by_cases hsaves : Saves st req
    · obtain ⟨items, resp', hsaved⟩ := handleKcRequest_of_saves hsaves hhandle
      obtain ⟨rfl, -⟩ := Prod.ext_iff.1 (Option.some.inj (hhandle.symm.trans (hsaved st.db)))
      left
      rw [kcSave, if_pos hdb]
      rfl
    · obtain ⟨rfl, -⟩ := handleKcRequest_of_not_saves hsaves hhandle
      rw [h.db]
      exact h.file
  rw [hs']
  exact ⟨st', hfaithful, rfl, hfile, Or.inl hkeyFile, Or.inr rfl⟩

/-- **The step lemma.** -/
theorem Kept.step {l : System.Label} (h : Kept A s st) (hfine : l.Fine)
    (hstep : (System.machine A).step s l = some s') : ∃ st', Kept A s' st' := by
  cases l with
  | start env =>
    have hs' : s' = s.start env := by
      rcases h.store with hnone | hsome
      · rw [System.step_start hnone] at hstep
        exact (Option.some.inj hstep).symm
      · change (if s.store.isNone then some (s.start env) else none) = some s' at hstep
        rw [hsome] at hstep
        cases hstep
    rw [hs']
    cases hkey : env.fopenKey with
    | true =>
      obtain ⟨st', -, hkept⟩ := h.start hkey hfine
      exact ⟨st', hkept⟩
    | false =>
      rw [s.start_of_fopenKey hkey]
      exact ⟨st, h⟩
  | request env req =>
    obtain ⟨hv, hctx, hdb⟩ := hfine
    rcases h.store with hnone | hsome
    · rw [System.step_request, System.request, hnone] at hstep
      cases hstep
    · exact h.request hsome hv hctx hdb hstep
  | stop =>
    obtain rfl := Option.some.inj hstep
    refine ⟨st, h.faithful, h.db, h.file, h.keyFile.imp_right fun hno ↦ ?_, Or.inl rfl⟩
    exact ⟨hno.1, rfl, hno.2.2⟩

/-- **The run lemma.** -/
theorem exists_kept_of_run {ls : List System.Label} (hfine : ∀ l ∈ ls, l.Fine)
    (hrun : (System.machine A).run .init ls = some s) : ∃ st, Kept A s st :=
  Machine.invariant_of_forall (I := fun s ↦ ∃ st, Kept A s st) (P := System.Label.Fine)
    (fun _ _ _ ⟨_, h⟩ hl hstep ↦ h.step hl hstep) ⟨_, kept_init A⟩ hfine hrun

/-- The daemon answers every valid request, and a get with the value of its key under the
history. -/
def Serves (A : Gcm) (st : Store) (hist : History) : Prop :=
  ∀ (env : Env) (req : KeychainRequest), env.ctxNew = true → req.Valid →
    ∃ st' resp, handleKcRequest A env st req = some (st', resp) ∧
      (req.op = kcGet → Answers resp (latest req.key hist))

theorem Faithful.serves (h : Faithful A (st, hist)) : Serves A st hist := by
  intro env req hctx hv
  obtain ⟨st', resp, hhandle, -⟩ := handleKcRequest_spec hctx h hv
  refine ⟨st', resp, hhandle, fun hop ↦ ?_⟩
  obtain ⟨resp', hget, hanswers⟩ := h.2.get hctx req
  rw [handleKcRequest_get A env st hop, hget] at hhandle
  obtain ⟨-, rfl⟩ := Prod.ext_iff.1 (Option.some.inj hhandle)
  exact hanswers

/-- **The keychain survives its daemons.** After any run of starts, valid requests and stops, in
which cipher calls succeed and `KC_DB_FILE` opens, the daemon that runs answers with the values of
the whole history, and so does one that is started now. -/
theorem keychain_survives (A : Gcm) {ls : List System.Label} {s : System}
    (hfine : ∀ l ∈ ls, l.Fine) (hrun : (System.machine A).run .init ls = some s) :
    (∀ st, s.store = some st → Serves A st s.history) ∧
      ∀ env : StartEnv, env.fopenKey = true → env.fopenDb = true →
        ∃ st, (s.start env).store = some st ∧ Serves A st s.history := by
  obtain ⟨st, hkept⟩ := exists_kept_of_run hfine hrun
  refine ⟨fun st' hst' ↦ ?_, fun env hkey hdb ↦ ?_⟩
  · rcases hkept.store with hnone | hsome
    · cases hnone.symm.trans hst'
    · obtain rfl := Option.some.inj (hsome.symm.trans hst')
      exact hkept.faithful.serves
  · obtain ⟨st', hstore, hkept'⟩ := hkept.start hkey hdb
    have hhist : (s.start env).history = s.history := by
      rw [System.start]
      split <;> rfl
    refine ⟨st', hstore, ?_⟩
    rw [← hhist]
    exact hkept'.faithful.serves

/-- A start in which all calls succeed. -/
def StartEnv.fine : StartEnv := ⟨true, .zero 32, true⟩

/-- What one daemon was given, the next one has. -/
theorem keychain_survives_addLetter :
    ∃ s resp, (System.machine Gcm.transparent).run .init
        [.start .fine, .request .fine addLetter, .stop] = some s ∧
      s.history = [(addLetter, resp)] ∧
      ∃ st, (s.start .fine).store = some st ∧ Serves Gcm.transparent st s.history := by
  have hnothing : (System.machine Gcm.transparent).run .init [] = some .init := rfl
  obtain ⟨-, hinit⟩ := keychain_survives Gcm.transparent
    (fun _ hl ↦ absurd hl List.not_mem_nil) hnothing
  obtain ⟨st, hstore, hserves⟩ := hinit .fine rfl rfl
  obtain ⟨st', resp, hhandle, -⟩ := hserves .fine addLetter rfl addLetter_valid
  have hhist : (System.init.start .fine).history = [] := by
    rw [System.start]
    split <;> rfl
  have hrequest : (System.init.start .fine).request Gcm.transparent .fine addLetter =
      some { System.init.start .fine with
        db := st'.db
        store := some st'
        history := [(addLetter, resp)] } := by
    rw [System.request, hstore, Option.bind_some, hhandle, Option.map_some, hhist,
      List.nil_append]
  have hrun : (System.machine Gcm.transparent).run .init
      [.start .fine, .request .fine addLetter, .stop] = some { System.init.start .fine with
        db := st'.db
        store := none
        history := [(addLetter, resp)] } := by
    rw [Machine.run_cons, System.step_start rfl, Option.bind_some, Machine.run_cons,
      System.step_request, hrequest, Option.bind_some, Machine.run_cons, System.step_stop,
      Option.bind_some, Machine.run_nil]
  have hfine : ∀ l ∈ [System.Label.start .fine, .request .fine addLetter, .stop], l.Fine := by
    simp only [List.forall_mem_cons, System.Label.Fine]
    exact ⟨rfl, ⟨addLetter_valid, rfl, rfl⟩, trivial, fun _ hl ↦ absurd hl List.not_mem_nil⟩
  exact ⟨_, resp, hrun, rfl, (keychain_survives Gcm.transparent hfine hrun).2 .fine rfl rfl⟩

end JuliusOS.Keychain
