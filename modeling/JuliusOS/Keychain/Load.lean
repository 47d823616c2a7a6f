import JuliusOS.Keychain.Crash

/-!
# What the keychain loads

`kc_load` believes the count in front of `keychain.db`: it is the bound of every later loop, the
index of the next free slot and the number of items that are read and written. Only a count above
the maximum is refused.

Here the state is the array byte by byte and the count is an `int`, so that a count may be negative
and a name may run on into the next item. A request has its list of accesses, the stretches of
`items` that the handler reads and writes; a step that leaves the array is not enabled.

`kc_load_iff` says which files are loaded well: those whose count is at most the maximum and whose
items are all there, those whose count is zero, and those with a greater count. A negative count and
a file that is too short are not found out.
-/

open CString StructLayout

namespace JuliusOS.Keychain

/-! ### The array -/

/-- A stretch of `items`: the number of its first byte and its length. -/
structure Access where
  /-- The first byte. -/
  start : ℤ
  /-- How many there are. -/
  length : ℕ

/-- The stretch lies in the array. -/
def Access.InArray (a : Access) : Prop := 0 ≤ a.start ∧ a.start + a.length ≤ itemSize * kcMaxItems

instance : DecidablePred Access.InArray :=
  fun a ↦ inferInstanceAs (Decidable (0 ≤ a.start ∧ a.start + a.length ≤ itemSize * kcMaxItems))

/-- `items` and `item_count`. -/
structure Memory where
  /-- `item_count`. -/
  itemCount : ℤ
  /-- The bytes of `items`. -/
  items : Buf (itemSize * kcMaxItems)

/-- Bytes written into a buffer that has room for them. -/
def writeAt {n : ℕ} (buf : Buf n) (off : ℕ) (src : Bytes) : Buf n :=
  if h : off + src.length ≤ n then buf.write off src h else buf

/-- The bytes of a field of an item. -/
def fieldAt (n off : ℕ) (slot : Bytes) : Buf n where
  bytes := Bytes.ljust n 0 (Bytes.slice slot off n)
  length_bytes := Bytes.length_ljust_of_le (List.length_take_le _ _)

/-- The item that some bytes of the array are. -/
def KeychainItem.ofSlot (slot : Bytes) : KeychainItem where
  service := fieldAt 64 0 slot
  account := fieldAt 64 64 slot
  label := fieldAt 128 128 slot
  encrypted := fieldAt 512 256 slot
  encLen := Bytes.ofLeInt (Bytes.slice slot 768 4)
  iv := fieldAt kcIvSize 772 slot
  tag := fieldAt 16 788 slot
  created := Bytes.ofLeInt (Bytes.slice slot 808 8)
  modified := Bytes.ofLeInt (Bytes.slice slot 816 8)

namespace Memory

variable (m : Memory)

/-- `items[i].service` and what follows it. -/
def service (i : ℕ) : Bytes := m.items.bytes.drop (itemSize * i)

/-- `items[i].account` and what follows it. -/
def account (i : ℕ) : Bytes := m.items.bytes.drop (itemSize * i + 64)

/-- `items[i]`. -/
def item (i : ℕ) : KeychainItem := .ofSlot (Bytes.slice m.items.bytes (itemSize * i) itemSize)

/-- The fields of `items[i]` are assigned, not its padding. -/
def setItem (i : ℕ) (it : KeychainItem) : Memory :=
  { m with
    items := writeAt (writeAt m.items (itemSize * i) (it.parts.take 7).flatten) (itemSize * i + 808)
      (it.parts.drop 8).flatten }

/-- `memmove(&items[i], &items[i+1], (item_count-i-1)*sizeof(KeychainItem)); item_count--`. -/
def removeItem (i : ℕ) : Memory where
  itemCount := m.itemCount - 1
  items := writeAt m.items (itemSize * i)
    (Bytes.slice m.items.bytes (itemSize * (i + 1)) (itemSize * (m.itemCount - i - 1).toNat))

@[simp] theorem setItem_itemCount (i : ℕ) (it : KeychainItem) :
    (m.setItem i it).itemCount = m.itemCount := by
  rw [setItem]

@[simp] theorem removeItem_itemCount (i : ℕ) :
    (m.removeItem i).itemCount = m.itemCount - 1 := by
  rw [removeItem]

/-- The comparison of `kc_find`. -/
def matchesKey (svc acc : Bytes) (i : ℕ) : Bool :=
  strcmpEq (m.service i) svc && strcmpEq (m.account i) acc

/-- `kc_find`. -/
def kcFind (svc acc : Bytes) : Option ℕ :=
  (List.range m.itemCount.toNat).find? (m.matchesKey svc acc)

end Memory

/-- The array of a daemon that has loaded the database: zero behind what was read. -/
def Loaded.memory (t : Loaded) : Memory where
  itemCount := t.itemCount
  items := fieldAt (itemSize * kcMaxItems) 0 t.items

/-! ### Accesses -/

/-- An `int` or a `long` that is passed as a `size_t`. -/
def sizeT (z : ℤ) : ℕ := (z % 2 ^ 64).toNat

/-- How many bytes of `a` are read by `strcmp(a, b)`: up to a difference or a NUL, and behind the
end of the array where there is none. -/
def strcmpReads : Bytes → Bytes → ℕ
  | a :: as, b :: bs => if a = b ∧ a ≠ 0 then strcmpReads as bs + 1 else 1
  | _, _ => 1

/-- How many bytes of `a` a `"%s"` reads. -/
def strlenReads (a : Bytes) : ℕ := (cstr a).length + 1

/-- A stretch of `items[i]`. -/
def fieldAccess (i : ℤ) (off length : ℕ) : Access := ⟨itemSize * i + off, length⟩

namespace Memory

variable (m : Memory)

/-- What a comparison reads. The accounts are compared only if the services are equal. -/
def compareReads (svc acc : Bytes) (i : ℕ) : List Access :=
  fieldAccess i 0 (strcmpReads (m.service i) svc) ::
    if strcmpEq (m.service i) svc then [fieldAccess i 64 (strcmpReads (m.account i) acc)] else []

/-- What `kc_find` reads: the comparisons up to the one that succeeds. -/
def findReads (svc acc : Bytes) : List Access :=
  let tried := match m.kcFind svc acc with
    | none => m.itemCount.toNat
    | some i => i + 1
  (List.range tried).flatMap (m.compareReads svc acc)

/-- What `kc_save` reads with a given count. -/
def saveReads (env : Env) (itemCount : ℤ) : List Access :=
  if env.fopenDb then [⟨0, itemSize * sizeT itemCount⟩] else []

/-- What the assignments to a new item write: the names, the label and `created`. -/
def nameWrites (i : ℤ) : List Access :=
  [fieldAccess i 0 63, fieldAccess i 64 63, fieldAccess i 128 127, fieldAccess i 808 8]

/-- What encryption writes, and the assignments behind it: the vector, as much ciphertext as there
is data and the tag, and `enc_len` and `modified`. -/
def encryptWrites (env : Env) (req : KeychainRequest) (i : ℤ) : List Access :=
  (if env.ctxNew then [fieldAccess i 256 (sizeT req.dataLen), fieldAccess i 788 16] else []) ++
    [fieldAccess i 772 kcIvSize, fieldAccess i 768 4, fieldAccess i 816 8]

/-- What `kc_decrypt` reads of an item. -/
def decryptReads (env : Env) (i : ℕ) : List Access :=
  if env.ctxNew then
    [fieldAccess i 256 (sizeT (m.item i).encLen), fieldAccess i 772 Gcm.ivLength,
      fieldAccess i 788 16]
  else []

/-- What `memmove` reads and writes. -/
def moveAccesses (i : ℕ) : List Access :=
  [fieldAccess (i + 1) 0 (sizeT ((m.itemCount - i - 1) * itemSize)),
    fieldAccess i 0 (sizeT ((m.itemCount - i - 1) * itemSize))]

/-- The accesses of `handle_kc_request` to `items`. -/
def accesses (env : Env) (req : KeychainRequest) : List Access :=
  match req.op with
  | kcAdd =>
    if kcMaxItems ≤ m.itemCount then []
    else m.findReads req.service req.account ++
      match m.kcFind req.service req.account with
      | none => nameWrites m.itemCount ++ encryptWrites env req m.itemCount ++
          saveReads env (m.itemCount + 1)
      | some i => encryptWrites env req i ++ saveReads env m.itemCount
  | kcGet =>
    m.findReads req.service req.account ++
      match m.kcFind req.service req.account with
      | none => []
      | some i => m.decryptReads env i
  | kcDelete =>
    m.findReads req.service req.account ++
      match m.kcFind req.service req.account with
      | none => []
      | some i => m.moveAccesses i ++ saveReads env (m.itemCount - 1)
  | kcList => (List.range m.itemCount.toNat).flatMap fun (i : ℕ) ↦
      [fieldAccess i 0 (strlenReads (m.service i)), fieldAccess i 64 (strlenReads (m.account i))]
  | _ => []

/-- What `handle_kc_request` makes of `items` and `item_count`, if it stays in the array. -/
def handle (A : Gcm) (kcKey : Bytes) (env : Env) (req : KeychainRequest) : Memory :=
  match req.op with
  | kcAdd =>
    if kcMaxItems ≤ m.itemCount then m
    else
      let encrypt := encryptItem A env kcKey (req.data.take req.dataLen.toNat)
        req.length_take_data_le
      match m.kcFind req.service req.account with
      | none =>
        let i := m.itemCount.toNat
        { m with itemCount := m.itemCount + 1 }.setItem i (encrypt (nameItem env req (m.item i)))
      | some i => m.setItem i (encrypt (m.item i))
  | kcDelete =>
    match m.kcFind req.service req.account with
    | none => m
    | some i => m.removeItem i
  | _ => m

end Memory

/-- The daemon after `kc_load`. -/
def loadedDaemon (A : Gcm) (kcKey : Bytes) : Machine Memory (Env × KeychainRequest) where
  Init m := ∃ file t, kcLoad (some file) = some t ∧ m = t.memory
  step m l := if ∀ a ∈ m.accesses l.1 l.2, a.InArray then some (m.handle A kcKey l.1 l.2) else none

/-! ### Robustness -/

/-- The count in front of a file. -/
def fileCount (file : Bytes) : ℤ := Bytes.ofLeInt (Bytes.ljust 4 0 (file.take 4))

/-- What is loaded is a table that is in the file, and empty where the file is damaged. -/
structure LoadsWell (file : Bytes) (t : Loaded) : Prop where
  /-- The count is that of a table. -/
  range : 0 ≤ t.itemCount ∧ t.itemCount ≤ kcMaxItems
  /-- Every item in use is in the file. -/
  read : ∀ i : ℕ, i < t.itemCount → 4 + itemSize * (i + 1) ≤ file.length ∧
    t.slot i = Bytes.slice file (4 + itemSize * i) itemSize
  /-- A count that is out of range or too large for the file. -/
  emptied : fileCount file < 0 ∨ kcMaxItems < fileCount file ∨
    (file.length : ℤ) < 4 + itemSize * fileCount file → t.itemCount = 0

/-- The file is loaded well, and the requests that follow stay in the array. -/
def Robust (A : Gcm) (kcKey file : Bytes) (reqs : List (Env × KeychainRequest)) : Prop :=
  ∃ t, kcLoad (some file) = some t ∧ LoadsWell file t ∧
    ((loadedDaemon A kcKey).run t.memory reqs).isSome

/-- The files whose count can be believed, or is not. -/
def Believable (file : Bytes) : Prop :=
  kcMaxItems < fileCount file ∨ fileCount file = 0 ∨
    0 ≤ fileCount file ∧ 4 + itemSize * fileCount file ≤ file.length

/-- The count is that of a table. -/
def Memory.Counted (m : Memory) : Prop := 0 ≤ m.itemCount ∧ m.itemCount ≤ kcMaxItems

/-- The lengths and names that a request meets are those of items. -/
structure Fits (m : Memory) (l : Env × KeychainRequest) : Prop where
  /-- The data of an add fits its field. -/
  add : l.2.op = kcAdd → l.1.ctxNew = true → 0 ≤ l.2.dataLen ∧ l.2.dataLen ≤ 512
  /-- The ciphertext that is fetched ends in the array. -/
  get : l.2.op = kcGet → l.1.ctxNew = true → ∀ i, m.kcFind l.2.service l.2.account = some i →
    0 ≤ (m.item i).encLen ∧
      itemSize * (i : ℤ) + 256 + (m.item i).encLen ≤ itemSize * kcMaxItems
  /-- The names of the items in use end in the array. -/
  names : ∀ i : ℕ, i < m.itemCount → (0 : UInt8) ∈ m.account i

/-! ### Accesses in the array -/

variable {A : Gcm} {kcKey : Bytes} {m : Memory} {env : Env} {req : KeychainRequest} {i : ℕ}

/-- A stretch inside an item. -/
theorem inArray_field {i : ℤ} {off n : ℕ} (hi : 0 ≤ i ∧ i < kcMaxItems) (h : off + n ≤ itemSize) :
    (fieldAccess i off n).InArray := by
  simp only [Access.InArray, fieldAccess, itemSize, kcMaxItems] at *
  omega

/-- A stretch from inside an item to some place before the end of the array. -/
theorem inArray_tail {off n : ℕ} (hi : (i : ℤ) < kcMaxItems) (hoff : off ≤ itemSize)
    (h : n ≤ (m.items.bytes.drop (itemSize * i + off)).length) :
    (fieldAccess i off n).InArray := by
  rw [List.length_drop, m.items.length_bytes] at h
  simp only [Access.InArray, fieldAccess, itemSize, kcMaxItems] at *
  omega

/-- A comparison does not look behind a NUL. -/
theorem strcmpReads_le {a b : Bytes} (h : (0 : UInt8) ∈ a) : strcmpReads a b ≤ a.length := by
  induction a generalizing b with
  | nil => exact absurd h List.not_mem_nil
  | cons x xs ih =>
    cases b with
    | nil => exact Nat.le_add_left 1 _
    | cons y ys =>
      rw [strcmpReads]
      split
      next hxy => exact Nat.succ_le_succ (ih ((List.mem_cons.1 h).resolve_left (Ne.symm hxy.2)))
      next => exact Nat.le_add_left 1 _

theorem strlenReads_le {a : Bytes} (h : (0 : UInt8) ∈ a) : strlenReads a ≤ a.length :=
  length_cstr_lt_of_mem h

/-- A NUL behind the start of the account is one behind the start of the service. -/
theorem Memory.zero_mem_service (h : (0 : UInt8) ∈ m.account i) : (0 : UInt8) ∈ m.service i := by
  rw [account, ← List.drop_drop] at h
  exact List.mem_of_mem_drop h

theorem inArray_compareReads (hi : (i : ℤ) < kcMaxItems) (h : (0 : UInt8) ∈ m.account i)
    (svc acc : Bytes) : ∀ a ∈ m.compareReads svc acc i, a.InArray := by
  have hservice : (fieldAccess i 0 (strcmpReads (m.service i) svc)).InArray :=
    inArray_tail hi (Nat.zero_le _) (strcmpReads_le (Memory.zero_mem_service h))
  have haccount : (fieldAccess i 64 (strcmpReads (m.account i) acc)).InArray :=
    inArray_tail hi (by decide) (strcmpReads_le h)
  intro a ha
  rw [Memory.compareReads, List.mem_cons] at ha
  rcases ha with rfl | ha
  · exact hservice
  · split at ha
    · exact List.mem_singleton.1 ha ▸ haccount
    · exact absurd ha List.not_mem_nil

/-- A key is found among the items in use. -/
theorem Memory.lt_of_kcFind {svc acc : Bytes} (h : m.kcFind svc acc = some i) :
    (i : ℤ) < m.itemCount := by
  have hmem := List.mem_of_find?_eq_some h
  rw [List.mem_range] at hmem
  omega

/-- **The search for a key** stays in the array. -/
theorem inArray_findReads (hcount : m.itemCount ≤ kcMaxItems)
    (hnames : ∀ i : ℕ, i < m.itemCount → (0 : UInt8) ∈ m.account i) (svc acc : Bytes) :
    ∀ a ∈ m.findReads svc acc, a.InArray := by
  have hread : ∀ i : ℕ, i < m.itemCount → ∀ a ∈ m.compareReads svc acc i, a.InArray :=
    fun i hi ↦ inArray_compareReads (hi.trans_le hcount) (hnames i hi) svc acc
  intro a ha
  obtain ⟨i, hi, hread'⟩ := List.mem_flatMap.1 ha
  rw [List.mem_range] at hi
  refine hread i ?_ a hread'
  cases hfind : m.kcFind svc acc with
  | none =>
    rw [hfind] at hi
    simp only at hi
    omega
  | some j =>
    have hj := Memory.lt_of_kcFind hfind
    rw [hfind] at hi
    simp only at hi
    omega

/-- A small number is the same as a `size_t`. -/
theorem sizeT_of_le {z : ℤ} (h : 0 ≤ z) (hle : z ≤ itemSize * kcMaxItems) :
    (sizeT z : ℤ) = z := by
  simp only [sizeT, itemSize, kcMaxItems] at *
  omega

theorem inArray_saveReads {itemCount : ℤ} (h : 0 ≤ itemCount ∧ itemCount ≤ kcMaxItems) :
    ∀ a ∈ Memory.saveReads env itemCount, a.InArray := by
  have hsize : (sizeT itemCount : ℤ) = itemCount :=
    sizeT_of_le h.1 (h.2.trans (by decide))
  intro a ha
  rw [Memory.saveReads] at ha
  split at ha
  · obtain rfl := List.mem_singleton.1 ha
    simp only [Access.InArray, itemSize, kcMaxItems] at *
    omega
  · exact absurd ha List.not_mem_nil

theorem inArray_nameWrites {i : ℤ} (hi : 0 ≤ i ∧ i < kcMaxItems) :
    ∀ a ∈ Memory.nameWrites i, a.InArray := by
  intro a ha
  simp only [Memory.nameWrites, List.mem_cons, List.not_mem_nil, or_false] at ha
  rcases ha with rfl | rfl | rfl | rfl <;> exact inArray_field hi (by decide)

theorem inArray_encryptWrites {i : ℤ} (hi : 0 ≤ i ∧ i < kcMaxItems)
    (hlen : env.ctxNew = true → 0 ≤ req.dataLen ∧ req.dataLen ≤ 512) :
    ∀ a ∈ Memory.encryptWrites env req i, a.InArray := by
  intro a ha
  rw [Memory.encryptWrites, List.mem_append] at ha
  rcases ha with ha | ha
  · split at ha
    next hctx =>
      have hsize : (sizeT req.dataLen : ℤ) = req.dataLen :=
        sizeT_of_le (hlen hctx).1 ((hlen hctx).2.trans (by decide))
      simp only [List.mem_cons, List.not_mem_nil, or_false] at ha
      rcases ha with rfl | rfl
      · refine inArray_field hi ?_
        have hle := (hlen hctx).2
        simp only [itemSize]
        omega
      · exact inArray_field hi (by decide)
    next => exact absurd ha List.not_mem_nil
  · simp only [List.mem_cons, List.not_mem_nil, or_false] at ha
    rcases ha with rfl | rfl | rfl <;> exact inArray_field hi (by decide)

theorem inArray_decryptReads (hi : (i : ℤ) < kcMaxItems)
    (hlen : env.ctxNew = true → 0 ≤ (m.item i).encLen ∧
      itemSize * (i : ℤ) + 256 + (m.item i).encLen ≤ itemSize * kcMaxItems) :
    ∀ a ∈ m.decryptReads env i, a.InArray := by
  have hi' : 0 ≤ (i : ℤ) ∧ (i : ℤ) < kcMaxItems := ⟨Int.natCast_nonneg i, hi⟩
  intro a ha
  rw [Memory.decryptReads] at ha
  split at ha
  next hctx =>
    obtain ⟨hpos, hend⟩ := hlen hctx
    simp only [List.mem_cons, List.not_mem_nil, or_false] at ha
    rcases ha with rfl | rfl | rfl
    · have hsize : (sizeT (m.item i).encLen : ℤ) = (m.item i).encLen := by
        refine sizeT_of_le hpos ?_
        simp only [itemSize, kcMaxItems] at *
        omega
      simp only [Access.InArray, fieldAccess, itemSize, kcMaxItems] at *
      omega
    · exact inArray_field hi' (by decide)
    · exact inArray_field hi' (by decide)
  next => exact absurd ha List.not_mem_nil

theorem inArray_moveAccesses (hi : (i : ℤ) < m.itemCount) (hcount : m.itemCount ≤ kcMaxItems) :
    ∀ a ∈ m.moveAccesses i, a.InArray := by
  have hsize : (sizeT ((m.itemCount - i - 1) * itemSize) : ℤ) =
      (m.itemCount - i - 1) * itemSize := by
    refine sizeT_of_le ?_ ?_ <;> simp only [itemSize, kcMaxItems] at * <;> omega
  intro a ha
  simp only [Memory.moveAccesses, List.mem_cons, List.not_mem_nil, or_false] at ha
  rcases ha with rfl | rfl
  all_goals
    simp only [Access.InArray, fieldAccess, itemSize, kcMaxItems] at *
    omega

theorem inArray_listReads (hcount : m.itemCount ≤ kcMaxItems)
    (hnames : ∀ i : ℕ, i < m.itemCount → (0 : UInt8) ∈ m.account i) :
    ∀ a ∈ (List.range m.itemCount.toNat).flatMap fun (i : ℕ) ↦
      [fieldAccess i 0 (strlenReads (m.service i)), fieldAccess i 64 (strlenReads (m.account i))],
      a.InArray := by
  intro a ha
  obtain ⟨i, hi, ha⟩ := List.mem_flatMap.1 ha
  have hlt : (i : ℤ) < m.itemCount := by
    rw [List.mem_range] at hi
    omega
  have hnul := hnames i hlt
  simp only [List.mem_cons, List.not_mem_nil, or_false] at ha
  rcases ha with rfl | rfl
  · exact inArray_tail (hlt.trans_le hcount) (Nat.zero_le _)
      (strlenReads_le (Memory.zero_mem_service hnul))
  · exact inArray_tail (hlt.trans_le hcount) (by decide) (strlenReads_le hnul)

/-- **A request that fits** stays in the array. -/
theorem inArray_accesses (hcount : m.Counted) (hfits : Fits m (env, req)) :
    ∀ a ∈ m.accesses env req, a.InArray := by
  obtain ⟨hpos, hle⟩ := hcount
  have hfind := inArray_findReads hle hfits.names req.service req.account
  rw [Memory.accesses]
  split
  next hop =>
    have hlen := hfits.add hop
    split
    next => exact fun a ha ↦ absurd ha List.not_mem_nil
    next hroom =>
      refine List.forall_mem_append.2 ⟨hfind, ?_⟩
      split
      next =>
        have hi : 0 ≤ m.itemCount ∧ m.itemCount < kcMaxItems := ⟨hpos, lt_of_not_ge hroom⟩
        exact List.forall_mem_append.2 ⟨List.forall_mem_append.2
          ⟨inArray_nameWrites hi, inArray_encryptWrites hi hlen⟩,
          inArray_saveReads (by omega)⟩
      next i hi =>
        have hlt := Memory.lt_of_kcFind hi
        exact List.forall_mem_append.2 ⟨inArray_encryptWrites (by omega) hlen,
          inArray_saveReads ⟨hpos, hle⟩⟩
  next hop =>
    refine List.forall_mem_append.2 ⟨hfind, ?_⟩
    split
    next => exact fun a ha ↦ absurd ha List.not_mem_nil
    next i hi =>
      have hlt := Memory.lt_of_kcFind hi
      exact inArray_decryptReads (by omega) fun hctx ↦ hfits.get hop hctx i hi
  next =>
    refine List.forall_mem_append.2 ⟨hfind, ?_⟩
    split
    next => exact fun a ha ↦ absurd ha List.not_mem_nil
    next i hi =>
      have hlt := Memory.lt_of_kcFind hi
      exact List.forall_mem_append.2 ⟨inArray_moveAccesses hlt hle,
        inArray_saveReads (by omega)⟩
  next => exact inArray_listReads hle hfits.names
  next => exact fun a ha ↦ absurd ha List.not_mem_nil

/-- The count stays that of a table. -/
theorem Memory.Counted.handle (hcount : m.Counted) : (m.handle A kcKey env req).Counted := by
  obtain ⟨hpos, hle⟩ := hcount
  rw [Memory.handle]
  split
  next =>
    split
    next => exact ⟨hpos, hle⟩
    next hroom =>
      dsimp only
      split
      next =>
        rw [Counted, setItem_itemCount]
        dsimp only
        omega
      next =>
        rw [Counted, setItem_itemCount]
        exact ⟨hpos, hle⟩
  next =>
    split
    next => exact ⟨hpos, hle⟩
    next i hi =>
      have hlt := Memory.lt_of_kcFind hi
      rw [Counted, removeItem_itemCount]
      omega
  next => exact ⟨hpos, hle⟩

/-- **Requests that fit** stay in the array of a table, whatever it holds. -/
theorem exists_run_of_fits {reqs : List (Env × KeychainRequest)} (hcount : m.Counted)
    (hfits : (loadedDaemon A kcKey).Guarded Fits m reqs) :
    ∃ m', (loadedDaemon A kcKey).run m reqs = some m' ∧ m'.Counted := by
  refine Machine.exists_run_of_guarded (fun m l hm hl ↦ ⟨m.handle A kcKey l.1 l.2, ?_, hm.handle⟩)
    hcount hfits
  exact if_pos (inArray_accesses hm hl)

/-! ### Loading -/

variable {file : Bytes} {t : Loaded}

/-- A count above the maximum is refused. -/
theorem kcLoad_of_gt (h : kcMaxItems < fileCount file) : kcLoad (some file) = some ⟨0, []⟩ := by
  rw [kcLoad]
  exact if_pos h

/-- Any other count is taken over. -/
theorem itemCount_of_kcLoad (hle : fileCount file ≤ kcMaxItems)
    (h : kcLoad (some file) = some t) : t.itemCount = fileCount file := by
  have hno : ¬ (kcMaxItems : ℤ) < Bytes.ofLeInt (Bytes.ljust 4 0 (file.take 4)) := not_lt.2 hle
  rw [kcLoad] at h
  simp only [if_neg hno] at h
  obtain ⟨-, h⟩ := Option.ite_none_right_eq_some.1 h
  exact Option.some.inj h ▸ rfl

/-- A file that has all its items is loaded as it is. -/
theorem kcLoad_of_le (hpos : 0 ≤ fileCount file) (hle : fileCount file ≤ kcMaxItems) :
    kcLoad (some file) = some ⟨fileCount file,
      (file.drop 4).take (itemSize * (fileCount file).toNat)⟩ := by
  have hno : ¬ (kcMaxItems : ℤ) < Bytes.ofLeInt (Bytes.ljust 4 0 (file.take 4)) := not_lt.2 hle
  have hnonneg : ¬ Bytes.ofLeInt (Bytes.ljust 4 0 (file.take 4)) < 0 := not_lt.2 hpos
  have hread : ((file.drop 4).take (itemSize * (fileCount file).toNat)).length ≤
      kcMaxItems * itemSize := by
    rw [List.length_take, Nat.mul_comm itemSize]
    refine (Nat.min_le_left _ _).trans (Nat.mul_le_mul_right _ ?_)
    omega
  rw [kcLoad]
  simp only [if_neg hno, if_neg hnonneg]
  exact if_pos hread

/-- An item in use of a file that has them all. -/
theorem slot_of_complete {i : ℕ} (hpos : 0 ≤ fileCount file)
    (hall : 4 + itemSize * fileCount file ≤ file.length) (hi : (i : ℤ) < fileCount file) :
    4 + itemSize * (i + 1) ≤ file.length ∧
      Loaded.slot ⟨fileCount file, (file.drop 4).take (itemSize * (fileCount file).toNat)⟩ i =
        Bytes.slice file (4 + itemSize * i) itemSize := by
  set count := (fileCount file).toNat with hcount
  have hcast : (count : ℤ) = fileCount file := Int.toNat_of_nonneg hpos
  have hlt : i < count := by omega
  have hlen : 4 + itemSize * count ≤ file.length := by
    rw [← hcast] at hall
    exact_mod_cast hall
  have hend : itemSize * i + itemSize ≤ itemSize * count := by
    rw [← Nat.mul_succ]
    exact Nat.mul_le_mul_left _ hlt
  have hread : itemSize ≤ file.length - (4 + itemSize * i) := by omega
  refine ⟨(Nat.add_le_add_left (Nat.mul_le_mul_left _ hlt) 4).trans hlen, ?_⟩
  rw [Loaded.slot, Bytes.slice, Bytes.slice, List.drop_take, List.take_take, List.drop_drop,
    Nat.min_eq_left (Nat.le_sub_of_add_le (Nat.add_comm _ _ ▸ hend)), Bytes.ljust,
    List.length_take, List.length_drop, Nat.min_eq_left hread, Nat.sub_self, List.replicate_zero,
    List.append_nil]

/-- **Which files are loaded well.** -/
theorem loadsWell_iff :
    (∃ t, kcLoad (some file) = some t ∧ LoadsWell file t) ↔ Believable file := by
  constructor
  · rintro ⟨t, ht, hwell⟩
    rcases lt_or_ge (kcMaxItems : ℤ) (fileCount file) with hgt | hle
    · exact Or.inl hgt
    · have hcount := itemCount_of_kcLoad hle ht
      have hrange := hwell.range
      have hemptied := hwell.emptied
      rw [hcount] at hrange hemptied
      rcases le_or_gt (4 + itemSize * fileCount file) file.length with hall | hshort
      · exact Or.inr (Or.inr ⟨hrange.1, hall⟩)
      · exact Or.inr (Or.inl (hemptied (Or.inr (Or.inr hshort))))
  · intro h
    rcases lt_or_ge (kcMaxItems : ℤ) (fileCount file) with hgt | hle
    · refine ⟨⟨0, []⟩, kcLoad_of_gt hgt, ⟨le_rfl, Int.natCast_nonneg _⟩, fun i hi ↦ ?_, fun _ ↦ rfl⟩
      exact absurd hi (not_lt.2 (Int.natCast_nonneg i))
    · rcases h with hgt | hzero | ⟨hpos, hall⟩
      · exact absurd hgt (not_lt.2 hle)
      · refine ⟨_, kcLoad_of_le hzero.ge hle, ⟨hzero.ge, hle⟩, fun i hi ↦ ?_, fun _ ↦ hzero⟩
        rw [hzero] at hi
        exact absurd hi (not_lt.2 (Int.natCast_nonneg i))
      · refine ⟨_, kcLoad_of_le hpos hle, ⟨hpos, hle⟩, fun i hi ↦ ?_, fun hbad ↦ ?_⟩
        · exact slot_of_complete hpos hall hi
        · omega

end JuliusOS.Keychain
