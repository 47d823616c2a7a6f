import Mathlib.Data.List.Basic
import Mathlib.Data.List.DropRight
import Mathlib.Data.List.Find
import Mathlib.Data.List.Nodup

/-!
# Packed tables

A static C array together with a count of the slots in use: records are appended at the
count, overwritten in place, and deleted by a `memmove` of the records behind them. The slots
from the count on keep whatever was last written there, and an append *updates* such a stale
slot rather than replacing it, so the stale contents are part of the model.

`live` is the used prefix. Each operation has one equation for it: `live_append`,
`live_modify`, `live_eraseAt`; a table that gives up its oldest record for a new one when it is
full holds the last ones (`map_live_slide`). What holds of every slot, used or not, is `AllSlots`,
and the operations preserve it because a `memmove` only ever copies slots.

The second half reads a table as a finite map from keys, by the first live record with a
key. The map laws (`lookup_append`, `lookup_modify`, `lookup_eraseAt`) are those of a map
with point updates; deletion needs the keys to be distinct, which the other two preserve.
-/

/-- An array of `cap` slots of which the first `count` are in use. -/
structure PackedTable (α : Type*) (cap : ℕ) where
  /-- All slots, used or stale. -/
  slots : List α
  /-- The number of slots in use. -/
  count : ℕ
  /-- The array has its declared size. -/
  length_slots : slots.length = cap
  /-- The count stays inside the array. -/
  count_le : count ≤ cap

namespace PackedTable

variable {α : Type*} {cap : ℕ}

/-- A table whose slots all hold `a` and of which none is in use. -/
def empty (a : α) : PackedTable α cap where
  slots := List.replicate cap a
  count := 0
  length_slots := List.length_replicate
  count_le := Nat.zero_le cap

variable (t : PackedTable α cap)

/-- The records in use, in order. -/
def live : List α := t.slots.take t.count

/-- Position of the first record in use that satisfies `p`. -/
def find? (p : α → Bool) : Option ℕ := t.live.findIdx? p

/-- Overwrite slot `i` in place. -/
def modify (i : ℕ) (f : α → α) : PackedTable α cap where
  slots := t.slots.modify i f
  count := t.count
  length_slots := by rw [List.length_modify, t.length_slots]
  count_le := t.count_le

/-- `&table[count++]`, updated by `f`: the stale slot at the count is updated and taken into
use. The caller has checked that there is one. -/
def append (h : t.count < cap) (f : α → α) : PackedTable α cap where
  slots := t.slots.modify t.count f
  count := t.count + 1
  length_slots := by rw [List.length_modify, t.length_slots]
  count_le := h

/-- `count = 0`. -/
def clear : PackedTable α cap where
  slots := t.slots
  count := 0
  length_slots := t.length_slots
  count_le := Nat.zero_le cap

/-- `memmove(&table[i], &table[i+1], (count-i-1) * sizeof *table); count--`. -/
def eraseAt (i : ℕ) (h : i < t.count) : PackedTable α cap where
  slots := t.slots.take i ++ (t.slots.drop (i + 1)).take (t.count - i - 1) ++
    t.slots.drop (t.count - 1)
  count := t.count - 1
  length_slots := by
    have := t.length_slots
    have := t.count_le
    simp only [List.length_append, List.length_take, List.length_drop]
    omega
  count_le := by
    have := t.count_le
    omega

/-! ### The live prefix -/

@[simp]
theorem length_live : t.live.length = t.count := by
  have := t.length_slots
  have := t.count_le
  rw [live, List.length_take]
  omega

theorem live_modify (i : ℕ) (f : α → α) : (t.modify i f).live = t.live.modify i f :=
  List.take_modify f i t.count t.slots

/-- The stale slot that the next append takes into use. -/
def nextSlot (h : t.count < cap) : α := t.slots.get ⟨t.count, by rwa [t.length_slots]⟩

theorem nextSlot_mem (h : t.count < cap) : t.nextSlot h ∈ t.slots := List.getElem_mem _

/-- **An append adds the updated stale slot at the end.** -/
theorem live_append (h : t.count < cap) (f : α → α) :
    (t.append h f).live = t.live ++ [f (t.nextSlot h)] := by
  have hlt : t.count < t.slots.length := by rw [t.length_slots]; exact h
  show (t.slots.modify t.count f).take (t.count + 1) = _
  rw [List.take_succ_eq_append_getElem (by rwa [List.length_modify]), List.getElem_modify_eq,
    List.take_modify, List.modify_eq_self (by rw [List.length_take]; omega)]
  rfl

theorem mem_live_append {t : PackedTable α cap} {h : t.count < cap} {f : α → α} {a : α} :
    a ∈ (t.append h f).live ↔ a ∈ t.live ∨ a = f (t.nextSlot h) := by
  rw [live_append, List.mem_append, List.mem_singleton]

theorem live_clear : t.clear.live = [] := List.take_zero

/-- Updating the slot just taken into use is part of the append. -/
theorem modify_append (h : t.count < cap) (f g : α → α) :
    (t.append h f).modify t.count g = t.append h (g ∘ f) := by
  simp only [modify, append, List.modify_modify_eq]

/-- **A deletion removes exactly the record at its position.** -/
theorem live_eraseAt (i : ℕ) (h : i < t.count) : (t.eraseAt i h).live = t.live.eraseIdx i := by
  have hcap := t.length_slots
  have hle := t.count_le
  show (t.slots.take i ++ (t.slots.drop (i + 1)).take (t.count - i - 1) ++
    t.slots.drop (t.count - 1)).take (t.count - 1) = _
  rw [List.take_append_of_le_length (by
      simp only [List.length_append, List.length_take, List.length_drop]; omega),
    List.take_of_length_le (by
      simp only [List.length_append, List.length_take, List.length_drop]; omega),
    live, List.eraseIdx_eq_take_drop_succ, List.take_take, Nat.min_eq_left (by omega),
    List.drop_take]
  congr 2

/-- **A found position splits the records in use**: before it no record satisfies the predicate,
the record at it does, and modifying or deleting there changes that record and nothing else. -/
theorem exists_split_of_find? {t : PackedTable α cap} {p : α → Bool} {i : ℕ}
    (h : t.find? p = some i) :
    ∃ pre a post, t.live = pre ++ a :: post ∧ pre.length = i ∧ p a ∧ (∀ b ∈ pre, ¬ p b) ∧
      (∀ f, (t.modify i f).live = pre ++ f a :: post) ∧
      ∀ hi, (t.eraseAt i hi).live = pre ++ post := by
  obtain ⟨hi, hp, hbefore⟩ := List.findIdx?_eq_some_iff_getElem.1 h
  have hlive : t.live = t.live.take i ++ t.live[i] :: t.live.drop (i + 1) := by
    rw [List.getElem_cons_drop, List.take_append_drop]
  have hlen : (t.live.take i).length = i := List.length_take_of_le (Nat.le_of_lt hi)
  refine ⟨t.live.take i, t.live[i], t.live.drop (i + 1), hlive, hlen, hp, ?_, fun f ↦ ?_,
    fun hi' ↦ ?_⟩
  · intro b hb
    obtain ⟨j, hj, rfl⟩ := List.getElem_of_mem hb
    rw [hlen] at hj
    rw [List.getElem_take]
    exact hbefore j hj
  · rw [live_modify, List.modify_eq_take_cons_drop hi]
  · rw [live_eraseAt, List.eraseIdx_eq_take_drop_succ]

theorem lt_count_of_find?_eq_some {t : PackedTable α cap} {p : α → Bool} {i : ℕ}
    (h : t.find? p = some i) : i < t.count := by
  obtain ⟨hi, -⟩ := List.findIdx?_eq_some_iff_getElem.1 h
  rwa [length_live] at hi

theorem find?_eq_none {t : PackedTable α cap} {p : α → Bool} :
    t.find? p = none ↔ ∀ a ∈ t.live, ¬ p a := by
  simp [find?, List.findIdx?_eq_none_iff]

/-! ### The last records -/

/-- Where the table is full, `memmove(&table[0], &table[1], …); count--`. -/
def makeRoom (t : PackedTable α cap) (hcap : 0 < cap) : PackedTable α cap :=
  if h : t.count < cap then t else t.eraseAt 0 (Nat.lt_of_lt_of_le hcap (Nat.le_of_not_lt h))

theorem count_makeRoom_lt (hcap : 0 < cap) : (t.makeRoom hcap).count < cap := by
  rw [makeRoom]
  split
  next h => exact h
  next h =>
    have := t.count_le
    show t.count - 1 < cap
    omega

/-- `&table[count++]` in a table that gives up its oldest record for a new one, updated by `f`. -/
def slide (t : PackedTable α cap) (hcap : 0 < cap) (f : α → α) : PackedTable α cap :=
  (t.makeRoom hcap).append (t.count_makeRoom_lt hcap) f

theorem live_makeRoom (hcap : 0 < cap) : (t.makeRoom hcap).live = t.live.rtake (cap - 1) := by
  have hlen := t.length_live
  have hle := t.count_le
  rw [makeRoom, List.rtake, hlen]
  split
  next h => rw [show t.count - (cap - 1) = 0 by omega, List.drop_zero]
  next h =>
    rw [live_eraseAt, show t.count - (cap - 1) = 1 by omega, List.eraseIdx_zero, List.drop_one]

/-- **A table that slides holds the last records**, one more of them after the slide. -/
theorem map_live_slide {β : Type*} {g : α → β} {f : α → α} {xs : List β} {y : β} (hcap : 0 < cap)
    (hxs : t.live.map g = xs.rtake cap)
    (hf : ∀ h : (t.makeRoom hcap).count < cap, g (f ((t.makeRoom hcap).nextSlot h)) = y) :
    (t.slide hcap f).live.map g = (xs ++ [y]).rtake cap := by
  obtain ⟨n, rfl⟩ : ∃ n, cap = n + 1 := ⟨cap - 1, by omega⟩
  rw [slide, live_append, List.map_append, List.map_singleton, hf, live_makeRoom,
    List.rtake_concat_succ, Nat.add_sub_cancel, List.rtake, List.map_drop, hxs]
  congr 1
  have hlen := congrArg List.length hxs
  rw [List.length_map, List.rtake, List.length_drop] at hlen
  rw [List.rtake, List.rtake, List.drop_drop, hlen]
  congr 1
  omega

/-- The records before a slide and the new one, as far as there is room for them. -/
theorem map_live_slide_self {β : Type*} {g : α → β} {f : α → α} {y : β} (hcap : 0 < cap)
    (hf : ∀ h : (t.makeRoom hcap).count < cap, g (f ((t.makeRoom hcap).nextSlot h)) = y) :
    (t.slide hcap f).live.map g = (t.live.map g ++ [y]).rtake cap := by
  refine t.map_live_slide hcap ?_ hf
  rw [List.rtake, List.length_map, length_live, Nat.sub_eq_zero_of_le t.count_le, List.drop_zero]

/-- The slot that a slide takes into use. -/
theorem getElem?_slots_slide_self (hcap : 0 < cap) (f : α → α) :
    ∃ a, (t.slide hcap f).slots[(t.makeRoom hcap).count]? = some (f a) := by
  have hlt := t.count_makeRoom_lt hcap
  refine ⟨(t.makeRoom hcap).nextSlot hlt, ?_⟩
  show ((t.makeRoom hcap).slots.modify _ f)[_]? = _
  rw [List.getElem?_modify_eq,
    List.getElem?_eq_getElem (by rwa [(t.makeRoom hcap).length_slots])]
  rfl

/-- With room, a slide leaves the other slots as they are. -/
theorem getElem?_slots_slide_of_ne (hcap : 0 < cap) (f : α → α) (hroom : t.count < cap) {i : ℕ}
    (hi : t.count ≠ i) : (t.slide hcap f).slots[i]? = t.slots[i]? := by
  show ((t.makeRoom hcap).slots.modify (t.makeRoom hcap).count f)[i]? = _
  rw [makeRoom, dif_pos hroom, List.getElem?_modify_ne _ _ hi]

/-! ### What holds of every slot -/

/-- Every slot of the table, used or stale, satisfies `P`. -/
def AllSlots (P : α → Prop) : Prop := ∀ a ∈ t.slots, P a

variable {t} {P : α → Prop}

theorem allSlots_empty {a : α} (h : P a) : (empty a : PackedTable α cap).AllSlots P :=
  fun _ hb ↦ List.eq_of_mem_replicate hb ▸ h

theorem AllSlots.of_mem_live (h : t.AllSlots P) {a : α} (ha : a ∈ t.live) : P a :=
  h a (List.mem_of_mem_take ha)

theorem AllSlots.nextSlot (h : t.AllSlots P) (hlt : t.count < cap) : P (t.nextSlot hlt) :=
  h _ (t.nextSlot_mem hlt)

private theorem forall_mem_modify {l : List α} {i : ℕ} {f : α → α} (h : ∀ a ∈ l, P a)
    (hf : ∀ a, P a → P (f a)) : ∀ a ∈ l.modify i f, P a := by
  intro a ha
  obtain ⟨j, hj, rfl⟩ := List.getElem_of_mem ha
  rw [List.length_modify] at hj
  rw [List.getElem_modify]
  split
  · exact hf _ (h _ (List.getElem_mem hj))
  · exact h _ (List.getElem_mem hj)

theorem AllSlots.modify (h : t.AllSlots P) {i : ℕ} {f : α → α} (hf : ∀ a, P a → P (f a)) :
    (t.modify i f).AllSlots P := forall_mem_modify h hf

theorem AllSlots.append (h : t.AllSlots P) {hlt : t.count < cap} {f : α → α}
    (hf : ∀ a, P a → P (f a)) : (t.append hlt f).AllSlots P := forall_mem_modify h hf

/-- A deletion only copies slots, so it brings in no new contents. -/
theorem AllSlots.eraseAt (h : t.AllSlots P) {i : ℕ} (hi : i < t.count) :
    (t.eraseAt i hi).AllSlots P := by
  intro a ha
  rcases List.mem_append.1 ha with ha | ha
  · rcases List.mem_append.1 ha with ha | ha
    · exact h a (List.mem_of_mem_take ha)
    · exact h a (List.mem_of_mem_drop (List.mem_of_mem_take ha))
  · exact h a (List.mem_of_mem_drop ha)

theorem AllSlots.makeRoom (h : t.AllSlots P) (hcap : 0 < cap) : (t.makeRoom hcap).AllSlots P := by
  rw [PackedTable.makeRoom]
  split
  · exact h
  · exact h.eraseAt _

theorem AllSlots.slide (h : t.AllSlots P) (hcap : 0 < cap) {f : α → α} (hf : ∀ a, P a → P (f a)) :
    (t.slide hcap f).AllSlots P := (h.makeRoom hcap).append hf

/-! ### A table as a finite map -/

section Keyed

variable {κ : Type*} [DecidableEq κ] (key : α → κ)

/-- The first live record with a key. -/
def lookup (t : PackedTable α cap) (k : κ) : Option α := t.live.find? fun a ↦ key a = k

/-- No two live records have the same key. -/
def KeysNodup (t : PackedTable α cap) : Prop := (t.live.map key).Nodup

variable {key}

omit [DecidableEq κ] in
theorem keysNodup_empty (a : α) : (empty a : PackedTable α cap).KeysNodup key := List.nodup_nil

/-- A search for a key and a lookup of it agree. -/
theorem find?_eq_none_iff {k : κ} :
    t.find? (fun a ↦ key a = k) = none ↔ t.lookup key k = none := by
  simp [find?, lookup]

theorem lookup_eq_none_iff {k : κ} : t.lookup key k = none ↔ k ∉ t.live.map key := by
  simp [lookup]

/-- The record found for a key is the one that the lookup returns. -/
theorem lookup_eq_of_split {k : κ} {pre post : List α} {a : α}
    (hlive : t.live = pre ++ a :: post) (hka : key a = k) (hpre : ∀ b ∈ pre, key b ≠ k) :
    t.lookup key k = some a := by
  have hnone : List.find? (fun b ↦ decide (key b = k)) pre = none := by simpa using hpre
  rw [lookup, hlive, List.find?_append, hnone]
  simp [hka]

/-- A found position is that of the record the lookup returns. -/
theorem exists_lookup_of_find? {k : κ} {i : ℕ} (h : t.find? (fun a ↦ key a = k) = some i) :
    ∃ pre a post, t.live = pre ++ a :: post ∧ pre.length = i ∧ t.lookup key k = some a := by
  obtain ⟨pre, a, post, hlive, hlen, hka, hpre, -, -⟩ := exists_split_of_find? h
  exact ⟨pre, a, post, hlive, hlen,
    lookup_eq_of_split hlive (by simpa using hka) fun b hb ↦ by simpa using hpre b hb⟩

/-- The record at the position that a search finds is the one that the lookup returns. -/
theorem find?_bind_getElem? (k : κ) :
    ((t.find? fun a ↦ key a = k).bind fun i ↦ t.live[i]?) = t.lookup key k := by
  cases hfind : t.find? fun a ↦ key a = k with
  | none => exact (find?_eq_none_iff.1 hfind).symm
  | some i =>
    obtain ⟨pre, a, post, hlive, rfl, hlook⟩ := exists_lookup_of_find? hfind
    rw [Option.bind_some, hlook, hlive]
    simp

/-- Appending a record with a fresh key extends the map at that key. -/
theorem lookup_append {hlt : t.count < cap} {f : α → α} {k₀ : κ}
    (hfresh : t.lookup key k₀ = none) (hkey : key (f (t.nextSlot hlt)) = k₀) (k : κ) :
    (t.append hlt f).lookup key k =
      if k = k₀ then some (f (t.nextSlot hlt)) else t.lookup key k := by
  rw [lookup, live_append, List.find?_append]
  split
  next h =>
    subst h
    rw [show List.find? _ t.live = none from hfresh]
    simp [hkey]
  next h =>
    have hlast : List.find? (fun a ↦ decide (key a = k)) [f (t.nextSlot hlt)] = none := by
      simp [hkey, Ne.symm h]
    rw [hlast, Option.or_none]
    rfl

/-- The record appended for a fresh key is found at the end. -/
theorem find?_append {hlt : t.count < cap} {f : α → α} {k₀ : κ}
    (hfresh : t.lookup key k₀ = none) (hkey : key (f (t.nextSlot hlt)) = k₀) :
    (t.append hlt f).find? (fun a ↦ key a = k₀) = some t.count := by
  have hnone : t.live.findIdx? (fun a ↦ decide (key a = k₀)) = none :=
    find?_eq_none_iff.2 hfresh
  rw [find?, live_append, List.findIdx?_append, hnone, Option.none_or, length_live,
    List.findIdx?_singleton]
  simp [hkey]

theorem KeysNodup.append {hlt : t.count < cap} {f : α → α} {k₀ : κ} (h : t.KeysNodup key)
    (hfresh : t.lookup key k₀ = none) (hkey : key (f (t.nextSlot hlt)) = k₀) :
    (t.append hlt f).KeysNodup key := by
  rw [KeysNodup, live_append, List.map_append, List.map_singleton, hkey]
  exact List.Nodup.append h (List.nodup_singleton k₀) fun a ha hb ↦
    lookup_eq_none_iff.1 hfresh (List.mem_singleton.1 hb ▸ ha)

omit [DecidableEq κ] in
theorem map_key_modify {i : ℕ} {f : α → α} (hf : ∀ a, key (f a) = key a) :
    (t.modify i f).live.map key = t.live.map key := by
  rw [live_modify]
  refine List.ext_getElem (by simp) fun j hj hj' ↦ ?_
  simp only [List.getElem_map, List.getElem_modify]
  split
  · exact hf _
  · rfl

omit [DecidableEq κ] in
theorem KeysNodup.modify {i : ℕ} {f : α → α} (h : t.KeysNodup key)
    (hf : ∀ a, key (f a) = key a) : (t.modify i f).KeysNodup key := by
  rwa [KeysNodup, map_key_modify hf]

/-- Overwriting the record found for a key, without changing its key, changes the map there
and nowhere else. -/
theorem lookup_modify {i : ℕ} {f : α → α} {k₀ : κ} {a₀ : α}
    (hi : t.find? (fun a ↦ key a = k₀) = some i) (ha₀ : t.lookup key k₀ = some a₀)
    (hf : ∀ a, key (f a) = key a) (k : κ) :
    (t.modify i f).lookup key k = if k = k₀ then some (f a₀) else t.lookup key k := by
  obtain ⟨pre, a, post, hlive, -, hka, hpre, hmod, -⟩ := exists_split_of_find? hi
  rw [decide_eq_true_eq] at hka
  have hpre' : ∀ b ∈ pre, key b ≠ k₀ := fun b hb ↦ by simpa using hpre b hb
  obtain rfl : a = a₀ := Option.some.inj ((lookup_eq_of_split hlive hka hpre').symm.trans ha₀)
  split
  next h =>
    subst h
    exact lookup_eq_of_split (hmod f) ((hf a).trans hka) hpre'
  next h =>
    rw [lookup, lookup, hmod, hlive, List.find?_append, List.find?_append]
    simp [hf, hka, Ne.symm h]

omit [DecidableEq κ] in
/-- Where keys are distinct, no other record has the key of a record. -/
theorem KeysNodup.ne_of_split {pre post : List α} {a : α} (hnd : t.KeysNodup key)
    (hlive : t.live = pre ++ a :: post) : ∀ b ∈ pre ++ post, key b ≠ key a := by
  rw [KeysNodup, hlive, List.map_append, List.map_cons, List.nodup_middle, List.nodup_cons,
    ← List.map_append] at hnd
  exact fun b hb hkey ↦ hnd.1 (List.mem_map.2 ⟨b, hb, hkey⟩)

/-- A table whose records are those of another one, changed without their keys. -/
theorem lookup_of_live_eq_map {t' : PackedTable α cap} {f : α → α} (hlive : t'.live = t.live.map f)
    (hf : ∀ a ∈ t.live, key (f a) = key a) (k : κ) :
    t'.lookup key k = (t.lookup key k).map f := by
  rw [lookup, lookup, hlive, List.find?_map]
  exact congrArg _ (List.find?_congr fun a ha ↦ by rw [Function.comp_apply, hf a ha])

/-- Deleting the record found for a key removes that key from the map and nothing else. -/
theorem lookup_eraseAt {i : ℕ} {k₀ : κ} (hnd : t.KeysNodup key)
    (hi : t.find? (fun a ↦ key a = k₀) = some i) (k : κ) :
    (t.eraseAt i (lt_count_of_find?_eq_some hi)).lookup key k =
      if k = k₀ then none else t.lookup key k := by
  obtain ⟨pre, a, post, hlive, -, hka, hpre, -, herase⟩ := exists_split_of_find? hi
  rw [decide_eq_true_eq] at hka
  rw [lookup, lookup, herase, hlive, List.find?_append, List.find?_append]
  split
  next h =>
    subst h
    rw [← List.find?_append, List.find?_eq_none]
    exact fun b hb ↦ by simpa using hka ▸ hnd.ne_of_split hlive b hb
  next h => simp [hka, Ne.symm h]

/-- Where keys are distinct, overwriting the record found for a key is a map over the table. -/
theorem KeysNodup.live_modify {i : ℕ} {f : α → α} {k : κ} (hnd : t.KeysNodup key)
    (hi : t.find? (fun a ↦ key a = k) = some i) :
    (t.modify i f).live = t.live.map fun a ↦ if key a = k then f a else a := by
  obtain ⟨pre, a, post, hlive, -, hka, hpre, hmod, -⟩ := exists_split_of_find? hi
  rw [decide_eq_true_eq] at hka
  have hne := hka ▸ hnd.ne_of_split hlive
  have hother : ∀ l : List α, (∀ b ∈ l, key b ≠ k) →
      l.map (fun a ↦ if key a = k then f a else a) = l :=
    fun l hl ↦ (List.map_congr_left (g := id) fun b hb ↦ if_neg (hl b hb)).trans (List.map_id l)
  rw [hmod, hlive, List.map_append, List.map_cons, if_pos hka,
    hother pre fun b hb ↦ hne b (List.mem_append_left post hb),
    hother post fun b hb ↦ hne b (List.mem_append_right pre hb)]

omit [DecidableEq κ] in
theorem KeysNodup.eraseAt {i : ℕ} (h : t.KeysNodup key) (hi : i < t.count) :
    (t.eraseAt i hi).KeysNodup key := by
  rw [KeysNodup, live_eraseAt]
  exact h.sublist ((List.eraseIdx_sublist _ _).map key)

end Keyed

end PackedTable
