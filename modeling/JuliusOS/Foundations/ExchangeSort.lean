import Mathlib.Data.List.Basic
import Mathlib.Order.Lattice

/-!
# Exchange sort

The two nested loops that compare each position with every later one and exchange the two records
if they are the wrong way round. After the inner loop the position holds the largest of what it
was compared with, so the outer loop leaves a permutation in descending order.

The loops are given twice: on the list of the records that are sorted (`sort`), and on an array,
by positions, as a program runs them (`sortInPlace`). The second does on the first `n` positions
what the first does on the list of their records, and changes no other position.
-/

namespace ExchangeSort

variable {α κ : Type*} [LinearOrder κ] (key : α → κ)

/-- The inner loop: the record at the position, which is exchanged with each later one that has a
larger key, and the later ones. -/
def sweep : α → List α → α × List α
  | x, [] => (x, [])
  | x, y :: ys =>
    if key x < key y then ((sweep y ys).1, x :: (sweep y ys).2)
    else ((sweep x ys).1, y :: (sweep x ys).2)

/-- The outer loop over so many positions. -/
def sortFrom : ℕ → List α → List α
  | 0, xs => xs
  | _ + 1, [] => []
  | n + 1, x :: xs => (sweep key x xs).1 :: sortFrom n (sweep key x xs).2

/-- The sorted list. -/
def sort (xs : List α) : List α := sortFrom key xs.length xs

variable {key} {x : α} {xs : List α}

/-- The inner loop only exchanges records. -/
theorem sweep_perm (x : α) (xs : List α) :
    ((sweep key x xs).1 :: (sweep key x xs).2).Perm (x :: xs) := by
  induction xs generalizing x with
  | nil => exact List.Perm.refl _
  | cons y ys ih =>
    rw [sweep]
    split
    next h => exact (List.Perm.swap x _ _).trans ((ih y).cons x)
    next h => exact ((List.Perm.swap y _ _).trans ((ih x).cons y)).trans (List.Perm.swap x y ys)

theorem length_sweep (x : α) (xs : List α) : (sweep key x xs).2.length = xs.length := by
  have hperm : ((sweep key x xs).1 :: (sweep key x xs).2).Perm (x :: xs) := sweep_perm x xs
  exact Nat.succ.inj hperm.length_eq

/-- It leaves a record with the largest key. -/
theorem le_sweep (x : α) (xs : List α) : ∀ y ∈ x :: xs, key y ≤ key (sweep key x xs).1 := by
  induction xs generalizing x with
  | nil =>
    intro y hy
    rw [List.mem_singleton.1 hy]
    exact le_rfl
  | cons y ys ih =>
    rw [sweep]
    split
    next h =>
      have hy := ih y
      exact List.forall_mem_cons.2 ⟨h.le.trans (hy y (List.mem_cons_self ..)), hy⟩
    next h =>
      obtain ⟨hx, hys⟩ := List.forall_mem_cons.1 (ih x)
      exact List.forall_mem_cons.2 ⟨hx, List.forall_mem_cons.2 ⟨(le_of_not_gt h).trans hx, hys⟩⟩

theorem sortFrom_perm (n : ℕ) (xs : List α) : (sortFrom key n xs).Perm xs := by
  induction n generalizing xs with
  | zero => exact List.Perm.refl xs
  | succ n ih =>
    cases xs with
    | nil => exact List.Perm.refl _
    | cons x xs => exact ((ih _).cons _).trans (sweep_perm x xs)

/-- **The sorted list** has the same records. -/
theorem sort_perm (xs : List α) : (sort key xs).Perm xs := sortFrom_perm _ xs

/-- **They are in descending order.** -/
theorem pairwise_sort (xs : List α) : (sort key xs).Pairwise fun a b ↦ key b ≤ key a := by
  have hsort : ∀ n (xs : List α), xs.length = n →
      (sortFrom key n xs).Pairwise fun a b ↦ key b ≤ key a := by
    intro n
    induction n with
    | zero =>
      intro xs hlen
      rw [List.length_eq_zero_iff.1 hlen]
      exact .nil
    | succ n ih =>
      intro xs hlen
      obtain ⟨x, xs, rfl⟩ := List.exists_cons_of_length_eq_add_one hlen
      refine .cons (fun y hy ↦ ?_) (ih _ ((length_sweep x xs).trans (Nat.succ.inj hlen)))
      have hmem := (sortFrom_perm n _).mem_iff.1 hy
      exact le_sweep x xs y ((sweep_perm x xs).mem_iff.1 (List.mem_cons_of_mem _ hmem))
  exact hsort _ xs rfl

/-! ### Records with more fields -/

theorem sweep_map {β : Type*} (f : β → α) (x : β) (xs : List β) :
    sweep key (f x) (xs.map f) =
      (f (sweep (fun b ↦ key (f b)) x xs).1, (sweep (fun b ↦ key (f b)) x xs).2.map f) := by
  induction xs generalizing x with
  | nil => rfl
  | cons y ys ih =>
    rw [List.map_cons, sweep, sweep]
    split
    · rw [ih y, List.map_cons]
    · rw [ih x, List.map_cons]

theorem sortFrom_map {β : Type*} (f : β → α) (n : ℕ) (xs : List β) :
    sortFrom key n (xs.map f) = (sortFrom (fun b ↦ key (f b)) n xs).map f := by
  induction n generalizing xs with
  | zero => rfl
  | succ n ih =>
    cases xs with
    | nil => rfl
    | cons x xs => rw [List.map_cons, sortFrom, sortFrom, sweep_map, ih, List.map_cons]

/-- Sorting moves whole records. -/
theorem sort_map {β : Type*} (f : β → α) (xs : List β) :
    sort key (xs.map f) = (sort (fun b ↦ key (f b)) xs).map f := by
  rw [sort, List.length_map, sortFrom_map, sort]

/-! ### In place -/

variable (key) in
/-- One comparison of two positions of an array. -/
def exchange (i : ℕ) (a : ℕ → α) (j : ℕ) : ℕ → α :=
  if key (a i) < key (a j) then Function.update (Function.update a i (a j)) j (a i) else a

variable (key) in
/-- The inner loop on an array: position `i` against the `m` positions from `j` on. -/
def sweepInPlace (i j m : ℕ) (a : ℕ → α) : ℕ → α :=
  (List.range' j m).foldl (exchange key i) a

variable (key) in
/-- The loops on the first `n` positions of an array. -/
def sortInPlace (n : ℕ) (a : ℕ → α) : ℕ → α :=
  (List.range (n - 1)).foldl (fun a i ↦ sweepInPlace key i (i + 1) (n - (i + 1)) a) a

variable {a : ℕ → α} {i j k m n : ℕ}

theorem exchange_of_ne (hi : k ≠ i) (hj : k ≠ j) : exchange key i a j k = a k := by
  rw [exchange]
  split
  · rw [Function.update_of_ne hj, Function.update_of_ne hi]
  · rfl

/-- What a comparison leaves at its two positions. -/
theorem exchange_eq (hij : i ≠ j) :
    (exchange key i a j i, exchange key i a j j) =
      if key (a i) < key (a j) then (a j, a i) else (a i, a j) := by
  rw [exchange]
  split
  · rw [Function.update_self, Function.update_of_ne hij, Function.update_self]
  · rfl

theorem sweepInPlace_succ (i j m : ℕ) (a : ℕ → α) :
    sweepInPlace key i j (m + 1) a = sweepInPlace key i (j + 1) m (exchange key i a j) := by
  rw [sweepInPlace, List.range'_succ, List.foldl_cons, sweepInPlace]

/-- The inner loop changes only the positions it compares. -/
theorem sweepInPlace_of_ne (hi : k ≠ i) (hk : k < j ∨ j + m ≤ k) :
    sweepInPlace key i j m a k = a k := by
  induction m generalizing j a with
  | zero => rfl
  | succ m ih =>
    rw [sweepInPlace_succ, ih (by omega), exchange_of_ne hi (by omega)]

/-- **The inner loop on an array** is the one on the list of its records. -/
theorem sweepInPlace_eq (hij : i < j) :
    (sweepInPlace key i j m a i, (List.range' j m).map (sweepInPlace key i j m a)) =
      sweep key (a i) ((List.range' j m).map a) := by
  induction m generalizing j a with
  | zero => rfl
  | succ m ih =>
    have hrest : (List.range' (j + 1) m).map (exchange key i a j) =
        (List.range' (j + 1) m).map a := by
      refine List.map_congr_left fun k hk ↦ exchange_of_ne ?_ ?_
      all_goals
        rw [List.mem_range'_1] at hk
        omega
    have hj : sweepInPlace key i (j + 1) m (exchange key i a j) j = exchange key i a j j :=
      sweepInPlace_of_ne hij.ne' (Or.inl (Nat.lt_succ_self j))
    have hih := ih (a := exchange key i a j) (j := j + 1) (hij.trans (Nat.lt_succ_self j))
    have htwo : (exchange key i a j i, exchange key i a j j) =
        if key (a i) < key (a j) then (a j, a i) else (a i, a j) := exchange_eq hij.ne
    rw [hrest, Prod.ext_iff] at hih
    dsimp only at hih
    rw [List.range'_succ, List.map_cons, List.map_cons, sweep, sweepInPlace_succ, hj]
    by_cases h : key (a i) < key (a j)
    · rw [if_pos h, Prod.mk.injEq] at htwo
      rw [if_pos h, hih.1, hih.2, htwo.1, htwo.2]
    · rw [if_neg h, Prod.mk.injEq] at htwo
      rw [if_neg h, hih.1, hih.2, htwo.1, htwo.2]

/-- The last round of the outer loop has nothing to compare with. -/
theorem sortFrom_of_length_le (h : xs.length ≤ n + 1) : sortFrom key n xs = sort key xs := by
  rw [sort]
  induction n generalizing xs with
  | zero =>
    cases xs with
    | nil => rfl
    | cons x xs =>
      have hnil : xs = [] := List.length_eq_zero_iff.1 (Nat.le_zero.1 (Nat.le_of_succ_le_succ h))
      rw [hnil]
      rfl
  | succ n ih =>
    cases xs with
    | nil => rfl
    | cons x xs =>
      have hlen : (sweep key x xs).2.length = xs.length := length_sweep x xs
      rw [List.length_cons, sortFrom, sortFrom, ih (by rw [hlen]; exact Nat.le_of_succ_le_succ h),
        hlen]

theorem foldl_sweepInPlace_of_ne (hk : k < i ∨ n ≤ k) (hm : i + m ≤ n) :
    (List.range' i m).foldl (fun a i ↦ sweepInPlace key i (i + 1) (n - (i + 1)) a) a k = a k := by
  induction m generalizing i a with
  | zero => rfl
  | succ m ih =>
    rw [List.range'_succ, List.foldl_cons, ih (by omega) (by omega),
      sweepInPlace_of_ne (by omega) (by omega)]

theorem map_foldl_sweepInPlace (hm : i + m + 1 ≤ n) :
    (List.range' i (n - i)).map
        ((List.range' i m).foldl (fun a i ↦ sweepInPlace key i (i + 1) (n - (i + 1)) a) a) =
      sortFrom key m ((List.range' i (n - i)).map a) := by
  induction m generalizing i a with
  | zero => rfl
  | succ m ih =>
    obtain ⟨l, hl⟩ : ∃ l, n - i = l + 1 := ⟨n - i - 1, by omega⟩
    have hl' : n - (i + 1) = l := by omega
    have hsweep : (sweepInPlace key i (i + 1) l a i,
        (List.range' (i + 1) l).map (sweepInPlace key i (i + 1) l a)) =
          sweep key (a i) ((List.range' (i + 1) l).map a) :=
      sweepInPlace_eq (Nat.lt_succ_self i)
    have hih := ih (a := sweepInPlace key i (i + 1) l a) (i := i + 1) (by omega)
    rw [Prod.ext_iff] at hsweep
    dsimp only at hsweep
    rw [hl'] at hih
    rw [hl, List.range'_succ, List.range'_succ, List.foldl_cons, List.map_cons, List.map_cons,
      sortFrom, hl', hih, foldl_sweepInPlace_of_ne (Or.inl (Nat.lt_succ_self i)) (by omega),
      hsweep.1, hsweep.2]

/-- **The loops on an array** leave what the ones on the list of its first records do. -/
theorem map_sortInPlace (n : ℕ) (a : ℕ → α) :
    (List.range n).map (sortInPlace key n a) = sort key ((List.range n).map a) := by
  cases n with
  | zero => rfl
  | succ n =>
    rw [sortInPlace, List.range_eq_range', List.range_eq_range']
    exact (map_foldl_sweepInPlace (i := 0) (by omega)).trans (sortFrom_of_length_le (by simp))

/-- **They change no other position.** -/
theorem sortInPlace_of_le (h : n ≤ k) : sortInPlace key n a k = a k := by
  rw [sortInPlace, List.range_eq_range']
  exact foldl_sweepInPlace_of_ne (Or.inr h) (by omega)

end ExchangeSort
