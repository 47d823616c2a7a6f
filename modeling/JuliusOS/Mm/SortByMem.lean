import JuliusOS.Mm.Reclaim

/-!
# Sorting the array of processes

`sort_by_mem` sorts an array in place: two loops over positions that exchange whole records. The
first `count` records afterwards are those from before, the largest first, and no other record is
touched (`sortByMem_in_place`). What `reclaim_memory` then reads of them is what `sortByMem` says,
which sorts the list of the fields that are read (`map_sortByMemInPlace`).
-/

namespace JuliusOS.Mm

/-- `ProcessInfo`, with the fields that `reclaim_memory` does not read. -/
structure ProcessRow extends ProcessInfo where
  oomScore : ℤ
  lastActive : ℤ

/-- `sort_by_mem(procs, count)`, where `procs k` is the record at `procs[k]`. -/
def sortByMemInPlace (procs : ℕ → ProcessRow) (count : ℕ) : ℕ → ProcessRow :=
  ExchangeSort.sortInPlace (fun p ↦ p.memKb) count procs

/-- The records that `reclaim_memory` reads. -/
theorem map_sortByMemInPlace (procs : ℕ → ProcessRow) (count : ℕ) :
    ((List.range count).map (sortByMemInPlace procs count)).map ProcessRow.toProcessInfo =
      sortByMem (((List.range count).map procs).map ProcessRow.toProcessInfo) := by
  rw [sortByMemInPlace, ExchangeSort.map_sortInPlace, sortByMem]
  exact (ExchangeSort.sort_map ProcessRow.toProcessInfo ((List.range count).map procs)).symm

/-- **The array is sorted in place.** The first `count` records are those from before, in an order
of descending sizes, and the others are left as they were. -/
theorem sortByMem_in_place (procs : ℕ → ProcessRow) (count : ℕ) :
    ((List.range count).map (sortByMemInPlace procs count)).Perm ((List.range count).map procs) ∧
      (∀ i j, i < j → j < count →
        (sortByMemInPlace procs count j).memKb ≤ (sortByMemInPlace procs count i).memKb) ∧
        ∀ k, count ≤ k → sortByMemInPlace procs count k = procs k := by
  have hmap : (List.range count).map (sortByMemInPlace procs count) =
      ExchangeSort.sort (fun p ↦ p.memKb) ((List.range count).map procs) :=
    ExchangeSort.map_sortInPlace count procs
  refine ⟨hmap ▸ ExchangeSort.sort_perm _, fun i j hij hj ↦ ?_,
    fun k hk ↦ ExchangeSort.sortInPlace_of_le hk⟩
  have hsort : (ExchangeSort.sort (fun p ↦ p.memKb) ((List.range count).map procs)).Pairwise
      fun p q ↦ q.memKb ≤ p.memKb := ExchangeSort.pairwise_sort ((List.range count).map procs)
  rw [← hmap, List.pairwise_map] at hsort
  have hlen : (List.range count).length = count := List.length_range
  have hle := List.pairwise_iff_getElem.1 hsort i j (by omega) (by omega) hij
  rwa [List.getElem_range, List.getElem_range] at hle

end JuliusOS.Mm
