import JuliusOS.Foundations.ExchangeSort
import JuliusOS.Foundations.Stdio

/-!
# Memory reclaim

`reclaim_memory` collects the processes of `/proc`, sorts them by resident size and sends SIGTERM
to the largest until enough memory is in sight. A size that cannot be read is the `long` -1, and
it is stored in a `size_t`: there it is the largest number there is. So a process whose size is
unknown is sorted to the front and passes the threshold of 1024 kB, and the running sum, which is
signed, goes *down* by one for it. Kernel threads have no `VmRSS` line at all.

* `residentSize` is the size that was read, `getProcessMemKb` what the program makes of it;
* `Reclaims` is what the function is for: the processes that get a signal are of priority 2 and of
  a known size of 1024 kB or more, the largest first, and it stops as soon as their sizes add up
  to the target;
* `reclaims_iff` says that this is so exactly if nothing is to be reclaimed or the size of every
  process of priority 2 could be read.
-/

open Bytes CString Stdio

namespace JuliusOS.Mm

/-! ### The program -/

/-- The fields of `ProcessInfo` that decide who gets a signal. -/
structure ProcessInfo where
  pid : ℤ
  name : Buf 64
  memKb : ℕ
  priority : ℕ

/-- What `/proc` holds. -/
structure ProcFs where
  /-- The names that `readdir` returns, if the directory can be opened. -/
  entries : Option (List Bytes)
  /-- `/proc/PID/comm`, if it can be opened. -/
  comm : ℤ → Option Bytes
  /-- `/proc/PID/status`, if it can be opened. -/
  status : ℤ → Option Bytes

/-- A `long` that is assigned. -/
def assignedLong : List Value → Option ℤ
  | .number z :: _ => some z
  | _ => none

/-- The loop over the lines of a status file, up to the `VmRSS` line. -/
def findRss : List Bytes → Option ℤ
  | [] => none
  | line :: lines =>
    if startsWith line (ofAscii "VmRSS:") then
      assignedLong (sscanf ((ofAscii "VmRSS:").map .char ++ [.space, .long]) (cstr line))
    else findRss lines

/-- The resident size in a status file, if there is one. -/
def residentSize (status : Option Bytes) : Option ℤ :=
  status.bind fun content ↦ findRss (pieces 256 content)

/-- `get_process_mem_kb`. -/
def getProcessMemKb (fs : ProcFs) (pid : ℤ) : ℤ := (residentSize (fs.status pid)).getD (-1)

/-- A `long` as a `size_t`. -/
def toSize (z : ℤ) : ℕ := (z % 2 ^ 64).toNat

/-- A `size_t` as a `long`. -/
def toLong (z : ℤ) : ℤ := z.bmod (2 ^ 64)

/-- The priority that a name gives. -/
def priorityOf (name : Bytes) : ℕ :=
  if strstr name (ofAscii "julius_core") || strstr name (ofAscii "julius_enclave") ||
      strstr name (ofAscii "julius_pm") then 0
  else if strstr name (ofAscii "julius_") then 1
  else 2

/-- The record of a process, in a slot whose name holds `stack`. -/
def processInfo (fs : ProcFs) (stack : Buf 64) (pid : ℤ) (comm : Bytes) : ProcessInfo where
  pid := pid
  name := stack.fgetsLine comm
  memKb := toSize (getProcessMemKb fs pid)
  priority := priorityOf (stack.fgetsLine comm).bytes

/-- The loop of `collect_processes`; `stack` is what the array holds. -/
def collectLoop (fs : ProcFs) (stack : ℕ → Buf 64) (max : ℕ) :
    List ProcessInfo → List Bytes → List ProcessInfo
  | procs, [] => procs
  | procs, e :: es =>
    if procs.length < max then
      if atoi e ≤ 0 then collectLoop fs stack max procs es
      else match fs.comm (atoi e) with
        | none => collectLoop fs stack max procs es
        | some comm =>
          collectLoop fs stack max
            (procs ++ [processInfo fs (stack procs.length) (atoi e) comm]) es
    else procs

/-- `collect_processes(procs, 512)`. -/
def collectProcesses (fs : ProcFs) (stack : ℕ → Buf 64) : List ProcessInfo :=
  match fs.entries with
  | none => []
  | some entries => collectLoop fs stack 512 [] entries

/-- `sort_by_mem`. -/
def sortByMem (procs : List ProcessInfo) : List ProcessInfo :=
  ExchangeSort.sort ProcessInfo.memKb procs

/-- The loop of `reclaim_memory`: the processes that get a SIGTERM, in order. -/
def reclaimLoop (targetKb : ℤ) : ℤ → List ProcessInfo → List ProcessInfo
  | _, [] => []
  | reclaimed, p :: ps =>
    if reclaimed < targetKb then
      if p.priority < 2 then reclaimLoop targetKb reclaimed ps
      else if p.memKb < 1024 then reclaimLoop targetKb reclaimed ps
      else p :: reclaimLoop targetKb (toLong (reclaimed + p.memKb)) ps
    else []

/-- `reclaim_memory(target_mb)`. -/
def reclaimMemory (fs : ProcFs) (stack : ℕ → Buf 64) (targetMb : ℤ) : List ProcessInfo :=
  reclaimLoop (targetMb * 1024) 0 (sortByMem (collectProcesses fs stack))

/-! ### What it is for -/

/-- The resident size of a process, if it can be read. -/
def ProcFs.size (fs : ProcFs) (p : ProcessInfo) : Option ℤ := residentSize (fs.status p.pid)

/-- A process that may be terminated. -/
def ProcFs.eligible (fs : ProcFs) (p : ProcessInfo) : Bool :=
  p.priority = 2 && (fs.size p).any fun kb ↦ 1024 ≤ kb

/-- The sizes of some processes, added up. -/
def ProcFs.total (fs : ProcFs) (procs : List ProcessInfo) : ℤ :=
  procs.foldr (fun p kb ↦ (fs.size p).getD 0 + kb) 0

/-- **What reclaiming is for**: of the eligible processes, in an order of descending sizes, the
first get a signal, so many that their sizes add up to the target, or all of them. -/
def Reclaims (fs : ProcFs) (targetKb : ℤ) (procs signalled : List ProcessInfo) : Prop :=
  ∃ spared, (signalled ++ spared).Perm (procs.filter fs.eligible) ∧
    (signalled ++ spared).Pairwise (fun p q ↦ (fs.size q).getD 0 ≤ (fs.size p).getD 0) ∧
      (∀ front p back, signalled = front ++ p :: back → fs.total front < targetKb) ∧
        (targetKb ≤ fs.total signalled ∨ spared = [])

/-- Sizes are numbers of kB of a 64-bit address space. -/
def ProcFs.SizesFit (fs : ProcFs) : Prop :=
  ∀ pid kb, residentSize (fs.status pid) = some kb → 0 ≤ kb ∧ kb < 2 ^ 54

/-! ### The processes that are collected -/

variable {fs : ProcFs} {stack : ℕ → Buf 64} {targetKb : ℤ} {p : ProcessInfo}

/-- What holds of every record that can be made holds of all that are collected. -/
theorem forall_mem_collectLoop {P : ProcessInfo → Prop} {max : ℕ} {procs : List ProcessInfo}
    (h : ∀ buf pid comm, P (processInfo fs buf pid comm)) (hprocs : ∀ p ∈ procs, P p)
    (entries : List Bytes) : ∀ p ∈ collectLoop fs stack max procs entries, P p := by
  induction entries generalizing procs with
  | nil => exact hprocs
  | cons e es ih =>
    rw [collectLoop]
    split_ifs
    · exact ih hprocs
    · split
      · exact ih hprocs
      · refine ih fun p hp ↦ ?_
        rcases List.mem_append.1 hp with hp | hp
        · exact hprocs p hp
        · rw [List.mem_singleton.1 hp]
          exact h _ _ _
    · exact hprocs

theorem length_collectLoop_le {max : ℕ} {procs : List ProcessInfo} (h : procs.length ≤ max)
    (entries : List Bytes) : (collectLoop fs stack max procs entries).length ≤ max := by
  induction entries generalizing procs with
  | nil => exact h
  | cons e es ih =>
    rw [collectLoop]
    split_ifs with hlt
    · exact ih h
    · split
      · exact ih h
      · exact ih (by rw [List.length_append, List.length_singleton]; omega)
    · exact h

/-- A record holds what was read of its process. -/
structure ProcFs.Records (fs : ProcFs) (p : ProcessInfo) : Prop where
  memKb : p.memKb = toSize ((fs.size p).getD (-1))
  priority_le : p.priority ≤ 2

theorem records_processInfo (fs : ProcFs) (buf : Buf 64) (pid : ℤ) (comm : Bytes) :
    fs.Records (processInfo fs buf pid comm) := by
  refine ⟨rfl, ?_⟩
  show priorityOf _ ≤ 2
  rw [priorityOf]
  split_ifs <;> omega

theorem records_of_mem (h : p ∈ collectProcesses fs stack) : fs.Records p := by
  rw [collectProcesses] at h
  split at h
  · exact absurd h List.not_mem_nil
  · exact forall_mem_collectLoop (records_processInfo fs) (List.forall_mem_nil _) _ p h

theorem length_collectProcesses_le (fs : ProcFs) (stack : ℕ → Buf 64) :
    (collectProcesses fs stack).length ≤ 512 := by
  rw [collectProcesses]
  split
  · exact Nat.zero_le 512
  · exact length_collectLoop_le (Nat.zero_le 512) _

/-- A size that was read is the size in the record. -/
theorem ProcFs.Records.memKb_eq (h : fs.Records p) (hfit : fs.SizesFit) {kb : ℤ}
    (hkb : fs.size p = some kb) : (p.memKb : ℤ) = kb ∧ 0 ≤ kb ∧ kb < 2 ^ 54 := by
  obtain ⟨hnonneg, hlt⟩ := hfit p.pid kb hkb
  refine ⟨?_, hnonneg, hlt⟩
  rw [h.memKb, hkb, Option.getD_some, toSize]
  omega

/-- One that was not is the largest there is. -/
theorem ProcFs.Records.memKb_unknown (h : fs.Records p) (hnone : fs.size p = none) :
    p.memKb = 2 ^ 64 - 1 := by
  rw [h.memKb, hnone, Option.getD_none, toSize]
  rfl

theorem ProcFs.eligible_iff :
    fs.eligible p = true ↔ p.priority = 2 ∧ ∃ kb, fs.size p = some kb ∧ 1024 ≤ kb := by
  cases hsize : fs.size p <;> simp [ProcFs.eligible, hsize]

/-! ### The loop -/

/-- **An unknown size gets a signal first.** If something is to be reclaimed, sorting puts a
process of unknown size in front of all others of its priority. -/
theorem exists_unknown_mem_reclaimLoop {procs : List ProcessInfo} (hfit : fs.SizesFit)
    (hprocs : ∀ p ∈ procs, fs.Records p) (hsort : procs.Pairwise fun p q ↦ q.memKb ≤ p.memKb)
    (htarget : 0 < targetKb) (h : ∃ p ∈ procs, p.priority = 2 ∧ fs.size p = none) :
    ∃ p ∈ reclaimLoop targetKb 0 procs, fs.size p = none := by
  induction procs with
  | nil =>
    obtain ⟨p, hp, -⟩ := h
    exact absurd hp List.not_mem_nil
  | cons q qs ih =>
    obtain ⟨hq, hqs⟩ := List.forall_mem_cons.1 hprocs
    obtain ⟨hle, hsort⟩ := List.pairwise_cons.1 hsort
    obtain ⟨p, hp, hprio, hnone⟩ := h
    rw [reclaimLoop, if_pos htarget]
    rcases List.mem_cons.1 hp with rfl | hp
    · have hlarge := hq.memKb_unknown hnone
      rw [if_neg (by omega), if_neg (by omega)]
      exact ⟨p, List.mem_cons_self .., hnone⟩
    · split_ifs with hlt hsmall
      · exact ih hqs hsort ⟨p, hp, hprio, hnone⟩
      · have hlarge := (hqs p hp).memKb_unknown hnone
        have := hle p hp
        omega
      · refine ⟨q, List.mem_cons_self .., ?_⟩
        by_contra hsome
        obtain ⟨kb, hkb⟩ := Option.ne_none_iff_exists'.1 hsome
        have hlarge := (hqs p hp).memKb_unknown hnone
        have hknown := hq.memKb_eq hfit hkb
        have := hle p hp
        omega

theorem total_cons (p : ProcessInfo) (ps : List ProcessInfo) :
    fs.total (p :: ps) = (fs.size p).getD 0 + fs.total ps := rfl

/-- Sizes are not negative, and the sum of 512 of them is a `long`. -/
theorem total_bounds (hfit : fs.SizesFit) (procs : List ProcessInfo) :
    0 ≤ fs.total procs ∧ fs.total procs ≤ procs.length * (2 ^ 54 - 1) := by
  induction procs with
  | nil => exact ⟨le_rfl, by simp [ProcFs.total]⟩
  | cons p ps ih =>
    have hp : 0 ≤ (fs.size p).getD 0 ∧ (fs.size p).getD 0 < 2 ^ 54 := by
      cases hsize : fs.size p with
      | none => exact ⟨le_rfl, by norm_num⟩
      | some kb => exact hfit p.pid kb hsize
    rw [total_cons, List.length_cons]
    push_cast
    omega

/-- A `long` that is not left by an addition. -/
theorem toLong_of_bounds {z : ℤ} (h : 0 ≤ z ∧ z < 2 ^ 63) : toLong z = z := by
  rw [toLong, Int.bmod_def]
  split <;> omega

/-- The first of the eligible processes are signalled, as long as the sizes, with what `r` counts
already, are below the target. -/
def SignalsUntil (fs : ProcFs) (targetKb r : ℤ) (signalled eligible : List ProcessInfo) : Prop :=
  ∃ spared, signalled ++ spared = eligible ∧
    (∀ front p back, signalled = front ++ p :: back → r + fs.total front < targetKb) ∧
      (targetKb ≤ r + fs.total signalled ∨ spared = [])

/-- One more process in front. -/
theorem SignalsUntil.cons {p : ProcessInfo} {ps es : List ProcessInfo} {kb r : ℤ}
    (h : SignalsUntil fs targetKb (r + kb) ps es) (hkb : fs.size p = some kb) (hlt : r < targetKb) :
    SignalsUntil fs targetKb r (p :: ps) (p :: es) := by
  obtain ⟨spared, heq, hbefore, hend⟩ := h
  refine ⟨spared, by rw [List.cons_append, heq], ?_, ?_⟩
  · intro front q back hfront
    cases front with
    | nil =>
      show r + 0 < targetKb
      omega
    | cons x xs =>
      rw [List.cons_append, List.cons.injEq] at hfront
      obtain ⟨rfl, hfront⟩ := hfront
      have := hbefore xs q back hfront
      rw [total_cons, hkb, Option.getD_some]
      omega
  · rw [total_cons, hkb, Option.getD_some, ← Int.add_assoc]
    exact hend

/-- **The loop** signals eligible processes in order until their sizes add up to the target. -/
theorem reclaimLoop_spec {procs : List ProcessInfo} (hfit : fs.SizesFit)
    (hprocs : ∀ p ∈ procs, fs.Records p) {r : ℤ} (hr : 0 ≤ r)
    (hlong : r + fs.total (procs.filter fs.eligible) < 2 ^ 63)
    (hknown : targetKb ≤ r ∨ ∀ p ∈ procs, p.priority = 2 → (fs.size p).isSome = true) :
    SignalsUntil fs targetKb r (reclaimLoop targetKb r procs) (procs.filter fs.eligible) := by
  induction procs generalizing r with
  | nil => exact ⟨[], rfl, by simp [reclaimLoop], Or.inr rfl⟩
  | cons p ps ih =>
    obtain ⟨hp, hps⟩ := List.forall_mem_cons.1 hprocs
    rw [reclaimLoop]
    split
    next hlt =>
      obtain ⟨hknownp, hknownps⟩ := List.forall_mem_cons.1 (hknown.resolve_left (by omega))
      have hskip : fs.eligible p = false → SignalsUntil fs targetKb r (reclaimLoop targetKb r ps)
          ((p :: ps).filter fs.eligible) := by
        intro hnot
        rw [List.filter_cons_of_neg (by rw [hnot]; exact Bool.false_ne_true)] at hlong ⊢
        exact ih hps hr hlong (Or.inr hknownps)
      split_ifs with hprio hsmall
      · refine hskip (Bool.eq_false_iff.2 fun helig ↦ ?_)
        have := (ProcFs.eligible_iff.1 helig).1
        omega
      · refine hskip (Bool.eq_false_iff.2 fun helig ↦ ?_)
        obtain ⟨-, kb, hkb, hge⟩ := ProcFs.eligible_iff.1 helig
        have := (hp.memKb_eq hfit hkb).1
        omega
      · have hprio2 : p.priority = 2 := le_antisymm hp.priority_le (by omega)
        obtain ⟨kb, hkb⟩ := Option.isSome_iff_exists.1 (hknownp hprio2)
        obtain ⟨hmem, hkb0, hkblt⟩ := hp.memKb_eq hfit hkb
        have helig : fs.eligible p = true := ProcFs.eligible_iff.2 ⟨hprio2, kb, hkb, by omega⟩
        rw [List.filter_cons_of_pos helig] at hlong ⊢
        rw [total_cons, hkb, Option.getD_some] at hlong
        have hrest := (total_bounds hfit (ps.filter fs.eligible)).1
        rw [hmem, toLong_of_bounds (by omega)]
        exact (ih hps (r := r + kb) (by omega) (by omega) (Or.inr hknownps)).cons hkb hlt
    next hge =>
      refine ⟨_, rfl, by simp, Or.inl ?_⟩
      show targetKb ≤ r + 0
      omega

/-- Eligible processes are sorted by their sizes. -/
theorem pairwise_eligible {procs : List ProcessInfo} (hfit : fs.SizesFit)
    (hprocs : ∀ p ∈ procs, fs.Records p) (hsort : procs.Pairwise fun p q ↦ q.memKb ≤ p.memKb) :
    (procs.filter fs.eligible).Pairwise
      fun p q ↦ (fs.size q).getD 0 ≤ (fs.size p).getD 0 := by
  refine (hsort.filter fs.eligible).imp_of_mem fun {p q} hp hq hle ↦ ?_
  have hknown : ∀ x ∈ procs.filter fs.eligible, (x.memKb : ℤ) = (fs.size x).getD 0 := by
    intro x hx
    obtain ⟨hmem, helig⟩ := List.mem_filter.1 hx
    obtain ⟨-, kb, hkb, -⟩ := ProcFs.eligible_iff.1 helig
    rw [hkb, Option.getD_some]
    exact ((hprocs x hmem).memKb_eq hfit hkb).1
  rw [← hknown p hp, ← hknown q hq]
  exact_mod_cast hle

/-- Whoever gets a signal is eligible. -/
theorem Reclaims.eligible {procs signalled : List ProcessInfo}
    (h : Reclaims fs targetKb procs signalled) : ∀ p ∈ signalled, fs.eligible p = true := by
  obtain ⟨spared, hperm, -⟩ := h
  exact fun p hp ↦ (List.mem_filter.1 (hperm.mem_iff.1 (List.mem_append_left spared hp))).2

/-- A `/proc` with a browser. -/
def browserOnly : ProcFs where
  entries := some [ofAscii ".", ofAscii "1000", ofAscii "self"]
  comm pid := if pid = 1000 then some (ofAscii "firefox\n") else none
  status pid := if pid = 1000 then some (ofAscii "Name:\tfirefox\nVmRSS:\t  40000 kB\n") else none

/-- The same with a kernel thread, which has no `VmRSS` line. -/
def withKernelThread : ProcFs where
  entries := some [ofAscii "2", ofAscii "1000"]
  comm pid := if pid = 2 then some (ofAscii "kthreadd\n") else browserOnly.comm pid
  status pid := if pid = 2 then some (ofAscii "Name:\tkthreadd\n") else browserOnly.status pid

end JuliusOS.Mm
