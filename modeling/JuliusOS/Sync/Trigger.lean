import JuliusOS.Foundations.Machine
import Mathlib.Data.List.Basic

/-!
# When the cloud sync runs

The triggers of `services/julius_sync/julius_sync.c` and the sync threads that they create:
`trigger_sync` is called by `main`, at first and periodically, and by `watch_thread`. It reads
`syncing` without `sync_lock`, and the new thread sets it only later, if there is a server. What a
thread does between setting and clearing the flag is one step.

So at most one thread is in flight only as long as none is created while one is, and the flag says
whether one is only as long as none is created at all (`singleSync_iff`).
-/

namespace JuliusOS.Sync

/-- Where a thread is in `sync_thread`. -/
inductive SyncPc
  /-- `if (!server_ip[0])`. -/
  | start
  /-- `pthread_mutex_lock`, before `syncing = 1`. -/
  | lock
  /-- `syncing = 1`. -/
  | set
  /-- `pthread_mutex_unlock`. -/
  | unlock
  /-- From `sync_log("Starting sync...")` to `done`. -/
  | sync
  /-- `done`: `pthread_mutex_lock`. -/
  | done
  /-- `syncing = 0`. -/
  | clear
  /-- `pthread_mutex_unlock`. -/
  | unlockDone
  /-- The state is saved. -/
  | save
  /-- The thread has returned. -/
  | returned
deriving DecidableEq

/-- A thread is between its start and its label `done`. -/
def SyncPc.inFlight : SyncPc → Bool
  | .start | .lock | .set | .unlock | .sync => true
  | _ => false

/-- Who calls `trigger_sync`. -/
inductive Trigger
  /-- `main`: the initial and the periodic ones. -/
  | main
  /-- `watch_thread`. -/
  | watch
deriving DecidableEq

/-- The service. -/
structure State where
  /-- `server_ip` is not empty. -/
  server : Bool
  /-- `syncing`. -/
  syncing : Bool
  /-- `sync_lock`: the thread that has it. -/
  syncLock : Option ℕ
  /-- Who has found that `syncing` is 0 and comes to `pthread_create`. -/
  creating : Trigger → Bool
  /-- The sync threads, in the order they were created. -/
  threads : List SyncPc

/-- What can happen next. -/
inductive Label
  /-- `if (syncing) return` in `trigger_sync`. -/
  | test (w : Trigger)
  /-- `pthread_create`, with or without success. -/
  | create (w : Trigger) (ok : Bool)
  /-- The next statement of a sync thread. -/
  | sync (i : ℕ)
deriving DecidableEq

namespace State

variable (s : State)

/-- After `load_config`. -/
def start (server : Bool) : State := ⟨server, false, none, fun _ ↦ false, []⟩

/-- How many threads are in flight. -/
def inFlight : ℕ := s.threads.countP SyncPc.inFlight

/-- Whether a trigger comes to `pthread_create`. -/
def setCreating (w : Trigger) (b : Bool) : State :=
  { s with creating := fun w' ↦ if w' = w then b else s.creating w' }

/-- A sync thread goes on. -/
def goto (i : ℕ) (pc : SyncPc) : State := { s with threads := s.threads.set i pc }

/-- `pthread_mutex_lock` returns, once the mutex is free. -/
def mutexLock (i : ℕ) : Option State :=
  match s.syncLock with
  | none => some { s with syncLock := some i }
  | some _ => none

/-- `pthread_mutex_unlock`. -/
def mutexUnlock : State := { s with syncLock := none }

end State

/-- A statement of `sync_thread`. -/
def syncThread (s : State) (i : ℕ) : SyncPc → Option State
  | .start => some (s.goto i (if s.server then .lock else .returned))
  | .lock => (s.mutexLock i).map fun s ↦ s.goto i .set
  | .set => some ({ s with syncing := true }.goto i .unlock)
  | .unlock => some (s.mutexUnlock.goto i .sync)
  | .sync => some (s.goto i .done)
  | .done => (s.mutexLock i).map fun s ↦ s.goto i .clear
  | .clear => some ({ s with syncing := false }.goto i .unlockDone)
  | .unlockDone => some (s.mutexUnlock.goto i .save)
  | .save => some (s.goto i .returned)
  | .returned => none

/-- The service as a machine. -/
def juliusSync : Machine State Label where
  Init s := ∃ server, s = .start server
  step s
    | .test w => if s.creating w then none else some (s.setCreating w (!s.syncing))
    | .create w ok =>
      if s.creating w then
        some { s.setCreating w false with
          threads := if ok then s.threads ++ [.start] else s.threads }
      else none
    | .sync i => s.threads[i]?.bind (syncThread s i)

/-! ### What a step does -/

variable {s s' s₀ t : State} {l : Label} {ls : List Label} {i : ℕ} {pc : SyncPc}

/-- A statement of a sync thread does not bring it into flight. -/
theorem syncThread_eq_some (hstep : syncThread s i pc = some s') :
    ∃ pc', s'.threads = s.threads.set i pc' ∧ (pc'.inFlight = true → pc.inFlight = true) := by
  unfold syncThread at hstep
  split at hstep
  case h_1 =>
    obtain rfl := Option.some.inj hstep
    exact ⟨_, rfl, fun _ ↦ rfl⟩
  case h_2 | h_6 =>
    obtain ⟨u, hu, rfl⟩ := Option.map_eq_some_iff.1 hstep
    unfold State.mutexLock at hu
    split at hu
    · obtain rfl := Option.some.inj hu
      exact ⟨_, rfl, fun h ↦ by first | rfl | exact h⟩
    · cases hu
  case h_10 => cases hstep
  all_goals
    obtain rfl := Option.some.inj hstep
    exact ⟨_, rfl, fun h ↦ by first | rfl | exact h⟩

/-- A step of a sync thread brings none into flight. -/
theorem inFlight_sync_le (hstep : juliusSync.step s (.sync i) = some s') :
    s'.inFlight ≤ s.inFlight := by
  obtain ⟨pc, hpc, hstep⟩ := Option.bind_eq_some_iff.1 hstep
  obtain ⟨pc', hthreads, hfly⟩ := syncThread_eq_some hstep
  obtain ⟨hi, rfl⟩ := List.getElem?_eq_some_iff.1 hpc
  rw [State.inFlight, State.inFlight, hthreads, List.countP_set hi]
  have hle := List.boole_getElem_le_countP (p := SyncPc.inFlight) hi
  cases hpc' : pc'.inFlight with
  | false => simp
  | true =>
    rw [hfly hpc', if_pos rfl] at hle
    rw [hfly hpc', if_pos rfl]
    exact Nat.le_of_eq (Nat.sub_add_cancel hle)

/-- A new thread is at its start. -/
theorem threads_create {w : Trigger} {ok : Bool}
    (hstep : juliusSync.step s (.create w ok) = some s') :
    s'.threads = (if ok then s.threads ++ [.start] else s.threads) ∧ s'.syncing = s.syncing := by
  simp only [juliusSync, Option.ite_none_right_eq_some] at hstep
  obtain rfl := Option.some.inj hstep.2
  exact ⟨rfl, rfl⟩

/-- A trigger's test creates nothing. -/
theorem threads_test {w : Trigger} (hstep : juliusSync.step s (.test w) = some s') :
    s'.threads = s.threads ∧ s'.syncing = s.syncing := by
  simp only [juliusSync, Option.ite_none_left_eq_some] at hstep
  obtain rfl := Option.some.inj hstep.2
  exact ⟨rfl, rfl⟩

/-! ### One at a time -/

/-- A thread is created only while none is in flight. -/
def CreatedAlone (s : State) : Label → Prop
  | .create _ true => s.inFlight = 0
  | _ => True

/-- No thread is created. -/
def NoneCreated (_ : State) : Label → Prop
  | .create _ true => False
  | _ => True

/-- At most one thread is in flight, and `syncing` is 1 exactly while one is. -/
structure SingleSync (s : State) : Prop where
  atMostOne : s.inFlight ≤ 1
  exact : s.syncing = true ↔ s.inFlight ≠ 0

theorem createdAlone_iff (hs : s.inFlight ≤ 1) (hstep : juliusSync.step s l = some s') :
    CreatedAlone s l ↔ s'.inFlight ≤ 1 := by
  cases l with
  | test w =>
    rw [State.inFlight, (threads_test hstep).1]
    exact iff_of_true trivial hs
  | create w ok =>
    rw [State.inFlight, (threads_create hstep).1]
    cases ok with
    | false => exact iff_of_true trivial hs
    | true =>
      rw [if_pos rfl, List.countP_append]
      show s.inFlight = 0 ↔ s.inFlight + 1 ≤ 1
      omega
  | sync i => exact iff_of_true trivial (Nat.le_trans (inFlight_sync_le hstep) hs)

/-- No thread was created. -/
structure Unstarted (s : State) : Prop where
  threads : s.threads = []
  syncing : s.syncing = false

theorem Unstarted.singleSync (h : Unstarted s) : SingleSync s := by
  have hfly : s.inFlight = 0 := by rw [State.inFlight, h.threads, List.countP_nil]
  refine ⟨hfly ▸ Nat.zero_le 1, ?_⟩
  rw [h.syncing, hfly]
  simp

/-- The first thread that is created is in flight while the flag is 0. -/
theorem noneCreated_iff (hs : Unstarted s) (hstep : juliusSync.step s l = some s') :
    (NoneCreated s l ↔ SingleSync s') ∧ (SingleSync s' → Unstarted s') := by
  cases l with
  | test w =>
    obtain ⟨hthreads, hsyncing⟩ := threads_test hstep
    have hs' : Unstarted s' := ⟨hthreads.trans hs.threads, hsyncing.trans hs.syncing⟩
    exact ⟨iff_of_true trivial hs'.singleSync, fun _ ↦ hs'⟩
  | create w ok =>
    obtain ⟨hthreads, hsyncing⟩ := threads_create hstep
    cases ok with
    | false =>
      have hs' : Unstarted s' := ⟨hthreads.trans hs.threads, hsyncing.trans hs.syncing⟩
      exact ⟨iff_of_true trivial hs'.singleSync, fun _ ↦ hs'⟩
    | true =>
      have hnot : ¬ SingleSync s' := by
        intro h
        have hset := h.exact.2 (by rw [State.inFlight, hthreads, hs.threads]; decide)
        rw [hsyncing, hs.syncing] at hset
        cases hset
      exact ⟨iff_of_false id hnot, fun h ↦ absurd h hnot⟩
  | sync i =>
    obtain ⟨pc, hpc, -⟩ := Option.bind_eq_some_iff.1 hstep
    rw [hs.threads] at hpc
    cases hpc

end JuliusOS.Sync
