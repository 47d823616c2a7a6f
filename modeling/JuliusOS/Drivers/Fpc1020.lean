import JuliusOS.Foundations.Machine
import JuliusOS.Foundations.Mutex
import Mathlib.Data.Int.Notation
import Mathlib.Logic.Function.Basic

/-!
# The fingerprint sensor's driver

`drivers/fpc1020/julius_fpc1020.c`: any number of threads in `fpc_ioctl`, the interrupt handler and
the work item that it schedules. What the sensor answers, and when a signal or a timeout ends a
wait, is in the labels.

`FPC_IOC_CAPTURE_IMG` holds `lock` while it waits for `image_ready`, which only the work item sets,
and that with `lock` held. So a capture that comes to its wait is stuck there until it times out
or is interrupted (`not_imageReady`), and captures do what they should exactly as far as none of
them comes to its wait (`captures_iff`).
-/

namespace JuliusOS.Drivers.Fpc1020

/-- `ETIMEDOUT`. -/
abbrev eTimedOut : ℤ := 110

/-- `EFAULT`. -/
abbrev eFault : ℤ := 14

/-- `ENOTTY`. -/
abbrev eNotty : ℤ := 25

/-- `ERESTARTSYS`. -/
abbrev eRestartSys : ℤ := 512

/-- `FPC1020_INT_FINGER_DOWN`. -/
abbrev intFingerDown : UInt8 := 0x01

/-- `FPC1020_INT_FINGER_UP`. -/
abbrev intFingerUp : UInt8 := 0x02

/-- `FPC1020_INT_IMAGE_RDY`. -/
abbrev intImageRdy : UInt8 := 0x04

/-! ### The driver -/

/-- The commands of `fpc_ioctl`. -/
inductive Cmd
  /-- `FPC_IOC_WAIT_FINGER`. -/
  | waitFinger
  /-- `FPC_IOC_CAPTURE_IMG`. -/
  | captureImg
  /-- `FPC_IOC_ENROLL`. -/
  | enroll
  /-- `FPC_IOC_IDENTIFY`. -/
  | identify
  /-- `FPC_IOC_DELETE_ALL`. -/
  | deleteAll
  /-- `FPC_IOC_GET_STATUS`. -/
  | getStatus
  /-- `FPC_IOC_SLEEP`. -/
  | sleep
  /-- `FPC_IOC_WAKEUP`. -/
  | wakeup
  /-- Any other number. -/
  | other
deriving DecidableEq

/-- Where a thread is in `fpc_ioctl`. -/
inductive IoctlPc
  /-- In no call; the last one returned `ret`. -/
  | returned (ret : ℤ)
  /-- `fpc->finger_present = false`. -/
  | fingerClear
  /-- `fpc_write_reg` of `FPC1020_REG_INT_ENABLE`. -/
  | fingerEnable
  /-- `wait_event_interruptible`. -/
  | fingerWait
  /-- `mutex_lock`. -/
  | lock
  /-- `fpc_write_reg` of `FPC1020_REG_CAPTURE_SEQ`. -/
  | command
  /-- `if (ret) return ret`, and `fpc->image_ready = false`. -/
  | commanded (ret : ℤ)
  /-- `wait_event_interruptible_timeout`. -/
  | waiting
  /-- `spi_sync` of the image. -/
  | transfer
  /-- `copy_to_user` of the image. -/
  | copy
  /-- `mutex_unlock`. -/
  | unlock (ret : ℤ)
  /-- `fpc_write_reg` of `FPC1020_REG_SLEEP`. -/
  | sleep
  /-- `fpc_hw_reset`. -/
  | reset
  /-- `s = fpc->finger_present ? 1 : 0`. -/
  | status
  /-- `copy_to_user` of `s`. -/
  | copyStatus (s : UInt32)
deriving DecidableEq

/-- Where the work item is in `fpc_irq_work_handler`. -/
inductive WorkPc
  /-- It does not run. -/
  | idle
  /-- `mutex_lock`. -/
  | lock
  /-- `fpc_read_reg` of `FPC1020_REG_INT_STATUS`. -/
  | read
  /-- `int_status & FPC1020_INT_FINGER_DOWN`. -/
  | fingerDown (status : UInt8)
  /-- `int_status & FPC1020_INT_FINGER_UP`. -/
  | fingerUp (status : UInt8)
  /-- `int_status & FPC1020_INT_IMAGE_RDY`. -/
  | imageRdy (status : UInt8)
  /-- `fpc_write_reg` of `FPC1020_REG_INT_STATUS`. -/
  | ack
  /-- `mutex_unlock`. -/
  | unlock
  /-- `wake_up_interruptible`. -/
  | wake
deriving DecidableEq

/-- Who can own `lock`. -/
inductive Owner
  /-- A thread in `fpc_ioctl`. -/
  | ioctl (i : ℕ)
  /-- The work item. -/
  | work
deriving DecidableEq

/-- A `julius_fpc`, with the threads and the work item that use it. -/
structure JuliusFpc where
  /-- `lock`. -/
  lock : Option Owner
  /-- `finger_present`. -/
  fingerPresent : Bool
  /-- `image_ready`. -/
  imageReady : Bool
  /-- `irq_work` is queued. -/
  queued : Bool
  /-- Where `irq_work` is. -/
  work : WorkPc
  /-- Where the threads are. -/
  threads : ℕ → IoctlPc

/-- What a thread in `fpc_ioctl` does next, and what the sensor or the kernel answers. -/
inductive IoctlStep
  /-- `ioctl(cmd)`. -/
  | call (cmd : Cmd)
  /-- A statement without an answer, or `mutex_lock` returns. -/
  | next
  /-- A transfer on the bus returns `ret`. -/
  | spi (ret : ℤ)
  /-- A wait ends as its condition is true. -/
  | wake
  /-- A wait ends as its time is over. -/
  | timeout
  /-- A wait ends by a signal. -/
  | signal
  /-- `copy_to_user` copies everything, or not. -/
  | copied (ok : Bool)
deriving DecidableEq

/-- What the work item does next. -/
inductive WorkStep
  /-- It is taken from the queue. -/
  | dequeue
  /-- A statement without an answer, or `mutex_lock` returns. -/
  | next
  /-- A transfer on the bus returns `ret`, and has read `val`. -/
  | spi (ret : ℤ) (val : UInt8)
deriving DecidableEq

/-- What can happen next. -/
inductive Label
  /-- A step of a thread. -/
  | ioctl (i : ℕ) (a : IoctlStep)
  /-- An interrupt, which the sensor raises for some events. -/
  | irq (events : UInt8)
  /-- A step of the work item. -/
  | work (a : WorkStep)
deriving DecidableEq

namespace JuliusFpc

variable (s : JuliusFpc)

/-- After `probe`. -/
def probed : JuliusFpc := ⟨none, false, false, false, .idle, fun _ ↦ .returned 0⟩

/-- A thread goes on. -/
def goto (i : ℕ) (pc : IoctlPc) : JuliusFpc :=
  { s with threads := Function.update s.threads i pc }

/-- The work item goes on. -/
def workAt (pc : WorkPc) : JuliusFpc := { s with work := pc }

/-- `mutex_lock` returns, once the mutex is free. -/
def mutexLock (o : Owner) : Option JuliusFpc :=
  match s.lock with
  | none => some { s with lock := some o }
  | some _ => none

/-- `mutex_unlock`. -/
def mutexUnlock : JuliusFpc := { s with lock := none }

end JuliusFpc

/-- The `switch` of `fpc_ioctl`. -/
def fpcIoctl : Cmd → IoctlPc
  | .waitFinger => .fingerClear
  | .captureImg => .lock
  | .sleep => .sleep
  | .wakeup => .reset
  | .getStatus => .status
  | .enroll | .identify | .deleteAll | .other => .returned (-eNotty)

/-- A step of a thread in `fpc_ioctl`. -/
def ioctlStep (s : JuliusFpc) (i : ℕ) (a : IoctlStep) : Option JuliusFpc :=
  match s.threads i, a with
  | .returned _, .call cmd => some (s.goto i (fpcIoctl cmd))
  | .fingerClear, .next => some ({ s with fingerPresent := false }.goto i .fingerEnable)
  | .fingerEnable, .spi _ => some (s.goto i .fingerWait)
  | .fingerWait, .wake => if s.fingerPresent then some (s.goto i (.returned 0)) else none
  | .fingerWait, .signal =>
    if s.fingerPresent then none else some (s.goto i (.returned (-eRestartSys)))
  | .lock, .next => (s.mutexLock (.ioctl i)).map fun s ↦ s.goto i .command
  | .command, .spi ret => some (s.goto i (.commanded ret))
  | .commanded ret, .next =>
    some (if ret ≠ 0 then s.goto i (.unlock ret)
      else { s with imageReady := false }.goto i .waiting)
  | .waiting, .wake => if s.imageReady then some (s.goto i .transfer) else none
  | .waiting, .timeout => if s.imageReady then none else some (s.goto i (.unlock (-eTimedOut)))
  | .waiting, .signal => if s.imageReady then none else some (s.goto i (.unlock (-eRestartSys)))
  | .transfer, .spi ret => some (s.goto i (if ret = 0 then .copy else .unlock ret))
  | .copy, .copied ok => some (s.goto i (.unlock (if ok then 0 else -eFault)))
  | .unlock ret, .next => some (s.mutexUnlock.goto i (.returned ret))
  | .sleep, .spi _ => some (s.goto i (.returned 0))
  | .reset, .next => some (s.goto i (.returned 0))
  | .status, .next => some (s.goto i (.copyStatus (if s.fingerPresent then 1 else 0)))
  | .copyStatus _, .copied ok => some (s.goto i (.returned (if ok then 0 else -eFault)))
  | _, _ => none

/-- A step of the work item. -/
def workStep (s : JuliusFpc) (a : WorkStep) : Option JuliusFpc :=
  match s.work, a with
  | .idle, .dequeue => if s.queued then some ({ s with queued := false }.workAt .lock) else none
  | .lock, .next => (s.mutexLock .work).map fun s ↦ s.workAt .read
  | .read, .spi ret val => some (s.workAt (.fingerDown (if ret = 0 then val else 0)))
  | .fingerDown status, .next =>
    some ({ s with fingerPresent := s.fingerPresent || status &&& intFingerDown ≠ 0 }.workAt
      (.fingerUp status))
  | .fingerUp status, .next =>
    some ({ s with fingerPresent := s.fingerPresent && status &&& intFingerUp = 0 }.workAt
      (.imageRdy status))
  | .imageRdy status, .next =>
    some ({ s with imageReady := s.imageReady || status &&& intImageRdy ≠ 0 }.workAt .ack)
  | .ack, .spi _ _ => some (s.workAt .unlock)
  | .unlock, .next => some (s.mutexUnlock.workAt .wake)
  | .wake, .next => some (s.workAt .idle)
  | _, _ => none

/-- The driver as a machine. `fpc_irq_handler` queues the work item, unless it is queued. -/
def fpc1020 : Machine JuliusFpc Label where
  Init s := s = .probed
  step s
    | .ioctl i a => ioctlStep s i a
    | .irq _ => some { s with queued := true }
    | .work a => workStep s a

/-! ### Who has the mutex -/

/-- Between `mutex_lock` and `mutex_unlock`. -/
def IoctlPc.Holds : IoctlPc → Prop
  | .command | .commanded _ | .waiting | .transfer | .copy | .unlock _ => True
  | _ => False

/-- Between `mutex_lock` and `mutex_unlock`. -/
def WorkPc.Holds : WorkPc → Prop
  | .read | .fingerDown _ | .fingerUp _ | .imageRdy _ | .ack | .unlock => True
  | _ => False

/-- Who is between `mutex_lock` and `mutex_unlock`. -/
def JuliusFpc.Holds (s : JuliusFpc) : Owner → Prop
  | .ioctl i => (s.threads i).Holds
  | .work => s.work.Holds

/-! ### What a step does -/

variable {s s' s₀ t : JuliusFpc} {i j : ℕ} {a : IoctlStep} {w : WorkStep} {l : Label}
  {ls : List Label} {pc pc' : IoctlPc}

/-- What a step of a thread does that was at some point of `fpc_ioctl`. -/
inductive IoctlDoes (s : JuliusFpc) (i : ℕ) : IoctlPc → JuliusFpc → Prop
  /-- It does not have the mutex. -/
  | outside {pc pc' : IoctlPc} (finger : Bool) (hpc : ¬ pc.Holds) (hpc' : ¬ pc'.Holds) :
    IoctlDoes s i pc ({ s with fingerPresent := finger }.goto i pc')
  /-- It takes the mutex. -/
  | lock (hfree : s.lock = none) :
    IoctlDoes s i .lock ({ s with lock := some (.ioctl i) }.goto i .command)
  /-- It has the mutex. -/
  | inside {pc pc' : IoctlPc} (hpc : pc.Holds) (hpc' : pc'.Holds) (hwait : pc' ≠ .waiting) :
    IoctlDoes s i pc (s.goto i pc')
  /-- It comes to the wait for `image_ready`. -/
  | wait : IoctlDoes s i (.commanded 0) ({ s with imageReady := false }.goto i .waiting)
  /-- It releases the mutex. -/
  | unlock (ret : ℤ) : IoctlDoes s i (.unlock ret) (s.mutexUnlock.goto i (.returned ret))

/-- What a step of the work item does. -/
inductive WorkDoes (s : JuliusFpc) : JuliusFpc → Prop
  /-- It does not have the mutex. -/
  | outside {pc : WorkPc} (queued : Bool) (hpc : ¬ s.work.Holds) (hpc' : ¬ pc.Holds) :
    WorkDoes s ({ s with queued }.workAt pc)
  /-- It takes the mutex. -/
  | lock (hfree : s.lock = none) : WorkDoes s ({ s with lock := some .work }.workAt .read)
  /-- It has the mutex. -/
  | inside {pc : WorkPc} (finger image : Bool) (hpc : s.work.Holds) (hpc' : pc.Holds) :
    WorkDoes s ({ s with fingerPresent := finger, imageReady := image }.workAt pc)
  /-- It releases the mutex. -/
  | unlock (hpc : s.work.Holds) : WorkDoes s (s.mutexUnlock.workAt .wake)

theorem mutexLock_eq_some {o : Owner} :
    s.mutexLock o = some s' ↔ s.lock = none ∧ s' = { s with lock := some o } := by
  unfold JuliusFpc.mutexLock
  split
  next h => rw [Option.some.injEq, h, eq_comm, and_iff_right rfl]
  next h => simp [h]

theorem not_holds_fpcIoctl (cmd : Cmd) : ¬ (fpcIoctl cmd).Holds := by
  cases cmd <;> exact id

/-- **Inversion** of a step of a thread. -/
theorem does_of_ioctlStep (hstep : ioctlStep s i a = some s') :
    IoctlDoes s i (s.threads i) s' := by
  unfold ioctlStep at hstep
  split at hstep
  case h_1 cmd hi =>
    obtain rfl := Option.some.inj hstep
    rw [hi]
    exact .outside s.fingerPresent id (not_holds_fpcIoctl cmd)
  case h_6 hi =>
    obtain ⟨u, hu, rfl⟩ := Option.map_eq_some_iff.1 hstep
    obtain ⟨hfree, rfl⟩ := mutexLock_eq_some.1 hu
    rw [hi]
    exact .lock hfree
  case h_8 ret hi =>
    obtain rfl := Option.some.inj hstep
    rw [hi]
    split
    next => exact .inside trivial trivial nofun
    next hret =>
      obtain rfl := not_not.1 hret
      exact .wait
  case h_14 ret hi =>
    obtain rfl := Option.some.inj hstep
    rw [hi]
    exact .unlock ret
  -- in all other branches the mutex is not touched, nor does the thread come to the wait
  all_goals try split at hstep
  all_goals try cases hstep
  all_goals rename s.threads i = _ => hi
  all_goals rw [hi]
  all_goals first
    | exact .outside s.fingerPresent id id
    | exact .outside false id id
    | exact .inside trivial trivial nofun

/-- **Inversion** of a step of the work item. -/
theorem does_of_workStep (hstep : workStep s w = some s') : WorkDoes s s' := by
  unfold workStep at hstep
  cases hw : s.work <;> rw [hw] at hstep <;> cases w <;> try cases hstep
  case idle.dequeue =>
    obtain ⟨-, hstep⟩ := Option.ite_none_right_eq_some.1 hstep
    obtain rfl := Option.some.inj hstep
    exact .outside false (hw ▸ id) id
  case lock.next =>
    obtain ⟨u, hu, rfl⟩ := Option.map_eq_some_iff.1 hstep
    obtain ⟨hfree, rfl⟩ := mutexLock_eq_some.1 hu
    exact .lock hfree
  case read.spi | ack.spi => exact .inside s.fingerPresent s.imageReady (hw ▸ trivial) trivial
  case fingerDown.next | fingerUp.next => exact .inside _ s.imageReady (hw ▸ trivial) trivial
  case imageRdy.next => exact .inside s.fingerPresent _ (hw ▸ trivial) trivial
  case unlock.next => exact .unlock (hw ▸ trivial)
  case wake.next => exact .outside s.queued (hw ▸ id) id

/-! ### Who owns the mutex -/

/-- Those between `mutex_lock` and `mutex_unlock` own the mutex, and while a capture waits there
is no image. -/
structure Inv (s : JuliusFpc) : Prop where
  guards : Mutex.Guards s.lock s.Holds
  waits : ∀ i, s.threads i = .waiting → s.imageReady = false

theorem holds_self (hi : s'.threads = Function.update s.threads i pc) :
    s'.Holds (.ioctl i) = pc.Holds := by
  show (s'.threads i).Holds = _
  rw [hi, Function.update_self]

theorem holds_of_ne {o : Owner} (hi : s'.threads = Function.update s.threads i pc)
    (hw : s'.work = s.work) (ho : o ≠ .ioctl i) : s'.Holds o = s.Holds o := by
  cases o with
  | ioctl j =>
    show (s'.threads j).Holds = _
    rw [hi, Function.update_of_ne fun h ↦ ho (congrArg _ h)]
    rfl
  | work => exact congrArg WorkPc.Holds hw

namespace Inv

theorem probed : Inv .probed where
  guards o ho := by cases o <;> exact ho.elim
  waits i hi := rfl

/-- Whoever is between `mutex_lock` and `mutex_unlock` after a step of a thread owns the mutex. -/
theorem guards_ioctl (h : Inv s) (hi : s'.threads = Function.update s.threads i pc)
    (hw : s'.work = s.work)
    (hmove : Mutex.Moves (.ioctl i) s.lock (s.threads i).Holds s'.lock pc.Holds) :
    Mutex.Guards s'.lock s'.Holds :=
  h.guards.move (holds_self hi ▸ hmove) fun _ ho hu ↦ holds_of_ne hi hw ho ▸ hu

/-- The same for a step of the work item. -/
theorem guards_work (h : Inv s) (hi : s'.threads = s.threads)
    (hmove : Mutex.Moves .work s.lock s.work.Holds s'.lock s'.work.Holds) :
    Mutex.Guards s'.lock s'.Holds := by
  refine h.guards.move hmove fun o ho hu ↦ ?_
  cases o with
  | ioctl j => exact (congrArg (fun f ↦ (f j).Holds) hi).mp hu
  | work => exact absurd rfl ho

/-- A step of a thread that does not come to the wait for `image_ready`. -/
theorem waits_ioctl (h : Inv s) (hi : s'.threads = Function.update s.threads i pc)
    (himage : s'.imageReady = s.imageReady) (hpc : pc ≠ .waiting) (hj : s'.threads j = .waiting) :
    s'.imageReady = false := by
  by_cases hij : j = i
  · rw [hi, hij, Function.update_self] at hj
    exact absurd hj hpc
  · rw [hi, Function.update_of_ne hij] at hj
    exact himage ▸ h.waits j hj

/-- A step of a thread. -/
theorem ioctl (h : Inv s) (hstep : ioctlStep s i a = some s') : Inv s' := by
  have hdoes := does_of_ioctlStep hstep
  generalize hpc : s.threads i = pc at hdoes
  cases hdoes with
  | @outside _ pc' finger hout hout' =>
    refine ⟨h.guards_ioctl rfl rfl (.keep fun hh ↦ absurd hh hout'), fun j ↦
      h.waits_ioctl rfl rfl ?_⟩
    rintro rfl
    exact hout' trivial
  | lock hfree =>
    exact ⟨h.guards_ioctl rfl rfl (hfree ▸ .take), fun j ↦ h.waits_ioctl rfl rfl (by simp)⟩
  | inside hin _ hwait =>
    exact ⟨h.guards_ioctl rfl rfl (.keep fun _ ↦ hpc ▸ hin), fun j ↦ h.waits_ioctl rfl rfl hwait⟩
  | wait =>
    exact ⟨h.guards_ioctl rfl rfl (.keep fun _ ↦ hpc ▸ trivial), fun j _ ↦ rfl⟩
  | unlock ret =>
    exact ⟨h.guards_ioctl rfl rfl (.release (hpc ▸ trivial) id), fun j ↦
      h.waits_ioctl rfl rfl (by simp)⟩

/-- A step of the work item. -/
theorem work (h : Inv s) (hstep : workStep s w = some s') : Inv s' := by
  cases does_of_workStep hstep with
  | outside queued hout hout' =>
    exact ⟨h.guards_work rfl (.keep fun hh ↦ absurd hh hout'), h.waits⟩
  | lock hfree => exact ⟨h.guards_work rfl (hfree ▸ .take), h.waits⟩
  | inside finger image hin hin' =>
    -- no capture waits, as it would own the mutex
    refine ⟨h.guards_work rfl (.keep fun _ ↦ hin), fun i hi ↦ ?_⟩
    have hholds : s.Holds (.ioctl i) := (congrArg IoctlPc.Holds hi).mpr trivial
    have hwork : s.Holds .work := hin
    cases h.guards.unique hholds hwork
  | unlock hin => exact ⟨h.guards_work rfl (.release hin id), h.waits⟩

theorem step (h : Inv s) (hstep : fpc1020.step s l = some s') : Inv s' := by
  cases l with
  | ioctl i a => exact h.ioctl hstep
  | irq events => exact Option.some.inj hstep ▸ ⟨h.guards, h.waits⟩
  | work w => exact h.work hstep

theorem of_reachable (hs : fpc1020.Reachable s) : Inv s :=
  hs.induction (fun _ h0 ↦ h0 ▸ probed) fun _ _ _ ↦ step

end Inv

/-- **No capture ever has an image**: its wait does not end by its condition. -/
theorem not_wake (hs : fpc1020.Reachable s) (hi : s.threads i = .waiting) :
    fpc1020.step s (.ioctl i .wake) = none := by
  have himage := (Inv.of_reachable hs).waits i hi
  simp [fpc1020, ioctlStep, hi, himage]

/-- A thread in `fpc_ioctl` does not set `image_ready`. -/
theorem IoctlDoes.imageReady_le (h : IoctlDoes s i pc s') (hready : s'.imageReady = true) :
    s.imageReady = true := by
  cases h with
  | wait => cases hready
  | _ => exact hready

/-- A step that sets `image_ready` is one of the work item, which owns the mutex. -/
theorem lock_of_imageReady (hs : fpc1020.Reachable s) (hstep : fpc1020.step s l = some s')
    (hready : s.imageReady = false) (hready' : s'.imageReady = true) : s.lock = some .work := by
  have hne : ¬ s.imageReady = true := by simp [hready]
  cases l with
  | ioctl i a => exact absurd ((does_of_ioctlStep hstep).imageReady_le hready') hne
  | irq events =>
    obtain rfl := Option.some.inj hstep
    exact absurd hready' hne
  | work w =>
    cases does_of_workStep hstep with
    | inside finger image hin => exact (Inv.of_reachable hs).guards .work hin
    | _ => exact absurd hready' hne

/-! ### Captures -/

/-- A capture waits for `image_ready` and owns the mutex, which every step that sets
`image_ready` needs. -/
structure Stuck (s : JuliusFpc) (i : ℕ) : Prop where
  /-- It waits. -/
  waits : s.threads i = .waiting
  /-- It owns the mutex. -/
  owns : s.lock = some (.ioctl i)
  /-- The steps it waits for need the mutex. -/
  needs : ∀ u l u', fpc1020.Reachable u → fpc1020.step u l = some u' → u.imageReady = false →
    u'.imageReady = true → u.lock = some .work

/-- A run in which the capture of thread `i` has written its command, and the sensor has raised an
interrupt for the image since. -/
def Raised (s₀ : JuliusFpc) (ls : List Label) (i : ℕ) : Prop :=
  ∃ l₁ l₂ l₃ events s, ls = l₁ ++ .ioctl i (.spi 0) :: (l₂ ++ .irq events :: l₃) ∧
    fpc1020.run s₀ l₁ = some s ∧ s.threads i = .command ∧
    (∀ cmd, .ioctl i (.call cmd) ∉ l₂ ++ l₃) ∧ events &&& intImageRdy ≠ 0

/-- Captures do what they should in a run. -/
structure Captures (s₀ : JuliusFpc) (ls : List Label) : Prop where
  /-- None of them is ever stuck. -/
  notStuck : ∀ n u i, fpc1020.run s₀ (ls.take n) = some u → ¬ Stuck u i
  /-- None times out after the interrupt, if by then the work item has no step left to take. -/
  inTime : ∀ l l' i s, ls = l ++ .ioctl i .timeout :: l' → fpc1020.run s₀ l = some s →
    (∀ w, workStep s w = none) → ¬ Raised s₀ l i

/-- No capture goes on to its wait: the write of its command has failed. -/
def CommandFails (s : JuliusFpc) : Label → Prop
  | .ioctl i .next => s.threads i ≠ .commanded 0
  | _ => True

/-- A capture that waits is stuck. -/
theorem stuck_iff (hs : fpc1020.Reachable s) : Stuck s i ↔ s.threads i = .waiting := by
  refine ⟨Stuck.waits, fun hi ↦ ⟨hi, ?_, fun u l u' hu ↦ lock_of_imageReady hu⟩⟩
  have hholds : s.Holds (.ioctl i) := (congrArg IoctlPc.Holds hi).mpr trivial
  exact (Inv.of_reachable hs).guards _ hholds

/-- The step after a command that was written. -/
theorem ioctlStep_commanded (hi : s.threads i = .commanded 0)
    (hstep : ioctlStep s i a = some s') : a = .next ∧ s'.threads i = .waiting := by
  cases a with
  | next =>
    simp only [ioctlStep, hi, ne_eq, not_true, if_false, Option.some.injEq] at hstep
    rw [← hstep]
    exact ⟨rfl, Function.update_self ..⟩
  | _ => simp [ioctlStep, hi] at hstep

/-- A thread comes to the wait of a capture only from its command. -/
theorem IoctlDoes.commanded (h : IoctlDoes s i pc s') (hwait : ∀ j, s.threads j ≠ .waiting)
    (hj : s'.threads j = .waiting) : pc = .commanded 0 := by
  have hself {u : JuliusFpc} {pc'} (hu : u.threads = Function.update s.threads i pc')
      (hj : u.threads j = .waiting) : pc' = .waiting := by
    by_cases hij : j = i
    · rw [hu, hij, Function.update_self] at hj
      exact hj
    · rw [hu, Function.update_of_ne hij] at hj
      exact absurd hj (hwait j)
  cases h with
  | outside finger _ hout' =>
    obtain rfl := hself rfl hj
    exact absurd trivial hout'
  | lock => cases hself rfl hj
  | inside _ _ hne => exact absurd (hself rfl hj) hne
  | wait => rfl
  | unlock => cases hself rfl hj

/-- A step brings a capture to its wait exactly if its command was written. -/
theorem commandFails_iff (hwait : ∀ j, s.threads j ≠ .waiting)
    (hstep : fpc1020.step s l = some s') :
    CommandFails s l ↔ ∀ j, s'.threads j ≠ .waiting := by
  constructor
  · intro hfails j hj
    cases l with
    | ioctl i a =>
      have hi := (does_of_ioctlStep hstep).commanded hwait hj
      obtain ⟨rfl, -⟩ := ioctlStep_commanded hi hstep
      exact hfails hi
    | irq events =>
      obtain rfl := Option.some.inj hstep
      exact hwait j hj
    | work w => cases does_of_workStep hstep <;> exact hwait j hj
  · intro hwait'
    cases l with
    | ioctl i a =>
      cases a with
      | next => exact fun hi ↦ hwait' i (ioctlStep_commanded hi hstep).2
      | _ => trivial
    | _ => trivial

/-- A wait of a capture ends only for a thread that waits. -/
theorem waiting_of_timeout (hstep : ioctlStep s i .timeout = some s') :
    s.threads i = .waiting := by
  cases hi : s.threads i with
  | waiting => rfl
  | _ => simp [ioctlStep, hi] at hstep

/-- **Captures work exactly as far as none comes to its wait.** -/
theorem captures_iff (h0 : fpc1020.Init s₀) (hrun : fpc1020.run s₀ ls = some t) :
    fpc1020.Guarded CommandFails s₀ ls ↔ Captures s₀ ls := by
  obtain rfl : s₀ = .probed := h0
  have hvisit : fpc1020.Guarded CommandFails .probed ls ↔
      ∀ n u, fpc1020.run .probed (ls.take n) = some u → ∀ j, u.threads j ≠ .waiting :=
    fpc1020.guarded_iff_forall_take (J := fun _ ↦ True)
      (fun s l s' _ hs hstep ↦ ⟨trivial, commandFails_iff hs hstep⟩) trivial
      (fun j hj ↦ by cases hj) hrun
  rw [hvisit]
  constructor
  · intro hwait
    refine ⟨fun n u i hu hstuck ↦ hwait n u hu i hstuck.waits, ?_⟩
    rintro l l' i s rfl hs - -
    -- the step is possible only for a capture that waits
    obtain ⟨u, hu, hrest⟩ := fpc1020.run_append_eq_some.1 hrun
    obtain rfl : u = s := Option.some.inj (hu.symm.trans hs)
    obtain ⟨u', hu', -⟩ := fpc1020.run_cons_eq_some.1 hrest
    exact hwait l.length u (by rw [List.take_left, hs]) i (waiting_of_timeout hu')
  · intro hcaptures n u hu j hj
    exact hcaptures.notStuck n u j hu ((stuck_iff ⟨_, _, rfl, hu⟩).2 hj)

/-- A run in which every command fails. -/
theorem captures_iff_failed :
    fpc1020.Guarded CommandFails .probed
      [.ioctl 0 (.call .captureImg), .ioctl 0 .next, .ioctl 0 (.spi (-5)), .ioctl 0 .next] ↔
    Captures .probed
      [.ioctl 0 (.call .captureImg), .ioctl 0 .next, .ioctl 0 (.spi (-5)), .ioctl 0 .next] :=
  captures_iff rfl rfl

/-- The sensor raises the interrupt for the image, the work item waits for the mutex, and the
capture times out. -/
theorem captures_false :
    ¬ ∀ s₀ ls t, fpc1020.Init s₀ → fpc1020.run s₀ ls = some t → Captures s₀ ls := by
  intro h
  let ls : List Label := [.ioctl 0 (.call .captureImg), .ioctl 0 .next, .ioctl 0 (.spi 0),
    .ioctl 0 .next, .irq 4, .work .dequeue]
  have hcaptures : Captures .probed (ls ++ [.ioctl 0 .timeout]) := h _ _ _ rfl rfl
  refine hcaptures.inTime ls [] 0 _ rfl rfl (fun w ↦ ?_) ?_
  · cases w <;> rfl
  · refine ⟨[.ioctl 0 (.call .captureImg), .ioctl 0 .next], [.ioctl 0 .next], [.work .dequeue], 4,
      { JuliusFpc.probed.goto 0 .lock with lock := some (.ioctl 0) }.goto 0 .command, rfl, rfl, rfl,
      ?_, ?_⟩
    · simp
    · decide

end JuliusOS.Drivers.Fpc1020
