import JuliusOS.Foundations.Machine
import Mathlib.Data.List.Range

/-!
# The process manager

`services/julius_pm/julius_pm.c`, statement by statement: the main thread, which registers and
starts the services and then waits for the end, the watchdog thread, and the signal handler, which
runs on one of the two threads and suspends it until it returns. `pm_lock` is taken by
`pm_register` and by the watchdog only; neither `pm_start` nor `pm_stop` takes it.

A thread's place in the code is a value of an inductive type with one constructor for each
statement that reads or writes something the threads share, and a label says which thread executes
its statement and what the kernel decides there. A child process may exit at any moment. One
handler runs at a time, as long as it likes, and signals may arrive any number of times.

`Shared.trace` and `Child.service` are ghosts: the calls made so far, with the owner of the pid at
that time, and the service a child was forked for. Of a `Service`, the fields for the status table
(`start_time`, `last_restart`, `cpu_time`, `mem_usage`) and the unused `args` are left out, and so
are the log lines.
-/

namespace JuliusOS.ProcessManager

/-- `PM_MAX_SERVICES`. -/
abbrev pmMaxServices : ℕ := 64

/-- `ServiceState`. -/
inductive ServiceState
  /-- `SVC_STOPPED`. -/
  | stopped
  /-- `SVC_STARTING`. -/
  | starting
  /-- `SVC_RUNNING`. -/
  | running
  /-- `SVC_STOPPING`. -/
  | stopping
  /-- `SVC_FAILED`. -/
  | failed
  /-- `SVC_DISABLED`. -/
  | disabled
deriving DecidableEq

/-- A `Service`. -/
structure Service where
  /-- `name`. -/
  name : String
  /-- `exec`. -/
  exec : String
  /-- `state`. -/
  state : ServiceState
  /-- `pid`. -/
  pid : ℤ
  /-- `restart_count`. -/
  restartCount : ℕ
  /-- `max_restarts`. -/
  maxRestarts : ℕ
  /-- `auto_restart`. -/
  autoRestart : Bool
  /-- `priority`. -/
  priority : ℕ
deriving DecidableEq

/-- The condition of a restart. -/
def Service.Restarts (v : Service) : Prop := v.autoRestart = true ∧ v.restartCount < v.maxRestarts

instance (v : Service) : Decidable v.Restarts := inferInstanceAs (Decidable (_ ∧ _))

/-- The arguments of a `pm_register`. -/
structure Registration where
  /-- `name`. -/
  name : String
  /-- `exec`. -/
  exec : String
  /-- `auto_restart`. -/
  autoRestart : Bool
  /-- `priority`. -/
  priority : ℕ
deriving DecidableEq

/-- The services `main` registers. -/
def juliusServices : List Registration := [
  ⟨"julius_core", "/usr/bin/julius_core", true, 1⟩,
  ⟨"julius_enclave", "/usr/bin/julius_enclave", true, 1⟩,
  ⟨"julius_wifi", "/usr/bin/julius_wifi", true, 2⟩,
  ⟨"julius_bt", "/usr/bin/julius_bt", true, 2⟩,
  ⟨"julius_power", "/usr/bin/julius_power", true, 1⟩,
  ⟨"julius_keychain", "/usr/bin/julius_keychain", true, 1⟩,
  ⟨"julius_health", "/usr/bin/julius_health", true, 1⟩,
  ⟨"julius_push", "/usr/bin/julius_push", true, 3⟩,
  ⟨"julius_sync", "/usr/bin/julius_sync", true, 3⟩,
  ⟨"julius_audit", "/usr/bin/julius_audit", true, 2⟩,
  ⟨"julius_ui", "/usr/bin/python3 /usr/julius/src/julius_ui.py", true, 4⟩]

/-- `pm_register`. -/
def pmRegister (services : List Service) (r : Registration) : List Service :=
  if services.length < pmMaxServices then
    services ++ [{
      name := r.name
      exec := r.exec
      state := .stopped
      pid := -1
      restartCount := 0
      maxRestarts := 5
      autoRestart := r.autoRestart
      priority := r.priority }]
  else services

/-- `find_service`. -/
def findService (services : List Service) (name : String) : Option ℕ :=
  services.findIdx? fun v ↦ v.name = name

/-! ### Processes -/

/-- A child of the process manager that has not been reaped. -/
structure Child where
  /-- Its pid. -/
  pid : ℤ
  /-- The service it was forked for (ghost). -/
  service : ℕ
  /-- It has exited. -/
  zombie : Bool
deriving DecidableEq

/-- The children `waitpid(pid, …)` waits for. The process manager passes -1 and positive numbers
only. -/
def Child.Matches (pid : ℤ) (c : Child) : Prop := pid = -1 ∨ c.pid = pid

instance (pid : ℤ) (c : Child) : Decidable (c.Matches pid) := inferInstanceAs (Decidable (_ ∨ _))

/-- `waitpid` with `WNOHANG`: the returned value and the children that are left. Where several
children have exited, the kernel takes the one with pid `reaped`. -/
def waitpid (children : List Child) (pid reaped : ℤ) : Option (ℤ × List Child) :=
  if ∀ c ∈ children, ¬ c.Matches pid then some (-1, children)
  else if ∃ c ∈ children, c.Matches pid ∧ c.zombie = true ∧ c.pid = reaped then
    some (reaped, children.filter fun c ↦ c.pid ≠ reaped)
  else if ∃ c ∈ children, c.Matches pid ∧ c.zombie = true then none
  else some (0, children)

/-- The service that a pid is an unreaped child of. -/
def ownerOf (children : List Child) (pid : ℤ) : Option ℕ :=
  (children.find? fun c ↦ c.pid = pid).map Child.service

/-- A system call that names a process. -/
inductive Syscall
  /-- `kill`. -/
  | kill
  /-- `waitpid`. -/
  | waitpid
deriving DecidableEq

/-- What the process manager did. -/
inductive Obs
  /-- A call about a service, with the pid passed and the service this is a child of. -/
  | call (sys : Syscall) (service : ℕ) (pid : ℤ) (owner : Option ℕ)
  /-- A successful `fork` for a service. -/
  | fork (service : ℕ) (pid : ℤ)
  /-- `signal_handler` has returned. -/
  | returned
deriving DecidableEq

/-- What the threads share. -/
structure Shared where
  /-- `services` and `svc_count`. -/
  services : List Service
  /-- The children that have not been reaped. -/
  children : List Child
  /-- `running`. -/
  running : Bool
  /-- Whether `pm_lock` is taken. -/
  locked : Bool
  /-- What was done so far (ghost). -/
  trace : List Obs

namespace Shared

variable (σ : Shared)

/-- `services[i].state = state`. -/
def setState (i : ℕ) (state : ServiceState) : Shared :=
  { σ with services := σ.services.modify i fun v ↦ { v with state } }

/-- `services[i].pid = pid`. -/
def setPid (i : ℕ) (pid : ℤ) : Shared :=
  { σ with services := σ.services.modify i fun v ↦ { v with pid } }

/-- A call about service `i` is made. -/
def call (sys : Syscall) (i : ℕ) (pid : ℤ) : Shared :=
  { σ with trace := σ.trace ++ [.call sys i pid (ownerOf σ.children pid)] }

/-- `waitpid(pid, &status, WNOHANG)` about service `i`. -/
def poll (i : ℕ) (pid reaped : ℤ) : Option (ℤ × Shared) :=
  (waitpid σ.children pid reaped).map fun (ret, children) ↦
    (ret, { σ.call .waitpid i pid with children })

/-- A successful `fork` for service `i`. -/
def fork (i : ℕ) (pid : ℤ) : Shared :=
  { σ with
    children := σ.children ++ [⟨pid, i, false⟩]
    trace := σ.trace ++ [.fork i pid] }

end Shared

/-! ### `pm_start` and `pm_stop` -/

/-- The statements of `pm_start`. -/
inductive StartPc
  /-- `if (s->state == SVC_RUNNING) return 0` -/
  | check
  /-- `s->state = SVC_STARTING` -/
  | setStarting
  /-- `pid_t pid = fork()` -/
  | fork
  /-- `s->state = SVC_FAILED` -/
  | setFailed
  /-- `s->pid = pid` -/
  | setPid (pid : ℤ)
  /-- `s->state = SVC_RUNNING` -/
  | setRunning
deriving DecidableEq

/-- A statement of `pm_start`, called for service `i`: where it goes on (`none` after a return),
and the new shared state. A failed `fork` is `none`; a successful one returns a pid that no child
has. -/
def pmStart (σ : Shared) (i : ℕ) (v : Service) (forked : Option ℤ) :
    StartPc → Option (Option StartPc × Shared)
  | .check => some (if v.state = .running then none else some .setStarting, σ)
  | .setStarting => some (some .fork, σ.setState i .starting)
  | .fork =>
    match forked with
    | none => some (some .setFailed, σ)
    | some pid =>
      if 0 < pid ∧ pid ∉ σ.children.map Child.pid then
        some (some (.setPid pid), σ.fork i pid)
      else none
  | .setFailed => some (none, σ.setState i .failed)
  | .setPid pid => some (some .setRunning, σ.setPid i pid)
  | .setRunning => some (none, σ.setState i .running)

/-- The statements of `pm_stop`. -/
inductive StopPc
  /-- `if (s->state != SVC_RUNNING) return -1` -/
  | check
  /-- `s->state = SVC_STOPPING` -/
  | setStopping
  /-- `kill(s->pid, SIGTERM)` -/
  | term
  /-- `ret = waitpid(s->pid, &status, WNOHANG)` -/
  | poll
  /-- `sleep(2)` -/
  | sleep
  /-- `kill(s->pid, SIGKILL)` -/
  | kill
  /-- `waitpid(s->pid, &status, 0)` is called. -/
  | wait
  /-- It has not returned yet. -/
  | blocked (pid : ℤ)
  /-- `s->state = SVC_STOPPED` -/
  | setStopped
  /-- `s->pid = -1` -/
  | clearPid
deriving DecidableEq

/-- A statement of `pm_stop`, called for service `i`. -/
def pmStop (σ : Shared) (i : ℕ) (v : Service) (reaped : ℤ) :
    StopPc → Option (Option StopPc × Shared)
  | .check => some (if v.state = .running then some .setStopping else none, σ)
  | .setStopping => some (some .term, σ.setState i .stopping)
  | .term => some (some .poll, σ.call .kill i v.pid)
  | .poll => (σ.poll i v.pid reaped).map fun (ret, σ) ↦
      (some (if ret = 0 then .sleep else .setStopped), σ)
  | .sleep => some (some .kill, σ)
  | .kill => some (some .wait, σ.call .kill i v.pid)
  | .wait => some (some (.blocked v.pid), σ.call .waitpid i v.pid)
  | .blocked pid => (waitpid σ.children pid reaped).bind fun (ret, children) ↦
      -- no child has exited: it goes on waiting
      if ret = 0 then none else some (some .setStopped, { σ with children })
  | .setStopped => some (some .clearPid, σ.setState i .stopped)
  | .clearPid => some (none, σ.setPid i (-1))

/-! ### The threads -/

/-- The statements of the watchdog's loop body, after it found the service running. -/
inductive BodyPc
  /-- `ret = waitpid(s->pid, &status, WNOHANG)` -/
  | poll
  /-- `s->state = SVC_FAILED` -/
  | setFailed
  /-- `s->pid = -1` -/
  | clearPid
  /-- `if (s->auto_restart && s->restart_count < s->max_restarts)` -/
  | test
  /-- `s->restart_count++` -/
  | count
  /-- `pthread_mutex_unlock(&pm_lock)` -/
  | unlock
  /-- `sleep(2)`, and the call of `pm_start` -/
  | sleep
  /-- In `pm_start`, for service `j`. -/
  | start (j : ℕ) (pc : StartPc)
  /-- `pthread_mutex_lock(&pm_lock)` -/
  | relock
deriving DecidableEq

/-- The statements of `watchdog_thread`. -/
inductive WatchdogPc
  /-- `while (running)` -/
  | test
  /-- `pthread_mutex_lock(&pm_lock)` -/
  | lock
  /-- `i < svc_count`, and `if (s->state != SVC_RUNNING) continue` -/
  | loop (i : ℕ)
  /-- In the loop body, for service `i`. -/
  | body (i : ℕ) (pc : BodyPc)
  /-- `pthread_mutex_unlock(&pm_lock)` -/
  | unlock
  /-- `sleep(5)` -/
  | sleep
  /-- The thread has ended. -/
  | done
deriving DecidableEq

/-- A statement of the watchdog's loop body. -/
def watchdogBody (σ : Shared) (i : ℕ) (v : Service) (forked : Option ℤ) (reaped : ℤ) :
    BodyPc → Option (WatchdogPc × Shared)
  | .poll => (σ.poll i v.pid reaped).map fun (ret, σ) ↦
      (if 0 < ret then .body i .setFailed else .loop (i + 1), σ)
  | .setFailed => some (.body i .clearPid, σ.setState i .failed)
  | .clearPid => some (.body i .test, σ.setPid i (-1))
  | .test => some (if v.Restarts then .body i .count else .loop (i + 1), σ)
  | .count => some (.body i .unlock,
      { σ with services := σ.services.modify i fun v ↦
          { v with restartCount := v.restartCount + 1 } })
  | .unlock => some (.body i .sleep, { σ with locked := false })
  | .sleep => some (match findService σ.services v.name with
      | some j => .body i (.start j .check)
      | none => .body i .relock, σ)
  | .start j pc => (σ.services[j]?.bind fun v ↦ pmStart σ j v forked pc).map fun (pc, σ) ↦
      (match pc with
        | some pc => .body i (.start j pc)
        | none => .body i .relock, σ)
  | .relock => if σ.locked then none else some (.loop (i + 1), { σ with locked := true })

/-- A statement of `watchdog_thread`. -/
def watchdogThread (σ : Shared) (forked : Option ℤ) (reaped : ℤ) :
    WatchdogPc → Option (WatchdogPc × Shared)
  | .test => some (if σ.running then .lock else .done, σ)
  | .lock => if σ.locked then none else some (.loop 0, { σ with locked := true })
  | .loop i => some (match σ.services[i]? with
      | some v => if v.state = .running then .body i .poll else .loop (i + 1)
      | none => .unlock, σ)
  | .body i pc => σ.services[i]?.bind fun v ↦ watchdogBody σ i v forked reaped pc
  | .unlock => some (.sleep, { σ with locked := false })
  | .sleep => some (.test, σ)
  | .done => none

/-- The statements of `signal_handler`. -/
inductive HandlerPc
  /-- `running = 0` -/
  | setRunning
  /-- `i < svc_count`, `if (services[i].state == SVC_RUNNING)`, and the call of `pm_stop` -/
  | loop (i : ℕ)
  /-- In `pm_stop`, for service `j`. -/
  | stop (i j : ℕ) (pc : StopPc)
deriving DecidableEq

/-- A statement of `signal_handler`, for `SIGTERM` or `SIGINT`. -/
def signalHandler (σ : Shared) (reaped : ℤ) : HandlerPc → Option (Option HandlerPc × Shared)
  | .setRunning => some (some (.loop 0), { σ with running := false })
  | .loop i =>
    match σ.services[i]? with
    | some v =>
      some (match if v.state = .running then findService σ.services v.name else none with
        | some j => some (.stop i j .check)
        | none => some (.loop (i + 1)), σ)
    | none => some (none, { σ with trace := σ.trace ++ [.returned] })
  | .stop i j pc => (σ.services[j]?.bind fun v ↦ pmStop σ j v reaped pc).map fun (pc, σ) ↦
      (some (match pc with
        | some pc => .stop i j pc
        | none => .loop (i + 1)), σ)

/-- The statements of `main`. -/
inductive MainPc
  /-- The registrations that are left. -/
  | register (todo : List Registration)
  /-- The services that are left to be started, and then `pthread_create(&wt, …)` -/
  | starting (todo : List ℕ)
  /-- In `pm_start`, for service `j`. -/
  | start (todo : List ℕ) (j : ℕ) (pc : StartPc)
  /-- `while (running)` -/
  | loop
  /-- `pthread_cancel(wt)` -/
  | cancel
  /-- `return 0` -/
  | exit
  /-- The process has ended. -/
  | exited
deriving DecidableEq

/-- The services in the order they are started in. -/
def startOrder (services : List Service) : List ℕ :=
  [1, 2, 3, 4].flatMap fun p ↦ (List.range services.length).filter fun i ↦
    services[i]?.any fun v ↦ v.priority = p

/-- A statement of `main`, other than the creation of the watchdog. -/
def mainThread (σ : Shared) (forked : Option ℤ) : MainPc → Option (MainPc × Shared)
  | .register [] => some (.starting (startOrder σ.services), σ)
  | .register (r :: todo) =>
    some (.register todo, { σ with services := pmRegister σ.services r })
  | .starting [] => none
  | .starting (i :: todo) => σ.services[i]?.map fun v ↦
      (match findService σ.services v.name with
        | some j => .start todo j .check
        | none => .starting todo, σ)
  | .start todo j pc => (σ.services[j]?.bind fun v ↦ pmStart σ j v forked pc).map fun (pc, σ) ↦
      (match pc with
        | some pc => .start todo j pc
        | none => .starting todo, σ)
  | .loop => some (if σ.running then .loop else .cancel, σ)
  | .cancel => some (.exit, σ)
  | .exit => some (.exited, σ)
  | .exited => none

/-! ### The process -/

/-- The threads a signal can be delivered to. -/
inductive Host
  /-- The main thread. -/
  | main
  /-- The watchdog. -/
  | watchdog
deriving DecidableEq

/-- The process manager and its children. -/
structure State where
  /-- What the threads share. -/
  shared : Shared
  /-- Where the main thread is. -/
  main : MainPc
  /-- Where the watchdog is, once it was created. -/
  watchdog : Option WatchdogPc
  /-- Where the handler is, and on which thread, while it runs. -/
  handler : Option (Host × HandlerPc)

/-- What can happen next. -/
inductive Label
  /-- The main thread executes a statement. -/
  | main (forked : Option ℤ)
  /-- The watchdog does. -/
  | watchdog (forked : Option ℤ) (reaped : ℤ)
  /-- The handler does. -/
  | handler (reaped : ℤ)
  /-- `SIGTERM` or `SIGINT` is delivered to a thread. -/
  | signal (host : Host)
  /-- A child exits. -/
  | childExit (pid : ℤ)
  /-- The cancelled watchdog's thread ends, with the handler if it runs there. -/
  | cancelled

namespace State

variable (s : State)

/-- The handler runs on this thread. -/
def suspended (host : Host) : Bool := s.handler.any fun h ↦ h.1 = host

/-- The thread exists. -/
def alive : Host → Bool
  | .main => true
  | .watchdog => s.watchdog.any fun pc ↦ pc ≠ .done

/-- The watchdog's thread is in a call in which it can be cancelled. -/
def cancellable : Bool :=
  match s.handler with
  | some (.watchdog, .stop _ _ .sleep) | some (.watchdog, .stop _ _ (.blocked _)) => true
  | some (.watchdog, _) => false
  | _ => s.watchdog.any fun
    | .sleep | .body _ .sleep => true
    | _ => false

/-- A child exits. -/
def childExit (pid : ℤ) : List Child :=
  s.shared.children.map fun c ↦ if c.pid = pid then { c with zombie := true } else c

end State

/-- A step of the process, while it has not ended. -/
def step (s : State) : Label → Option State
  | .main forked =>
    if s.suspended .main then none
    else match s.main with
      | .starting [] => some { s with main := .loop, watchdog := some .test }
      | pc => (mainThread s.shared forked pc).map fun (main, shared) ↦ { s with main, shared }
  | .watchdog forked reaped =>
    if s.suspended .watchdog then none
    else (s.watchdog.bind (watchdogThread s.shared forked reaped)).map fun (pc, shared) ↦
      { s with watchdog := some pc, shared }
  | .handler reaped =>
    s.handler.bind fun (host, pc) ↦ (signalHandler s.shared reaped pc).map fun (pc, shared) ↦
      { s with handler := pc.map (host, ·), shared }
  | .signal host =>
    if s.handler = none ∧ s.alive host then some { s with handler := some (host, .setRunning) }
    else none
  | .childExit pid => some { s with shared := { s.shared with children := s.childExit pid } }
  | .cancelled =>
    if s.main = .exit ∧ s.cancellable then
      some { s with
        watchdog := some .done
        handler := if s.suspended .watchdog then none else s.handler }
    else none

/-- The process manager as a machine, for a list of services to register. -/
def processManager (registrations : List Registration) : Machine State Label where
  Init s := s = ⟨⟨[], [], true, false, []⟩, .register registrations, none, none⟩
  step s l := if s.main = .exited then none else step s l

/-! ### A run -/

/-- Before `main`. -/
def State.start : State := ⟨⟨[], [], true, false, []⟩, .register juliusServices, none, none⟩

/-- `main` registers the services, starts each and creates the watchdog; the children get the pids
from 100 on. -/
def bootLabels : List Label :=
  List.replicate 12 (.main none) ++
    (List.range 11).flatMap (fun i ↦ List.replicate 6 (.main (some (100 + i)))) ++ [.main none]

end JuliusOS.ProcessManager
