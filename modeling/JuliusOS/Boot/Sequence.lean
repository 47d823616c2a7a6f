import JuliusOS.ProcessManager.Undisturbed

/-!
# The boot sequence

What starts the services of the system: `phase_services` of
`kernel/julius_init/julius_init.c`, every process manager it or somebody else starts
(`ProcessManager`), and the restart commands of `services/julius_health/julius_health.c`. Every
executable exists, `exec` succeeds and no service exits; a `fork` may fail.

A process is its executable, the parent that forked it and how far its program has come. Of a
daemon, this is how far it is with the socket it listens on: each of them unlinks the path and then
binds it, and the path may be bound anew in between.

`julius_health` restarts a service with the command `julius_pm restart NAME`. The `main` of
`julius_pm` takes no arguments, so the command is one more process manager, and `system` waits for
it. What the two kinds of checks return is left open.
-/

namespace JuliusOS.Boot

/-! ### What is started -/

/-- The executable of the process manager. -/
abbrev pmExec : String := "/usr/bin/julius_pm"

/-- The executable of the health monitor. -/
abbrev healthExec : String := "/usr/bin/julius_health"

/-- The `services` of `phase_services`. -/
def phaseServices : List String := [
  "/usr/bin/julius_audit",
  "/usr/bin/julius_enclave",
  "/usr/bin/julius_ipc",
  "/usr/bin/julius_keychain",
  "/usr/bin/julius_permissions",
  "/usr/bin/julius_power",
  "/usr/bin/julius_wifi",
  "/usr/bin/julius_bt",
  "/usr/bin/julius_net",
  "/usr/bin/julius_push",
  "/usr/bin/julius_sync",
  healthExec,
  pmExec]

/-- `IPC_SOCKET` and `IPC_SOCKET_PATH`. -/
abbrev ipcSocket : String := "/var/run/julius_ipc.sock"

/-- The daemons that bind a socket, with its path. -/
def sockets : List (String × String) := [
  ("/usr/bin/julius_audit", "/var/run/julius_audit.sock"),
  ("/usr/bin/julius_enclave", "/var/run/julius_enclave.sock"),
  ("/usr/bin/julius_ipc", ipcSocket),
  ("/usr/bin/julius_keychain", "/var/run/julius_keychain.sock"),
  ("/usr/bin/julius_permissions", "/var/run/julius_perms.sock"),
  ("/usr/bin/julius_push", "/var/run/julius_push.sock"),
  ("/usr/bin/julius_core", ipcSocket)]

/-- The path of the socket that an executable binds. -/
def socketPath (exec : String) : Option String := sockets.lookup exec

/-! ### The health monitor -/

/-- A `HealthCheck`, without its times. -/
structure HealthCheck where
  /-- `name`. -/
  name : String
  /-- `socket_path`. -/
  socketPath : String
  /-- `healthy`. -/
  healthy : Bool
  /-- `fail_count`. -/
  failCount : ℕ
deriving DecidableEq

/-- `checks`. -/
def healthChecks : List HealthCheck := [
  ⟨"julius_core", "/var/run/julius_ipc.sock", false, 0⟩,
  ⟨"julius_enclave", "/var/run/julius_enclave.sock", false, 0⟩,
  ⟨"julius_keychain", "/var/run/julius_keychain.sock", false, 0⟩,
  ⟨"julius_wifi", "/var/run/julius_wifi.state", false, 0⟩,
  ⟨"julius_bt", "/var/run/julius_bt.state", false, 0⟩,
  ⟨"julius_power", "/var/run/julius_power.state", false, 0⟩,
  ⟨"julius_audit", "/var/run/julius_audit.sock", false, 0⟩]

/-- `check_service` or `check_file` has returned `up`. -/
def HealthCheck.record (h : HealthCheck) (up : Bool) : HealthCheck :=
  { h with healthy := up, failCount := if up then 0 else h.failCount + 1 }

/-- The statements of the monitor's `main`. -/
inductive HealthPc
  /-- `i < check_count`, and a check; after the last, `sleep(CHECK_INTERVAL)`. -/
  | check (i : ℕ)
  /-- `system(cmd)` in `restart_service`, for check `i`. -/
  | system (i : ℕ)
  /-- The command has not returned. -/
  | waiting
deriving DecidableEq

/-- A health monitor. -/
structure Health where
  /-- `checks`. -/
  checks : List HealthCheck
  /-- Where it is. -/
  pc : HealthPc
deriving DecidableEq

/-- A check with the result `up`. -/
def Health.probe (h : Health) (up : Bool) : Option Health :=
  match h.pc with
  | .check i => some (match h.checks[i]? with
      | some c =>
        { checks := h.checks.set i (c.record up)
          pc := if 3 ≤ (c.record up).failCount then .system i else .check (i + 1) }
      | none => { h with pc := .check 0 })
  | _ => none

/-- `system` forks, or returns as it cannot, and `h->fail_count = 0`. -/
def Health.system (h : Health) (forked : Bool) : Option Health :=
  match h.pc with
  | .system i => some (if forked then { h with pc := .waiting } else
      { checks := h.checks.modify i fun c ↦ { c with failCount := 0 }, pc := .check (i + 1) })
  | _ => none

/-! ### Processes -/

/-- How far a daemon is with its socket. -/
inductive Daemon
  /-- It has not come to its `unlink` yet. -/
  | started
  /-- It has unlinked the path. -/
  | unlinked
  /-- It has bound the path. -/
  | bound
  /-- Its `bind` has failed. -/
  | refused
deriving DecidableEq

/-- What a process executes. -/
inductive Program
  /-- One of the other services. -/
  | daemon (phase : Daemon)
  /-- `julius_pm`. -/
  | manager (s : ProcessManager.State)
  /-- `julius_health`. -/
  | monitor (h : Health)

/-- What has forked a process. -/
inductive Parent
  /-- `phase_services`. -/
  | init
  /-- The process manager with this index, for one of its services. -/
  | manager (i j : ℕ)
  /-- The `system` of a health monitor. -/
  | monitor
deriving DecidableEq

/-- A live process. -/
structure Proc where
  /-- The executable. -/
  exec : String
  /-- What has forked it (ghost). -/
  parent : Parent
  /-- Its program. -/
  program : Program

/-- The program of an executable, at its start. -/
def load (exec : String) : Program :=
  if exec = pmExec then .manager .start
  else if exec = healthExec then .monitor ⟨healthChecks, .check 0⟩
  else .daemon .started

/-- A new process. -/
def Proc.new (parent : Parent) (exec : String) : Proc := ⟨exec, parent, load exec⟩

/-- The socket a process has bound. -/
def Proc.bound (p : Proc) : Option String :=
  match p.program with
  | .daemon .bound => socketPath p.exec
  | _ => none

/-! ### The system -/

/-- The system while it boots. -/
structure State where
  /-- The `i` of `phase_services`. -/
  next : ℕ
  /-- The processes, in the order they were forked. -/
  procs : List Proc
  /-- The paths under `/var/run` that exist. -/
  paths : List String

/-- Before `phase_services`. -/
def State.start : State := ⟨0, [], []⟩

namespace State

variable (b : State)

/-- The executable of a process. -/
def exec (i : ℕ) : Option String := b.procs[i]?.map Proc.exec

/-- The program of a process. -/
def program (i : ℕ) : Option Program := b.procs[i]?.map Proc.program

/-- The socket a process has bound. -/
def bound (i : ℕ) : Option String := b.procs[i]?.bind Proc.bound

/-- `phase_services` goes on to its next service. -/
def advance : State := { b with next := b.next + 1 }

/-- A path is removed. -/
def unlink (path : String) : State := { b with paths := b.paths.filter fun p ↦ p ≠ path }

/-- A path is created. -/
def create (path : String) : State := { b with paths := path :: b.paths }

/-- Processes are forked. -/
def fork (children : List Proc) : State := { b with procs := b.procs ++ children }

/-- A process goes on to another point of its program. -/
def goto (i : ℕ) (program : Program) : State :=
  { b with procs := b.procs.modify i fun p ↦ { p with program } }

end State

/-- What can happen next. -/
inductive Label
  /-- `phase_services` forks for its next service, or cannot. -/
  | init (forked : Bool)
  /-- A daemon unlinks its socket's path. -/
  | unlink (i : ℕ)
  /-- A daemon binds it. -/
  | bind (i : ℕ)
  /-- A process manager executes a statement. -/
  | manager (i : ℕ) (l : ProcessManager.Label)
  /-- A health monitor makes a check. -/
  | probe (i : ℕ) (up : Bool)
  /-- A health monitor calls `system`. -/
  | system (i : ℕ) (forked : Bool)

/-- The processes that the next statement of a process manager forks. -/
def State.children (b : State) (i : ℕ) (l : ProcessManager.Label) : List Proc :=
  match b.program i with
  | some (.manager s) =>
    ((s.forks l).bind fun j ↦ s.shared.services[j]?.map fun v ↦
      Proc.new (.manager i j) v.exec).toList
  | _ => []

/-- A step of the system. -/
def step (b : State) : Label → Option State
  | .init forked => phaseServices[b.next]?.map fun exec ↦
      b.advance.fork (if forked then [.new .init exec] else [])
  | .unlink i =>
    match b.program i, (b.exec i).bind socketPath with
    | some (.daemon .started), some path =>
      some ((b.goto i (.daemon .unlinked)).unlink path)
    | _, _ => none
  | .bind i =>
    match b.program i, (b.exec i).bind socketPath with
    | some (.daemon .unlinked), some path =>
      some (if path ∈ b.paths then b.goto i (.daemon .refused)
        else (b.goto i (.daemon .bound)).create path)
    | _, _ => none
  | .manager i l =>
    match b.program i with
    | some (.manager s) =>
      if l.isOwn then
        ((ProcessManager.processManager ProcessManager.juliusServices).step s l).map fun s' ↦
          (b.goto i (.manager s')).fork (b.children i l)
      else none
    | _ => none
  | .probe i up =>
    match b.program i with
    | some (.monitor h) => (h.probe up).map fun h' ↦ b.goto i (.monitor h')
    | _ => none
  | .system i forked =>
    match b.program i with
    | some (.monitor h) => (h.system forked).map fun h' ↦
        (b.goto i (.monitor h')).fork (if forked then [.new .monitor pmExec] else [])
    | _ => none

/-- The boot sequence as a machine. -/
def boot : Machine State Label where
  Init b := b = .start
  step := step

end JuliusOS.Boot
