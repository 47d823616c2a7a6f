import JuliusOS.Foundations.CString
import JuliusOS.Foundations.Machine
import JuliusOS.Foundations.PackedTable
import JuliusOS.Foundations.StructLayout

/-!
# The push daemon

`services/julius_push/julius_push.c`: a table of at most 256 notifications, the oldest of which goes
when another comes, and a counter for their ids. A request is the memory image of the C struct.

This is the table under `push_lock`. A `PUSH_LIST` request reads it and changes nothing; its answer,
the log lines and the request's `notif_id`, which no code reads, are left out.

`PushNotification.number` and `State.total` are ghosts that no operation reads: which notification
it is, and how many there were.
-/

open CString StructLayout

namespace JuliusOS.Push

/-- `MAX_NOTIFS`. -/
abbrev maxNotifs : ℕ := 256

theorem maxNotifs_pos : 0 < maxNotifs := by decide

@[match_pattern] abbrev pushOpSend : ℕ := 1
@[match_pattern] abbrev pushOpClear : ℕ := 4

/-! ### Requests and notifications -/

/-- The fields of `PushRequest`: `op`, `app`, `title`, `body`, `action`, `badge`, `sound`,
`priority`, `notif_id`. -/
def pushRequestFields : List CType :=
  [int32, charArray 64, charArray 128, charArray 256, charArray 64, int32, int32, int32, int32]

/-- A `PushRequest` as it was read. -/
abbrev PushRequest := Image pushRequestFields

namespace PushRequest

variable (req : PushRequest)

/-- `req->op`. -/
def op : ℕ := req.u32 0

/-- `req->app` and what follows it. -/
def app : Bytes := req.memFrom 1

/-- `req->title` and what follows it. -/
def title : Bytes := req.memFrom 2

/-- `req->body` and what follows it. -/
def body : Bytes := req.memFrom 3

/-- `req->action` and what follows it. -/
def action : Bytes := req.memFrom 4

/-- `req->badge`. -/
def badge : ℤ := req.i32 5

/-- `req->sound`. -/
def sound : ℤ := req.i32 6

/-- `req->priority`. -/
def priority : ℤ := req.i32 7

end PushRequest

/-- A `PushNotification`. -/
structure PushNotification where
  /-- How many notifications there were before (ghost). -/
  number : ℕ
  /-- `id`. -/
  id : ℕ
  /-- `app`. -/
  app : Buf 64
  /-- `title`. -/
  title : Buf 128
  /-- `body`. -/
  body : Buf 256
  /-- `action`. -/
  action : Buf 64
  /-- `badge`. -/
  badge : ℤ
  /-- `sound`. -/
  sound : ℤ
  /-- `priority`. -/
  priority : ℤ
  /-- `timestamp`. -/
  timestamp : ℤ
  /-- `delivered`. -/
  delivered : ℤ
  /-- `read`. -/
  read : ℤ

/-- A slot of the static array. -/
def PushNotification.zero : PushNotification :=
  ⟨0, 0, .zero 64, .zero 128, .zero 256, .zero 64, 0, 0, 0, 0, 0, 0⟩

/-- The static variables. -/
structure State where
  /-- `notifs` and `notif_count`. -/
  notifs : PackedTable PushNotification maxNotifs
  /-- `next_id`. -/
  nextId : ℕ
  /-- How many notifications were stored (ghost). -/
  total : ℕ

/-- The static variables when the program starts. -/
def State.init : State := ⟨.empty .zero, 1, 0⟩

/-! ### Operations -/

/-- The assignments of `push_send` to a slot. -/
def setNotif (st : State) (now : ℤ) (req : PushRequest) (n : PushNotification) :
    PushNotification where
  number := st.total
  id := st.nextId
  app := n.app.strncpy req.app 63 Buf.le_64
  title := n.title.strncpy req.title 127 Buf.le_128
  body := n.body.strncpy req.body 255 Buf.le_256
  action := n.action.strncpy req.action 63 Buf.le_64
  badge := req.badge
  sound := req.sound
  priority := req.priority
  timestamp := now
  delivered := 1
  read := 0

/-- The critical section of `push_send`. -/
def pushSend (now : ℤ) (st : State) (req : PushRequest) : State where
  notifs := st.notifs.slide maxNotifs_pos (setNotif st now req)
  nextId := Bytes.wrap32 (st.nextId + 1)
  total := st.total + 1

/-- `notif_count = 0`. -/
def State.clear (st : State) : State := { st with notifs := st.notifs.clear }

/-- What `handle_push_client` does with a request. -/
def handlePushRequest (now : ℤ) (st : State) (req : PushRequest) : State :=
  match req.op with
  | pushOpSend => pushSend now st req
  | pushOpClear => st.clear
  | _ => st

/-- The request that `push_startup_notifs` makes. -/
def startupRequest : PushRequest where
  bytes := [Bytes.le 4 pushOpSend, Bytes.ljust 64 0 (Bytes.ofAscii "Julius OS"),
    Bytes.ljust 128 0 (Bytes.ofAscii "System Ready"),
    Bytes.ljust 256 0 (Bytes.ofAscii "All services running"), Bytes.ljust 64 0 [],
    Bytes.le 4 0, Bytes.le 4 0, Bytes.le 4 1, Bytes.le 4 0].flatten
  length_bytes := by decide +kernel

/-- `push_startup_notifs`, at a given time. -/
def pushStartupNotifs (now : ℤ) : State := pushSend now .init startupRequest

/-- The daemon as a machine that handles its requests one at a time, each with the time. -/
def daemon : Machine State (ℤ × PushRequest) where
  Init st := ∃ now, st = pushStartupNotifs now
  step st l := some (handlePushRequest l.1 st l.2)

end JuliusOS.Push
