import JuliusOS.Foundations.CString
import JuliusOS.Foundations.Machine
import JuliusOS.Foundations.PackedTable
import JuliusOS.Foundations.StructLayout

/-!
# The permissions daemon

`services/julius_permissions/julius_permissions.c`: a table of at most 512 permissions, filled by
`load_defaults` and then changed by the requests of `handle_perms_client`, each handled under
`perms_lock`. A request is the memory image of the C struct, so an application's name that is not
terminated inside its field runs on into the type. A name that is not terminated there either is
taken to end with the struct; the table holds names of at most 63 bytes, so its first 64 bytes
decide every comparison.

The log lines, and `perm_type_str` which only they use, are left out.
-/

open CString StructLayout

namespace JuliusOS.Permissions

/-- `MAX_PERMS`. -/
abbrev maxPerms : ℕ := 512

/-! ### Requests, responses and permissions -/

/-- `PERM_NETWORK`. -/
abbrev permNetwork : ℕ := 1

/-- `PERM_BLUETOOTH`. -/
abbrev permBluetooth : ℕ := 7

/-- `PERM_GPIO`. -/
abbrev permGpio : ℕ := 9

/-- `PermissionStatus`. -/
inductive PermissionStatus
  /-- `PERM_STATUS_UNKNOWN`. -/
  | unknown
  /-- `PERM_STATUS_GRANTED`. -/
  | granted
  /-- `PERM_STATUS_DENIED`. -/
  | denied
  /-- `PERM_STATUS_ASK`. -/
  | ask
deriving DecidableEq

/-- A `Permission`. -/
structure Permission where
  /-- `app`. -/
  app : Buf 64
  /-- `type`. -/
  type : ℕ
  /-- `status`. -/
  status : PermissionStatus
  /-- `granted_at`. -/
  grantedAt : ℤ
  /-- `usage_count`. -/
  usageCount : ℕ
deriving DecidableEq

/-- A slot of the static array. -/
def Permission.zero : Permission := ⟨.zero 64, 0, .unknown, 0, 0⟩

/-- The name and the type that the loops compare. -/
def Permission.key (p : Permission) : Bytes × ℕ := (cstr p.app.bytes, p.type)

/-- `perms` and `perm_count`. -/
abbrev Perms := PackedTable Permission maxPerms

/-- The fields of `PermRequest`: `op`, `app`, `type`. -/
def permRequestFields : List CType := [int32, charArray 64, int32]

/-- A `PermRequest` as it was read. -/
abbrev PermRequest := Image permRequestFields

namespace PermRequest

variable (req : PermRequest)

/-- `req.op`. -/
def op : ℕ := req.u32 0

/-- `req.app` and what follows it. -/
def app : Bytes := req.memFrom 1

/-- `req.type`. -/
def type : ℕ := req.u32 2

/-- What a request is about: the application's name and the type. -/
def key : Bytes × ℕ := (cstr req.app, req.type)

end PermRequest

/-- A `PermResponse`. -/
structure PermResponse where
  /-- `status`. -/
  status : PermissionStatus
  /-- `granted`. -/
  granted : ℕ
deriving DecidableEq

@[match_pattern] abbrev permCheck : ℕ := 1
@[match_pattern] abbrev permGrant : ℕ := 2
@[match_pattern] abbrev permDeny : ℕ := 3

/-! ### Operations -/

/-- The comparison of the three loops. -/
def isFor (app : Bytes) (type : ℕ) (p : Permission) : Bool :=
  strcmpEq p.app.bytes app && p.type == type

/-- `strncpy(p->app, app, 63); p->type = type`. -/
def namePerm (app : Bytes) (type : ℕ) (p : Permission) : Permission :=
  { p with
    app := p.app.strncpy app 63 Buf.le_64
    type }

/-- `p->status = PERM_STATUS_GRANTED; p->granted_at = time(NULL)`. -/
def grantPerm (now : ℤ) (p : Permission) : Permission :=
  { p with
    status := .granted
    grantedAt := now }

/-- `check_permission`. -/
def checkPermission (perms : Perms) (app : Bytes) (type : ℕ) : Perms × PermissionStatus :=
  match (perms.find? (isFor app type)).bind fun i ↦ perms.live[i]?.map (i, ·) with
  | some (i, p) => (perms.modify i fun p ↦ { p with usageCount := p.usageCount + 1 }, p.status)
  | none => (perms, .unknown)

/-- `grant_permission`. -/
def grantPermission (now : ℤ) (perms : Perms) (app : Bytes) (type : ℕ) : Perms :=
  match perms.find? (isFor app type) with
  | some i => perms.modify i (grantPerm now)
  | none =>
    if h : perms.count < maxPerms then
      (perms.append h (namePerm app type)).modify perms.count (grantPerm now)
    else perms

/-- `deny_permission`. -/
def denyPermission (perms : Perms) (app : Bytes) (type : ℕ) : Perms :=
  match perms.find? (isFor app type) with
  | some i => perms.modify i fun p ↦ { p with status := .denied }
  | none => perms

/-- The body of the loop in `handle_perms_client`. -/
def handlePermsRequest (now : ℤ) (perms : Perms) (req : PermRequest) : Perms × PermResponse :=
  match req.op with
  | permCheck =>
    let (perms, status) := checkPermission perms req.app req.type
    (perms, ⟨status, if status = .granted then 1 else 0⟩)
  | permGrant => (grantPermission now perms req.app req.type, ⟨.unknown, 1⟩)
  | permDeny => (denyPermission perms req.app req.type, ⟨.unknown, 0⟩)
  | _ => (perms, ⟨.unknown, 0⟩)

/-! ### The daemon -/

/-- `net_apps`. -/
def netApps : List String :=
  ["WiFi", "Scanner", "NetTools", "SSH", "Packets", "NetMon", "NetMapper", "SpeedTest", "WakeOnLAN",
    "Transfer", "Drop", "Cloud"]

/-- `&perms[perm_count++]` with its assignments. `load_defaults` does not look at the count, and the
table has room for all it adds. -/
def addDefault (perms : Perms) (app : String) (f : Permission → Permission) : Perms :=
  if h : perms.count < maxPerms then
    perms.append h fun p ↦ f { p with app := p.app.strncpy (Bytes.ofAscii app) 63 Buf.le_64 }
  else perms

/-- The loop of `load_defaults`. -/
def addNetApp (now : ℤ) (perms : Perms) (app : String) : Perms :=
  addDefault perms app fun p ↦ grantPerm now { p with type := permNetwork }

/-- `load_defaults`, at a given time. -/
def loadDefaults (now : ℤ) : Perms :=
  let perms := netApps.foldl (addNetApp now) (.empty .zero)
  let perms := addDefault perms "GPIO" fun p ↦ { p with type := permGpio, status := .granted }
  addDefault perms "Bluetooth" fun p ↦ { p with type := permBluetooth, status := .granted }

/-- The daemon as a machine; a request comes with the time it is handled at. -/
def daemon : Machine Perms (ℤ × PermRequest) where
  Init perms := ∃ now, perms = loadDefaults now
  step perms l := some (handlePermsRequest l.1 perms l.2).1

end JuliusOS.Permissions
