import JuliusOS.Foundations.CString
import JuliusOS.Foundations.JsonWriter
import JuliusOS.Foundations.Machine
import JuliusOS.Foundations.StructLayout
import JuliusOS.Foundations.TextLines
import Mathlib.Data.List.Forall2

/-!
# The audit log

`services/julius_audit/julius_audit.c`: an event is the memory image of the C struct, with the time
at which it is handled, and `audit_write` appends a line to the log, under `audit_lock`. The three
texts of the event are printed as they are, up to their first NUL, which may lie behind their field.

A newline in one of them ends the line, and what follows it may look like another event. And an
event is lost while the log cannot be opened. `audit_log_iff` says that these are the only ways in
which the log can go wrong.

`localtime` and SHA-256 are parameters. The log is what has been appended to the file; the alerts on
`stderr` and the counter of the events are left out.
-/

open CString StructLayout Utf8

namespace JuliusOS.Audit

/-! ### Events -/

/-- The fields of `AuditEvent`: `type`, `source`, `action`, `detail`, `pid`, `timestamp`,
`severity`. -/
def auditEventFields : List CType :=
  [int32, charArray 64, charArray 128, charArray 256, int32, int64, int32]

/-- An `AuditEvent` in memory. -/
abbrev AuditEvent := Image auditEventFields

theorem sizeof_auditEventFields : sizeof auditEventFields = 472 := by decide

example : offsets auditEventFields = [0, 4, 68, 196, 452, 456, 464] := by decide

namespace AuditEvent

variable (e : AuditEvent)

/-- `e->type`. -/
def type : ℕ := e.u32 0

/-- `e->source` and what follows it. -/
def source : Bytes := e.memFrom 1

/-- `e->action` and what follows it. -/
def action : Bytes := e.memFrom 2

/-- `e->detail` and what follows it. -/
def detail : Bytes := e.memFrom 3

/-- `e->pid`. -/
def pid : ℤ := e.i32 4

/-- `e->timestamp`. -/
def timestamp : ℤ := Bytes.ofLeInt (e.field 5)

/-- `e->severity`. -/
def severity : ℤ := e.i32 6

/-- `event.timestamp = now`. -/
def setTimestamp (now : ℤ) : AuditEvent where
  bytes := e.bytes.take 456 ++ Bytes.leInt 8 now ++ e.bytes.drop 464
  length_bytes := by
    have hlen := e.length_bytes
    rw [sizeof_auditEventFields] at hlen
    simp only [List.length_append, List.length_take, List.length_drop, Bytes.length_leInt, hlen]
    rfl

end AuditEvent

/-- `audit_type_str`. -/
def auditTypeStr : ℕ → String
  | 1 => "AUTH_SUCCESS"
  | 2 => "AUTH_FAIL"
  | 3 => "APP_START"
  | 4 => "APP_STOP"
  | 5 => "FILE_ACCESS"
  | 6 => "NET_CONNECT"
  | 7 => "SETTINGS_CHANGE"
  | 8 => "OTA_UPDATE"
  | 9 => "ENCLAVE_USE"
  | 10 => "PERMISSION"
  | 11 => "KEYCHAIN"
  | 12 => "SECURITY_ALERT"
  | _ => "UNKNOWN"

/-- `severity_str`. -/
def severityStr (s : ℤ) : String :=
  if 4 ≤ s then "CRITICAL"
  else if 3 ≤ s then "HIGH"
  else if 2 ≤ s then "MEDIUM"
  else if 1 ≤ s then "LOW"
  else "INFO"

/-- What `strftime` reads of a `struct tm`; the year and the month as they are printed. -/
structure Tm where
  /-- The year. -/
  year : ℤ
  /-- The month. -/
  mon : ℕ
  /-- `tm_mday`. -/
  mday : ℕ
  /-- `tm_hour`. -/
  hour : ℕ
  /-- `tm_min`. -/
  min : ℕ
  /-- `tm_sec`. -/
  sec : ℕ

/-- Two digits. -/
def twoDigits (n : ℕ) : List Char := [Nat.digitChar (n / 10 % 10), Nat.digitChar (n % 10)]

/-- `%Y-%m-%d %H:%M:%S`. -/
def Tm.format (tm : Tm) : List Char :=
  Python.decimal tm.year ++ ['-'] ++ twoDigits tm.mon ++ ['-'] ++ twoDigits tm.mday ++ [' '] ++
    twoDigits tm.hour ++ [':'] ++ twoDigits tm.min ++ [':'] ++ twoDigits tm.sec

/-- `%02x`. -/
def hexByte (b : UInt8) : List Char :=
  [Nat.digitChar (b.toNat / 16 % 16), Nat.digitChar (b.toNat % 16)]

/-! ### The daemon -/

section

variable (localtime : ℤ → Tm) (sha256 : Bytes → Buf 32)

/-- `audit_compute_hash`: eight bytes of the digest of the struct as it lies in memory. -/
def auditComputeHash (e : AuditEvent) : List Char := ((sha256 e.bytes).bytes.take 8).flatMap hexByte

/-- The time, the type, the severity and the process as they are printed. -/
def heading (e : AuditEvent) : List Char :=
  ['['] ++ (localtime e.timestamp).format ++ [']', ' ', '['] ++ (auditTypeStr e.type).toList ++
    [']', ' ', '['] ++ (severityStr e.severity).toList ++ [']', ' ', '[', 'P', 'I', 'D', ':'] ++
    Python.decimal e.pid ++ [']']

/-- The line of an event, up to the newline. -/
def auditLine (e : AuditEvent) : Bytes :=
  encode (heading localtime e) ++ encode [' ', '[', 'H', 'A', 'S', 'H', ':'] ++
    encode (auditComputeHash sha256 e) ++ encode [']', ' ', 'S', 'O', 'U', 'R', 'C', 'E', ':'] ++
    cstr e.source ++ encode [' ', 'A', 'C', 'T', 'I', 'O', 'N', ':'] ++ cstr e.action ++
    encode [' ', 'D', 'E', 'T', 'A', 'I', 'L', ':'] ++ cstr e.detail

/-- The static variable, and the log. -/
structure State where
  /-- `audit_file` is not `NULL`. -/
  auditFile : Bool
  /-- What has been appended to the log. -/
  log : Bytes
  /-- The events that have been handled, in order (ghost). -/
  handled : List AuditEvent

/-- When the program starts. -/
def State.init : State := ⟨false, [], []⟩

/-- `audit_write`, where `fopen` succeeds or not, if it is called. -/
def auditWrite (s : State) (e : AuditEvent) (fopen : Bool) : State :=
  let s := { s with handled := s.handled ++ [e] }
  if s.auditFile || fopen then
    { s with
      auditFile := true
      log := s.log ++ auditLine localtime sha256 e ++ [10] }
  else s

/-- What happens to an event that was read or, for the first one, made up by `main`. -/
structure Arrival where
  /-- The event. -/
  event : AuditEvent
  /-- `time(NULL)`. -/
  now : ℤ
  /-- Whether `fopen` succeeds. -/
  fopen : Bool

/-- The daemon as a machine that handles one event after the other. -/
def daemon : Machine State Arrival where
  Init s := s = .init
  step s l := some (auditWrite localtime sha256 s (l.event.setTimestamp l.now) l.fopen)

end

/-! ### The log -/

/-- The log has one line for each event that was handled, which starts with the event's heading. -/
def Unforged (localtime : ℤ → Tm) (s : State) : Prop :=
  ∃ lines : List Bytes, s.log = lines.flatMap (fun line ↦ line ++ [10]) ∧
    List.Forall₂ (fun e line ↦ (10 : UInt8) ∉ line ∧ encode (heading localtime e) <+: line)
      s.handled lines

/-- The texts of the event, as they are printed, have no newline. -/
structure OneLine (e : AuditEvent) : Prop where
  /-- `source`. -/
  source : (10 : UInt8) ∉ cstr e.source
  /-- `action`. -/
  action : (10 : UInt8) ∉ cstr e.action
  /-- `detail`. -/
  detail : (10 : UInt8) ∉ cstr e.detail

/-- The event can be written to the log, on one line. -/
structure Logged (s : State) (l : Arrival) : Prop where
  /-- The log is open, or can be opened. -/
  opened : s.auditFile = true ∨ l.fopen = true
  /-- The texts. -/
  oneLine : OneLine (l.event.setTimestamp l.now)

open Json (Printable printable_append printable_of_all printable_of_isDigit printable_digitChar
  not_newline_mem_encode)

variable {localtime : ℤ → Tm} {sha256 : Bytes → Buf 32} {s : State} {e : AuditEvent}

theorem printable_decimal (z : ℤ) : ∀ c ∈ Python.decimal z, Printable c := by
  intro c hc
  rcases Python.mem_decimal hc with hdigit | rfl
  · exact printable_of_isDigit hdigit
  · decide

theorem printable_twoDigits (n : ℕ) : ∀ c ∈ twoDigits n, Printable c := by
  have hdigit : ∀ m, Printable (Nat.digitChar (m % 10)) := by
    intro m
    have hlt : m % 10 % 16 = m % 10 :=
      Nat.mod_eq_of_lt ((Nat.mod_lt m (by decide)).trans (by decide))
    exact hlt ▸ printable_digitChar (m % 10)
  exact List.forall_mem_cons.2 ⟨hdigit _, List.forall_mem_singleton.2 (hdigit _)⟩

theorem printable_auditTypeStr (t : ℕ) : ∀ c ∈ (auditTypeStr t).toList, Printable c := by
  unfold auditTypeStr
  split <;> exact printable_of_all (by decide)

theorem printable_severityStr (z : ℤ) : ∀ c ∈ (severityStr z).toList, Printable c := by
  rw [severityStr]
  split_ifs <;> exact printable_of_all (by decide)

theorem printable_format (tm : Tm) : ∀ c ∈ tm.format, Printable c := by
  have hdash : ∀ c ∈ ['-'], Printable c := printable_of_all (by decide)
  have hspace : ∀ c ∈ [' '], Printable c := printable_of_all (by decide)
  have hcolon : ∀ c ∈ [':'], Printable c := printable_of_all (by decide)
  have hdate : ∀ c ∈ Python.decimal tm.year ++ ['-'] ++ twoDigits tm.mon ++ ['-'] ++
      twoDigits tm.mday ++ [' '], Printable c :=
    printable_append (printable_append (printable_append (printable_append
      (printable_append (printable_decimal _) hdash) (printable_twoDigits _)) hdash)
      (printable_twoDigits _)) hspace
  exact printable_append (printable_append (printable_append (printable_append
    (printable_append hdate (printable_twoDigits _)) hcolon) (printable_twoDigits _)) hcolon)
    (printable_twoDigits _)

/-- **A heading** is printable. -/
theorem printable_heading (localtime : ℤ → Tm) (e : AuditEvent) :
    ∀ c ∈ heading localtime e, Printable c := by
  have hopen : ∀ c ∈ ['['], Printable c := printable_of_all (by decide)
  have hnext : ∀ c ∈ [']', ' ', '['], Printable c := printable_of_all (by decide)
  have hpid : ∀ c ∈ [']', ' ', '[', 'P', 'I', 'D', ':'], Printable c := printable_of_all (by decide)
  have hclose : ∀ c ∈ [']'], Printable c := printable_of_all (by decide)
  exact printable_append (printable_append (printable_append (printable_append (printable_append
    (printable_append (printable_append (printable_append hopen (printable_format _)) hnext)
      (printable_auditTypeStr _)) hnext) (printable_severityStr _)) hpid) (printable_decimal _))
    hclose

theorem printable_auditComputeHash (sha256 : Bytes → Buf 32) (e : AuditEvent) :
    ∀ c ∈ auditComputeHash sha256 e, Printable c := by
  intro c hc
  obtain ⟨b, -, hb⟩ := List.mem_flatMap.1 hc
  rw [hexByte, List.mem_cons, List.mem_singleton] at hb
  rcases hb with rfl | rfl <;> exact printable_digitChar _

/-- **A line** is one line if the texts are. -/
theorem newline_notMem_auditLine_iff :
    (10 : UInt8) ∉ auditLine localtime sha256 e ↔ OneLine e := by
  have hheading := not_newline_mem_encode (printable_heading localtime e)
  have hhash := not_newline_mem_encode (printable_auditComputeHash sha256 e)
  have hopen : (10 : UInt8) ∉ encode [' ', '[', 'H', 'A', 'S', 'H', ':'] :=
    not_newline_mem_encode (printable_of_all (by decide))
  have hsource : (10 : UInt8) ∉ encode [']', ' ', 'S', 'O', 'U', 'R', 'C', 'E', ':'] :=
    not_newline_mem_encode (printable_of_all (by decide))
  have haction : (10 : UInt8) ∉ encode [' ', 'A', 'C', 'T', 'I', 'O', 'N', ':'] :=
    not_newline_mem_encode (printable_of_all (by decide))
  have hdetail : (10 : UInt8) ∉ encode [' ', 'D', 'E', 'T', 'A', 'I', 'L', ':'] :=
    not_newline_mem_encode (printable_of_all (by decide))
  simp only [auditLine, List.mem_append, hheading, hhash, hopen, hsource, haction, hdetail,
    false_or, or_false, not_or]
  exact ⟨fun h ↦ ⟨h.1.1, h.1.2, h.2⟩, fun h ↦ ⟨⟨h.source, h.action⟩, h.detail⟩⟩

/-- A log that is in order has as many newlines as there were events. -/
theorem count_of_forall₂ {es : List AuditEvent} {lines : List Bytes}
    (h : List.Forall₂ (fun e line ↦ (10 : UInt8) ∉ line ∧ encode (heading localtime e) <+: line)
      es lines) :
    (lines.flatMap fun line ↦ line ++ [10]).count (10 : UInt8) = es.length := by
  induction h with
  | nil => rfl
  | cons hline _ ih =>
    rw [List.flatMap_cons, List.count_append, ih, List.count_append,
      List.count_eq_zero_of_not_mem hline.1, List.length_cons]
    exact Nat.add_comm 1 _

theorem Unforged.count (h : Unforged localtime s) :
    s.log.count (10 : UInt8) = s.handled.length := by
  obtain ⟨lines, hlog, hlines⟩ := h
  rw [hlog, count_of_forall₂ hlines]

/-- **One more event** leaves the log in order exactly if it is written, on one line. -/
theorem unforged_auditWrite_iff (hs : Unforged localtime s) {fopen : Bool} :
    Unforged localtime (auditWrite localtime sha256 s e fopen) ↔
      (s.auditFile = true ∨ fopen = true) ∧ OneLine e := by
  rw [← Bool.or_eq_true]
  cases hopen : s.auditFile || fopen with
  | false =>
    refine iff_of_false (fun h ↦ ?_) (by rintro ⟨⟨⟩, -⟩)
    -- the event is missing in the log
    have hcount := h.count
    rw [auditWrite, hopen, if_neg Bool.false_ne_true, hs.count, List.length_append] at hcount
    simp at hcount
  | true =>
    have hwrite : auditWrite localtime sha256 s e fopen =
        ⟨true, s.log ++ auditLine localtime sha256 e ++ [10], s.handled ++ [e]⟩ := by
      rw [auditWrite, hopen, if_pos rfl]
    have hline : (10 : UInt8) ∉ auditLine localtime sha256 e ↔ OneLine e :=
      newline_notMem_auditLine_iff
    rw [and_iff_right rfl, ← hline, hwrite]
    constructor
    · intro h
      have hcount := h.count
      rw [List.count_append, List.count_append, hs.count, List.length_append,
        List.count_singleton_self, List.length_singleton] at hcount
      exact List.count_eq_zero.1 (by omega)
    · intro hfree
      obtain ⟨lines, hlog, hlines⟩ := hs
      refine ⟨lines ++ [auditLine localtime sha256 e], ?_, ?_⟩
      · rw [List.flatMap_append, List.flatMap_singleton, ← hlog, List.append_assoc]
      · refine List.rel_append hlines (List.Forall₂.cons ⟨hfree, ?_⟩ List.Forall₂.nil)
        simp only [auditLine, List.append_assoc]
        exact List.prefix_append _ _

theorem unforged_init (localtime : ℤ → Tm) : Unforged localtime .init := ⟨[], rfl, .nil⟩

/-- **When the log cannot be forged.** For every sequence of events, at any times: the log has
exactly one line for each event so far, after every event, if and only if the log is open for all of
them and none of their texts, as printed, has a newline. -/
theorem audit_log_iff (localtime : ℤ → Tm) (sha256 : Bytes → Buf 32) (arrivals : List Arrival) :
    (daemon localtime sha256).Guarded Logged .init arrivals ↔
      ∀ n s, (daemon localtime sha256).run .init (arrivals.take n) = some s →
        Unforged localtime s := by
  obtain ⟨t, hrun⟩ :=
    (daemon localtime sha256).exists_run_of_total (fun _ _ ↦ ⟨_, rfl⟩) .init arrivals
  refine Machine.guarded_iff_forall_take (J := fun _ ↦ True) (fun s l s' _ hs hstep ↦ ?_) trivial
    (unforged_init localtime) hrun
  obtain rfl := Option.some.inj hstep
  rw [unforged_auditWrite_iff hs]
  exact ⟨trivial, fun h ↦ ⟨h.opened, h.oneLine⟩, fun h ↦ ⟨h.1, h.2⟩⟩

/-- A clock that stands still. -/
def standing : ℤ → Tm := fun _ ↦ ⟨2026, 1, 1, 0, 0, 0⟩

/-- An event with no texts but a detail. -/
def withDetail (type : ℕ) (detail : Bytes) (h : detail.length ≤ 256) : AuditEvent where
  bytes := Bytes.le 4 type ++ List.replicate 192 0 ++ Bytes.ljust 256 0 detail ++
    List.replicate 20 0
  length_bytes := by
    rw [sizeof_auditEventFields]
    simp only [List.length_append, Bytes.length_le, List.length_replicate,
      Bytes.length_ljust_of_le h]

/-- A login that succeeds. -/
def success : AuditEvent := withDetail 1 [] (by decide)

/-- A login that fails, whose detail looks like the beginning of one that succeeds. -/
def forgery : AuditEvent :=
  withDetail 2 (10 :: encode (heading standing success)) (by decide +kernel)

/-- The last line of the log is about an event that did not take place. -/
theorem forged_success :
    ∃ s, (daemon standing fun _ ↦ .zero 32).run .init [⟨forgery, 0, true⟩] = some s ∧
      ¬ Unforged standing s ∧
      ([10] ++ encode (heading standing success) ++ [10]).isSuffixOf s.log = true := by
  refine ⟨_, rfl, ?_, by decide +kernel⟩
  rw [unforged_auditWrite_iff (unforged_init standing)]
  rintro ⟨-, hline⟩
  exact absurd hline.detail (by decide +kernel)

end JuliusOS.Audit
