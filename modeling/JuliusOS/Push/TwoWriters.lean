import JuliusOS.Push.NotifFile

/-!
# Two writers of one file

`/var/run/julius_notifications.json` is written by the push daemon, which prints its table after
every `PUSH_SEND`, and by the `NotificationCenter` of the UI, which dumps a list of its own: it
loads the file once, when it starts, and never again. Each writer overwrites what the other wrote.

Here the file is its entries, as they are loaded from what the daemon prints if the texts are plain
(`load_writeNotifFile`). A load may find the file unreadable. Both the critical section of
`push_send` and the write after it are steps, since other threads may come between.

* `tracked_step`: what the code does with its two lists, and which steps leave nothing lost;
* `two_writers`: a run loses nothing exactly if the daemon never writes after the UI accepted
  something, and the UI never after the daemon did.
-/

open CString Utf8
open Json (codes)

namespace JuliusOS.Push

/-! ### Entries -/

/-- Which notification it is (ghost). -/
inductive NoticeId
  /-- One that the file held at boot, or that `demo_notifs` made up. -/
  | prior (number : ℕ)
  /-- One that the daemon stored. -/
  | push (number : ℕ)
  /-- One that `NotificationCenter.add` inserted. -/
  | ui (number : ℕ)
deriving DecidableEq

/-- It came from the UI. -/
def NoticeId.isUi : NoticeId → Bool
  | .ui _ => true
  | _ => false

/-- A notification as both writers know it; texts are the bytes of their UTF-8. -/
structure Notice where
  /-- Which one it is. -/
  id : NoticeId
  /-- `"app"`. -/
  app : Bytes
  /-- `"title"`. -/
  title : Bytes
  /-- `"body"`. -/
  body : Bytes
  /-- `"time"`. -/
  time : Bytes
  /-- `"color"`. -/
  color : List ℕ
deriving DecidableEq

/-- An entry of the file, or of the UI's list. -/
structure Entry where
  /-- The notification. -/
  notice : Notice
  /-- `"read"`. -/
  read : Bool
deriving DecidableEq

/-- The notifications of some entries. -/
def notices (l : List Entry) : List Notice := l.map Entry.notice

/-- Which notifications some entries are. -/
def noticeIds (l : List Entry) : List NoticeId := l.map fun e ↦ e.notice.id

/-- `notifs[idx]["read"] = True`. -/
def Entry.markRead (e : Entry) : Entry := ⟨e.notice, true⟩

/-- `[10,132,255]`. -/
def blue : List ℕ := [10, 132, 255]

/-- The three entries of `demo_notifs`. -/
def demoNotifs (time : Bytes) : List Entry :=
  [⟨⟨.prior 0, Bytes.ofAscii "Julius OS", Bytes.ofAscii "System Ready",
      Bytes.ofAscii "All services running", time, [48, 209, 88]⟩, false⟩,
    ⟨⟨.prior 1, Bytes.ofAscii "WiFi", Bytes.ofAscii "Connected",
      Bytes.ofAscii "Connected to home network", time, blue⟩, false⟩,
    ⟨⟨.prior 2, Bytes.ofAscii "OTA", Bytes.ofAscii "Up to date",
      Bytes.ofAscii "Julius OS v1.0 is current", time, [255, 159, 10]⟩, true⟩]

/-! ### The two programs -/

section

-- a time as `%H:%M` in the local time zone
variable (clock : ℤ → Bytes)

/-- What `write_notif_file` prints of a slot. -/
def PushNotification.entry (n : PushNotification) : Entry :=
  ⟨⟨.push n.number, cstr n.app.bytes, cstr n.title.bytes, cstr n.body.bytes, clock n.timestamp,
    blue⟩, n.read != 0⟩

/-- The entries that `write_notif_file` prints. -/
def notifEntries (st : State) : List Entry := st.notifs.live.map (PushNotification.entry clock)

/-- The notification that a request stores. -/
def Sent.notice (n : Sent) : Notice :=
  ⟨.push n.number, n.contents.app, n.contents.title, n.contents.body, clock n.time, blue⟩

/-- The daemon, the UI and the file. -/
structure Shared where
  /-- The daemon's variables. -/
  push : State
  /-- What the threads stored that are between the critical section and `write_notif_file`. -/
  writing : List Notice
  /-- `NotificationCenter.notifs`, where the UI runs. -/
  ui : Option (List Entry)
  /-- The file, where there is one. -/
  file : Option (List Entry)
  /-- How many notifications the UI added (ghost). -/
  added : ℕ
  /-- The notifications accepted since the last `clear_all` and not dropped by a limit (ghost). -/
  due : List Notice
  /-- Those accepted that were not in the UI's list then (ghost). -/
  unseen : List Notice
  /-- The notifications that the UI saved as read (ghost). -/
  savedRead : List Notice

namespace Shared

variable (s : Shared)

/-- The notifications that the 256 entry limit drops for another. -/
def droppedByPush : List Notice :=
  (notices (notifEntries clock s.push)).take (s.push.notifs.count + 1 - maxNotifs)

/-- The critical section of `push_send`. -/
def store (now : ℤ) (req : PushRequest) : Shared :=
  { s with
    push := pushSend now s.push req
    writing := s.writing ++ [Sent.notice clock ⟨s.push.total, now, req⟩]
    due := s.due.filter (· ∉ s.droppedByPush clock) }

/-- `write_notif_file`, by the thread `k` of those that are about to, which stored `n`. -/
def writeNotifFile (k : ℕ) (n : Notice) : Shared :=
  { s with
    writing := s.writing.eraseIdx k
    file := some (notifEntries clock s.push)
    due := s.due ++ [n].filter (· ∈ notices (notifEntries clock s.push))
    unseen := s.unseen ++ [n].filter (· ∉ notices (s.ui.getD [])) }

/-- What `NotificationCenter.load` makes of the file. -/
def load (readable : Bool) (now : ℤ) : List Entry :=
  match s.file with
  | some l => if readable then l else []
  | none => demoNotifs (clock now)

/-- `NotificationCenter.__init__`. -/
def uiStart (readable : Bool) (now : ℤ) : Shared :=
  { s with
    ui := some (s.load clock readable now)
    unseen := s.due.filter (· ∉ notices (s.load clock readable now)) }

/-- `NotificationCenter.save` of a list. -/
def save (l : List Entry) : Shared :=
  { s with
    ui := some l
    file := some l
    savedRead := s.savedRead ++ notices (l.filter Entry.read) }

/-- The entry that `add` inserts. -/
def newEntry (app title body : Bytes) (color : Option (List ℕ)) (now : ℤ) : Entry :=
  ⟨⟨.ui s.added, app, title, body, clock now, (color.filter (· ≠ [])).getD blue⟩, false⟩

/-- What becomes of the ghosts when `add` has inserted an entry before `l`. -/
def accept (e : Entry) (l : List Entry) : Shared :=
  { s with
    added := s.added + 1
    due := (s.due ++ [e.notice]).filter (· ∉ notices ((e :: l).drop 50)) }

/-- `NotificationCenter.add`. -/
def add (l : List Entry) (e : Entry) : Shared := (s.accept e l).save ((e :: l).take 50)

/-- `NotificationCenter.mark_read`. -/
def markRead (l : List Entry) (idx : ℤ) : Shared :=
  if 0 ≤ idx ∧ idx < l.length then s.save (l.modify idx.toNat Entry.markRead) else s

/-- Nothing is due any more. -/
def forget : Shared := { s with due := [], unseen := [] }

/-- `NotificationCenter.clear_all`. -/
def clearAll : Shared := s.forget.save []

end Shared

/-- What can happen next. -/
inductive FileStep
  /-- A thread of the daemon handles a `PUSH_SEND` up to `write_notif_file`. -/
  | store (now : ℤ) (req : PushRequest)
  /-- The thread `k` of those writes the file. -/
  | write (k : ℕ)
  /-- The UI starts, and finds a file readable or not. -/
  | uiStart (readable : Bool) (now : ℤ)
  /-- `NotificationCenter.add`. -/
  | add (app title body : Bytes) (color : Option (List ℕ)) (now : ℤ)
  /-- `NotificationCenter.mark_read`. -/
  | markRead (idx : ℤ)
  /-- `NotificationCenter.clear_all`. -/
  | clearAll

/-- The two programs and their file as a machine. What the file holds at boot, neither of them
accepted. -/
def sharedFile : Machine Shared FileStep where
  Init s := s.push = .init ∧ s.writing = [] ∧ s.ui = none ∧ s.added = 0 ∧ s.due = [] ∧
    s.unseen = [] ∧ s.savedRead = [] ∧ ∀ l, s.file = some l →
      (noticeIds l).Nodup ∧ ∀ e ∈ l, ∃ k, e.notice.id = .prior k
  step s
    | .store now req => some (s.store clock now req)
    | .write k => s.writing[k]?.map (s.writeNotifFile clock k)
    | .uiStart readable now => some (s.uiStart clock readable now)
    | .add app title body color now =>
      s.ui.map fun l ↦ s.add l (s.newEntry clock app title body color now)
    | .markRead idx => s.ui.map fun l ↦ s.markRead l idx
    | .clearAll => s.ui.map fun _ ↦ s.clearAll

/-- The file has every notification accepted since the last `clear_all` that no limit dropped, and
none as unread that was saved as read. -/
structure Shared.Kept (s : Shared) : Prop where
  /-- Every accepted notification is in the file. -/
  contained : ∀ n ∈ s.due, n ∈ notices (s.file.getD [])
  /-- What was saved as read is not unread. -/
  stillRead : ∀ e ∈ s.file.getD [], e.notice ∈ s.savedRead → e.read = true

/-- The daemon writes only while nothing the UI added is due and nothing in the table was saved as
read; the UI saves only while nothing is due that its list did not have when it was accepted. -/
def InTurn (s : Shared) : FileStep → Prop
  | .write _ => (∀ n ∈ s.due, n.id.isUi = false) ∧
      ∀ n ∈ s.savedRead, n ∉ notices (notifEntries clock s.push)
  | .add .. => ∀ n ∈ s.due, n ∉ s.unseen
  | .markRead idx => 0 ≤ idx → idx < (s.ui.getD []).length → ∀ n ∈ s.due, n ∉ s.unseen
  | _ => True

instance (s : Shared) : (a : FileStep) → Decidable (InTurn clock s a)
  | .write _ => inferInstanceAs (Decidable (_ ∧ _))
  | .add .. => inferInstanceAs (Decidable (∀ n ∈ s.due, n ∉ s.unseen))
  | .markRead idx => inferInstanceAs (Decidable (0 ≤ idx → idx < (s.ui.getD []).length → _))
  | .store .. | .uiStart .. | .clearAll => inferInstanceAs (Decidable True)

/-! ### The file and its entries -/

/-- What is loaded is an entry. -/
structure Entry.LoadedAs (e : Entry) (v : Json.Value) : Prop where
  /-- `"app"`. -/
  app : ∃ s, encode s = e.notice.app ∧
    v.get? (codes ['a', 'p', 'p']) = some (.string (codes s))
  /-- `"title"`. -/
  title : ∃ s, encode s = e.notice.title ∧
    v.get? (codes ['t', 'i', 't', 'l', 'e']) = some (.string (codes s))
  /-- `"body"`. -/
  body : ∃ s, encode s = e.notice.body ∧
    v.get? (codes ['b', 'o', 'd', 'y']) = some (.string (codes s))
  /-- `"time"`. -/
  time : ∃ s, encode s = e.notice.time ∧
    v.get? (codes ['t', 'i', 'm', 'e']) = some (.string (codes s))
  /-- `"color"`. -/
  color : v.get? (codes ['c', 'o', 'l', 'o', 'r']) =
    some (.array (e.notice.color.map fun k ↦ .number (Nat.toDigits 10 k)))
  /-- `"read"`. -/
  read : v.get? (codes ['r', 'e', 'a', 'd']) = some (.bool e.read)

/-- The clock of a local time. -/
def clockOf (localtime : ℤ → Tm) (time : ℤ) : Bytes := encode (localtime time).hourMinute

theorem Printed.Of.entry_loadedAs {localtime : ℤ → Tm} {n : PushNotification} {x : Printed}
    (h : x.Of localtime n) :
    (n.entry (clockOf localtime)).LoadedAs (.object x.fields) where
  app := ⟨x.app, h.app, rfl⟩
  title := ⟨x.title, h.title, rfl⟩
  body := ⟨x.body, h.body, rfl⟩
  time := ⟨x.time.hourMinute, by rw [h.time]; rfl, rfl⟩
  color := rfl
  read := by
    rw [PushNotification.entry, ← h.read]
    rfl

/-- **The entries are what the file holds**, if the texts in the table are plain. -/
theorem load_writeNotifFile {st : State} (h : ∀ n ∈ st.notifs.live, n.contents.IsPlain)
    (localtime : ℤ → Tm) :
    ∃ vs, NotificationCenter.load (writeNotifFile localtime st) = .array vs ∧
      List.Forall₂ Entry.LoadedAs (notifEntries (clockOf localtime) st) vs := by
  obtain ⟨xs, hxs, hload⟩ := exists_jsonLoad_eq h localtime
  refine ⟨_, by rw [NotificationCenter.load, hload, Option.getD_some], ?_⟩
  exact List.forall₂_map_left_iff.2
    (List.forall₂_map_right_iff.2 (hxs.imp fun _ _ hx ↦ hx.entry_loadedAs))

/-! ### Which notifications there are -/

variable {clock} {s s' s₀ : Shared} {a : FileStep} {as : List FileStep} {l l' : List Entry}

/-- The notification came up before. -/
def Shared.Known (s : Shared) (n : Notice) : Prop :=
  match n.id with
  | .prior _ => True
  | .push k => k < s.push.total
  | .ui k => k < s.added

theorem Shared.Known.mono {n : Notice} (h : s.Known n) (hpush : s.push.total ≤ s'.push.total)
    (hadded : s.added ≤ s'.added) : s'.Known n := by
  rw [Known] at h ⊢
  split
  next => trivial
  next k hk =>
    rw [hk] at h
    exact Nat.lt_of_lt_of_le h hpush
  next k hk =>
    rw [hk] at h
    exact Nat.lt_of_lt_of_le h hadded

/-- Entries with different ids that are known. -/
structure Listed (s : Shared) (l : List Entry) : Prop where
  /-- No notification has two entries. -/
  nodup : (noticeIds l).Nodup
  /-- They came up before. -/
  known : ∀ e ∈ l, s.Known e.notice

theorem Listed.mono (h : Listed s l) (hpush : s.push.total ≤ s'.push.total)
    (hadded : s.added ≤ s'.added) : Listed s' l :=
  ⟨h.nodup, fun e he ↦ (h.known e he).mono hpush hadded⟩

theorem Listed.sublist (h : Listed s l) (hsub : l'.Sublist l) : Listed s l' :=
  ⟨h.nodup.sublist (hsub.map _), fun e he ↦ h.known e (hsub.subset he)⟩

/-- A notification has one entry. -/
theorem Listed.eq_of_notice (h : Listed s l) {e e' : Entry} (he : e ∈ l) (he' : e' ∈ l)
    (heq : e.notice = e'.notice) : e = e' :=
  List.inj_on_of_nodup_map h.nodup he he' (congrArg Notice.id heq)

theorem mem_notices {n : Notice} : n ∈ notices l ↔ ∃ e ∈ l, e.notice = n := List.mem_map

theorem notices_modify_markRead (l : List Entry) (i : ℕ) :
    notices (l.modify i Entry.markRead) = notices l := by
  refine List.ext_getElem? fun j ↦ ?_
  rw [notices, notices, List.getElem?_map, List.getElem?_map, List.getElem?_modify,
    Option.map_eq_map, Option.map_map]
  refine congrArg (fun f ↦ Option.map f l[j]?) (funext fun e ↦ ?_)
  rw [Function.comp_apply]
  split <;> rfl

/-! ### The daemon's table -/

/-- The slots of the daemon's table. -/
structure Stored (clock : ℤ → Bytes) (st : State) : Prop where
  /-- The texts are terminated in every slot. -/
  terminated : st.notifs.AllSlots TextsTerminated
  /-- The notifications are different. -/
  nodup : (noticeIds (notifEntries clock st)).Nodup
  /-- They are the daemon's own. -/
  pushed : ∀ e ∈ notifEntries clock st, ∃ k < st.total, e.notice.id = .push k
  /-- They are unread. -/
  unread : ∀ e ∈ notifEntries clock st, e.read = false

theorem entry_setNotif {n : PushNotification} (h : TextsTerminated n) (st : State) (now : ℤ)
    (req : PushRequest) :
    (setNotif st now req n).entry clock = ⟨Sent.notice clock ⟨st.total, now, req⟩, false⟩ := by
  have hcontents : (setNotif st now req n).contents = Sent.contents ⟨st.total, now, req⟩ :=
    contents_setNotif h st.total
  rw [PushNotification.entry, Sent.notice, ← hcontents]
  rfl

/-- **A notification sent** comes last, and the oldest goes where there are 256. -/
theorem notifEntries_pushSend {st : State} (h : st.notifs.AllSlots TextsTerminated) (now : ℤ)
    (req : PushRequest) :
    notifEntries clock (pushSend now st req) =
      (notifEntries clock st).drop (st.notifs.count + 1 - maxNotifs) ++
        [⟨Sent.notice clock ⟨st.total, now, req⟩, false⟩] := by
  have hlen : (notifEntries clock st).length = st.notifs.count := by
    rw [notifEntries, List.length_map, PackedTable.length_live]
  -- the slot that is filled shows nothing of what it held
  have hslide := st.notifs.map_live_slide_self maxNotifs_pos (g := PushNotification.entry clock)
    fun hroom ↦ entry_setNotif ((h.makeRoom maxNotifs_pos).nextSlot hroom) st now req
  refine hslide.trans ?_
  rw [← notifEntries, List.rtake, List.length_append, List.length_singleton, hlen,
    List.drop_append_of_le_length]
  rw [hlen]
  exact Nat.sub_le_iff_le_add.2 (Nat.add_le_add_left maxNotifs_pos _)

theorem stored_init (clock : ℤ → Bytes) : Stored clock .init where
  terminated := PackedTable.allSlots_empty textsTerminated_zero
  nodup := List.nodup_nil
  pushed := fun _ he ↦ absurd he List.not_mem_nil
  unread := fun _ he ↦ absurd he List.not_mem_nil

theorem Stored.pushSend {st : State} (h : Stored clock st) (now : ℤ) (req : PushRequest) :
    Stored clock (pushSend now st req) where
  terminated := h.terminated.slide maxNotifs_pos fun n hn ↦ hn.setNotif st now req
  nodup := by
    rw [notifEntries_pushSend h.terminated, noticeIds, List.map_append, List.map_drop]
    refine List.Nodup.append (h.nodup.sublist (List.drop_sublist ..)) (List.nodup_singleton _)
      fun i hi hi' ↦ ?_
    -- the number of the new one is greater than all the others
    obtain ⟨e, he, rfl⟩ := List.mem_map.1 (List.mem_of_mem_drop hi)
    obtain ⟨k, hk, hid⟩ := h.pushed e he
    have hnew : e.notice.id = .push st.total := List.mem_singleton.1 hi'
    rw [hid, NoticeId.push.injEq] at hnew
    omega
  pushed := by
    rw [notifEntries_pushSend h.terminated]
    intro e he
    rcases List.mem_append.1 he with he | he
    · obtain ⟨k, hk, hid⟩ := h.pushed e (List.mem_of_mem_drop he)
      exact ⟨k, Nat.lt_succ_of_lt hk, hid⟩
    · rw [List.mem_singleton.1 he]
      exact ⟨st.total, Nat.lt_succ_self _, rfl⟩
  unread := by
    rw [notifEntries_pushSend h.terminated]
    intro e he
    rcases List.mem_append.1 he with he | he
    · exact h.unread e (List.mem_of_mem_drop he)
    · rw [List.mem_singleton.1 he]

/-! ### The two lists -/

/-- Where the accepted notifications are. -/
structure Tracked (clock : ℤ → Bytes) (s : Shared) : Prop where
  /-- The daemon's table. -/
  stored : Stored clock s.push
  /-- The UI's list. -/
  listed : ∀ l, s.ui = some l → Listed s l
  /-- The file. -/
  filed : ∀ l, s.file = some l → Listed s l
  /-- What is due, the UI added or the daemon has in its table. -/
  due : ∀ n ∈ s.due, (∃ k < s.added, n.id = .ui k) ∨ n ∈ notices (notifEntries clock s.push)
  /-- What is due, the UI has in its list or has not seen. -/
  seen : ∀ l, s.ui = some l → ∀ n ∈ s.due, n ∈ s.unseen ∨ n ∈ notices l
  /-- What the UI has not seen is not in its list. -/
  unseen : ∀ l, s.ui = some l → ∀ n ∈ s.unseen, n ∉ notices l
  /-- What was saved as read is read in the UI's list. -/
  read : ∀ l, s.ui = some l → ∀ e ∈ l, e.notice ∈ s.savedRead → e.read = true
  /-- Nothing was saved as long as there is no file. -/
  unsaved : s.file = none → s.savedRead = []
  /-- All of them came up before. -/
  known : ∀ n ∈ s.writing ++ s.unseen ++ s.savedRead, s.Known n

/-- What is due came up before. -/
theorem Tracked.known_of_due (h : Tracked clock s) {n : Notice} (hn : n ∈ s.due) : s.Known n := by
  rcases h.due n hn with ⟨k, hk, hid⟩ | hmem
  · rw [Shared.Known, hid]
    exact hk
  · obtain ⟨e, he, rfl⟩ := mem_notices.1 hmem
    obtain ⟨k, hk, hid⟩ := h.stored.pushed e he
    rw [Shared.Known, hid]
    exact hk

/-- The daemon's entries are a list as they should be. -/
theorem Tracked.listed_notifEntries (h : Tracked clock s) :
    Listed s (notifEntries clock s.push) := by
  refine ⟨h.stored.nodup, fun e he ↦ ?_⟩
  obtain ⟨k, hk, hid⟩ := h.stored.pushed e he
  rw [Shared.Known, hid]
  exact hk

/-! ### The daemon's steps -/

/-- **A request that is stored** leaves the file alone; what the limit drops is no longer due. -/
theorem Tracked.store (h : Tracked clock s) (now : ℤ) (req : PushRequest) :
    Tracked clock (s.store clock now req) where
  stored := h.stored.pushSend now req
  listed := fun l hl ↦ (h.listed l hl).mono (Nat.le_succ _) le_rfl
  filed := fun l hl ↦ (h.filed l hl).mono (Nat.le_succ _) le_rfl
  due := by
    intro n hn
    obtain ⟨hn, hkept⟩ := List.mem_filter.1 hn
    rw [decide_eq_true_eq] at hkept
    refine (h.due n hn).imp_right fun hmem ↦ ?_
    show n ∈ notices (notifEntries clock (pushSend now s.push req))
    rw [notifEntries_pushSend h.stored.terminated, notices, List.map_append, List.map_drop]
    rw [← List.take_append_drop (s.push.notifs.count + 1 - maxNotifs)
      (notices (notifEntries clock s.push))] at hmem
    exact List.mem_append_left _ ((List.mem_append.1 hmem).resolve_left hkept)
  seen := fun l hl n hn ↦ h.seen l hl n (List.mem_of_mem_filter hn)
  unseen := h.unseen
  read := h.read
  unsaved := h.unsaved
  known := by
    intro n hn
    have hmono : ∀ m, s.Known m → (s.store clock now req).Known m :=
      fun m hm ↦ hm.mono (Nat.le_succ _) le_rfl
    simp only [Shared.store, List.mem_append, List.mem_singleton] at hn
    rcases hn with ((hn | rfl) | hn) | hn
    · exact hmono n (h.known n (by simp [hn]))
    · exact Nat.lt_succ_self s.push.total
    · exact hmono n (h.known n (by simp [hn]))
    · exact hmono n (h.known n (by simp [hn]))

theorem Tracked.write {k : ℕ} {n : Notice} (h : Tracked clock s) (hk : s.writing[k]? = some n) :
    Tracked clock (s.writeNotifFile clock k n) where
  stored := h.stored
  listed := fun l hl ↦ (h.listed l hl).mono le_rfl le_rfl
  filed := by
    rintro l ⟨⟩
    exact h.listed_notifEntries.mono le_rfl le_rfl
  due := by
    intro m hm
    rcases List.mem_append.1 hm with hm | hm
    · exact h.due m hm
    · exact Or.inr (of_decide_eq_true (List.mem_filter.1 hm).2)
  seen := by
    intro l hl m hm
    have hlist : s.ui.getD [] = l := by rw [show s.ui = some l from hl, Option.getD_some]
    rcases List.mem_append.1 hm with hm | hm
    · exact (h.seen l hl m hm).imp_left (List.mem_append_left _)
    · by_cases hmem : m ∈ notices l
      · exact Or.inr hmem
      · refine Or.inl (List.mem_append_right _ (List.mem_filter.2 ⟨List.mem_of_mem_filter hm, ?_⟩))
        rw [hlist]
        exact decide_eq_true hmem
  unseen := by
    intro l hl m hm
    have hlist : s.ui.getD [] = l := by rw [show s.ui = some l from hl, Option.getD_some]
    rcases List.mem_append.1 hm with hm | hm
    · exact h.unseen l hl m hm
    · rw [hlist] at hm
      exact of_decide_eq_true (List.mem_filter.1 hm).2
  read := h.read
  unsaved := by rintro ⟨⟩
  known := by
    have hn : s.Known n := h.known n (by simp [List.mem_of_getElem? hk])
    intro m hm
    simp only [Shared.writeNotifFile, List.mem_append, List.mem_filter, List.mem_singleton] at hm
    rcases hm with (hm | hm | ⟨rfl, -⟩) | hm
    · exact h.known m (by simp [List.mem_of_mem_eraseIdx hm])
    · exact h.known m (by simp [hm])
    · exact hn
    · exact h.known m (by simp [hm])

/-- **When a write of the daemon** loses nothing. -/
theorem Tracked.kept_write_iff {k : ℕ} {n : Notice} (h : Tracked clock s) :
    (s.writeNotifFile clock k n).Kept ↔ InTurn clock s (.write k) := by
  have hpush : ∀ m ∈ notices (notifEntries clock s.push), m.id.isUi = false := by
    intro m hm
    obtain ⟨e, he, rfl⟩ := mem_notices.1 hm
    obtain ⟨k, -, hid⟩ := h.stored.pushed e he
    rw [hid]
    rfl
  constructor
  · intro hkept
    -- what is due is in the file now, which has the table's entries only
    refine ⟨fun m hm ↦ hpush m (hkept.contained m (List.mem_append_left _ hm)),
      fun m hm hmem ↦ ?_⟩
    obtain ⟨e, he, rfl⟩ := mem_notices.1 hmem
    exact Bool.false_ne_true ((h.stored.unread e he).symm.trans (hkept.stillRead e he hm))
  · rintro ⟨hdue, hread⟩
    refine ⟨fun m hm ↦ ?_, fun e he hmem ↦ absurd (mem_notices.2 ⟨e, he, rfl⟩) (hread _ hmem)⟩
    rcases List.mem_append.1 hm with hm | hm
    · refine (h.due m hm).resolve_left ?_
      rintro ⟨i, -, hid⟩
      have hui := hdue m hm
      rw [hid] at hui
      cases hui
    · exact of_decide_eq_true (List.mem_filter.1 hm).2

/-! ### The UI's steps -/

theorem listed_demoNotifs (s : Shared) (time : Bytes) : Listed s (demoNotifs time) := by
  refine ⟨?_, fun e he ↦ ?_⟩
  · show [NoticeId.prior 0, .prior 1, .prior 2].Nodup
    decide
  · simp only [demoNotifs, List.mem_cons, List.not_mem_nil, or_false] at he
    rcases he with rfl | rfl | rfl <;> exact trivial

theorem listed_nil (s : Shared) : Listed s [] :=
  ⟨List.nodup_nil, fun _ he ↦ absurd he List.not_mem_nil⟩

/-- What a UI that starts takes for its list: the entries of the file, none, or the demo's. -/
theorem Tracked.listed_load (h : Tracked clock s) (hkept : s.Kept) (readable : Bool) (now : ℤ) :
    Listed s (s.load clock readable now) ∧
      ∀ e ∈ s.load clock readable now, e.notice ∈ s.savedRead → e.read = true := by
  rw [Shared.load]
  split
  next l hl =>
    split
    · refine ⟨h.filed l hl, fun e he ↦ hkept.stillRead e ?_⟩
      rw [hl]
      exact he
    · exact ⟨listed_nil s, fun _ he ↦ absurd he List.not_mem_nil⟩
  next hl =>
    -- without a file nothing was ever saved
    refine ⟨listed_demoNotifs s _, fun e _ hmem ↦ ?_⟩
    rw [h.unsaved hl] at hmem
    exact absurd hmem List.not_mem_nil

/-- **A UI that starts** reads what is in the file, and leaves it alone. -/
theorem Tracked.uiStart (h : Tracked clock s) (hkept : s.Kept) (readable : Bool) (now : ℤ) :
    Tracked clock (s.uiStart clock readable now) where
  stored := h.stored
  listed := by
    rintro l ⟨⟩
    exact (h.listed_load hkept readable now).1.mono le_rfl le_rfl
  filed := fun l hl ↦ (h.filed l hl).mono le_rfl le_rfl
  due := h.due
  seen := by
    rintro l ⟨⟩ n hn
    by_cases hmem : n ∈ notices (s.load clock readable now)
    · exact Or.inr hmem
    · exact Or.inl (List.mem_filter.2 ⟨hn, decide_eq_true hmem⟩)
  unseen := by
    rintro l ⟨⟩ n hn
    exact of_decide_eq_true (List.mem_filter.1 hn).2
  read := by
    rintro l ⟨⟩
    exact (h.listed_load hkept readable now).2
  unsaved := h.unsaved
  known := by
    intro n hn
    simp only [Shared.uiStart, List.mem_append, List.mem_filter] at hn
    rcases hn with (hn | ⟨hn, -⟩) | hn
    · exact h.known n (by simp [hn])
    · exact h.known_of_due hn
    · exact h.known n (by simp [hn])

/-- What holds of a list that the UI saves. -/
structure Savable (clock : ℤ → Bytes) (s : Shared) (l : List Entry) : Prop where
  /-- The daemon's table. -/
  stored : Stored clock s.push
  /-- The list. -/
  listed : Listed s l
  /-- What is due, the UI added or the daemon has in its table. -/
  due : ∀ n ∈ s.due, (∃ k < s.added, n.id = .ui k) ∨ n ∈ notices (notifEntries clock s.push)
  /-- What is due is in the list or was not seen. -/
  seen : ∀ n ∈ s.due, n ∈ s.unseen ∨ n ∈ notices l
  /-- What was not seen is not in the list. -/
  unseen : ∀ n ∈ s.unseen, n ∉ notices l
  /-- What was saved as read is read in the list. -/
  read : ∀ e ∈ l, e.notice ∈ s.savedRead → e.read = true
  /-- All of them came up before. -/
  known : ∀ n ∈ s.writing ++ s.unseen ++ s.savedRead, s.Known n

/-- After a save, what was saved as read is read in the list. -/
theorem Savable.read_save (h : Savable clock s l) :
    ∀ e ∈ l, e.notice ∈ (s.save l).savedRead → e.read = true := by
  intro e he hmem
  rcases List.mem_append.1 hmem with hmem | hmem
  · exact h.read e he hmem
  · obtain ⟨e', he', heq⟩ := mem_notices.1 hmem
    obtain ⟨he', hread⟩ := List.mem_filter.1 he'
    rwa [h.listed.eq_of_notice he he' heq.symm]

theorem Savable.tracked (h : Savable clock s l) : Tracked clock (s.save l) where
  stored := h.stored
  listed := by
    rintro l' ⟨⟩
    exact h.listed.mono le_rfl le_rfl
  filed := by
    rintro l' ⟨⟩
    exact h.listed.mono le_rfl le_rfl
  due := h.due
  seen := by
    rintro l' ⟨⟩
    exact h.seen
  unseen := by
    rintro l' ⟨⟩
    exact h.unseen
  read := by
    rintro l' ⟨⟩
    exact h.read_save
  unsaved := by rintro ⟨⟩
  known := by
    intro n hn
    simp only [Shared.save, List.mem_append] at hn
    rcases hn with (hn | hn) | hn | hn
    · exact h.known n (by simp [hn])
    · exact h.known n (by simp [hn])
    · exact h.known n (by simp [hn])
    · obtain ⟨e, he, rfl⟩ := mem_notices.1 hn
      exact h.listed.known e (List.mem_of_mem_filter he)

/-- **When a save of the UI** loses nothing. -/
theorem Savable.kept_iff (h : Savable clock s l) :
    (s.save l).Kept ↔ ∀ n ∈ s.due, n ∉ s.unseen := by
  constructor
  · intro hkept n hn hunseen
    exact h.unseen n hunseen (hkept.contained n hn)
  · intro hdue
    exact ⟨fun n hn ↦ (h.seen n hn).resolve_left (hdue n hn), h.read_save⟩

theorem Tracked.savable_markRead (h : Tracked clock s) (hui : s.ui = some l) (i : ℕ) :
    Savable clock s (l.modify i Entry.markRead) := by
  have hnotices := notices_modify_markRead l i
  have hlisted := h.listed l hui
  refine ⟨h.stored, ⟨?_, fun e he ↦ ?_⟩, h.due, ?_, ?_, fun e he hmem ↦ ?_, h.known⟩
  · have hids := congrArg (List.map Notice.id) hnotices
    rw [notices, notices, List.map_map, List.map_map] at hids
    show (List.map (Notice.id ∘ Entry.notice) _).Nodup
    rw [hids]
    exact hlisted.nodup
  · have hmem : e.notice ∈ notices l := hnotices ▸ mem_notices.2 ⟨e, he, rfl⟩
    obtain ⟨e', he', heq⟩ := mem_notices.1 hmem
    exact heq ▸ hlisted.known e' he'
  · rw [hnotices]
    exact h.seen l hui
  · rw [hnotices]
    exact h.unseen l hui
  · obtain ⟨j, hj⟩ := List.getElem?_of_mem he
    rw [List.getElem?_modify] at hj
    obtain ⟨e', he', rfl⟩ := Option.map_eq_some_iff.1 hj
    split
    · rfl
    next hne =>
      rw [if_neg hne] at hmem
      exact h.read l hui e' (List.mem_of_getElem? he') hmem

/-- The number of the next notification that the UI adds is new. -/
theorem not_known_of_id {n : Notice} (hid : n.id = .ui s.added) : ¬ s.Known n := by
  rw [Shared.Known, hid]
  exact lt_irrefl s.added

theorem Listed.accept (h : Listed s l) {e : Entry} (hid : e.notice.id = .ui s.added) :
    Listed (s.accept e l) (e :: l) := by
  refine ⟨List.nodup_cons.2 ⟨fun hmem ↦ ?_, h.nodup⟩, fun e' he' ↦ ?_⟩
  · obtain ⟨e', he', heq⟩ := List.mem_map.1 hmem
    exact not_known_of_id (heq.trans hid) (h.known e' he')
  · rcases List.mem_cons.1 he' with rfl | he'
    · show (s.accept e' l).Known e'.notice
      rw [Shared.Known, hid]
      exact Nat.lt_succ_self _
    · exact (h.known e' he').mono le_rfl (Nat.le_succ _)

/-- **An entry that is added** comes first, and the last goes where there are 50. -/
theorem Tracked.savable_add (h : Tracked clock s) (hui : s.ui = some l) {e : Entry}
    (hid : e.notice.id = .ui s.added) :
    Savable clock (s.accept e l) ((e :: l).take 50) where
  stored := h.stored
  listed := ((h.listed l hui).accept hid).sublist (List.take_sublist ..)
  due := by
    intro n hn
    rcases List.mem_append.1 (List.mem_of_mem_filter hn) with hn | hn
    · refine (h.due n hn).imp_left ?_
      rintro ⟨k, hk, hid⟩
      exact ⟨k, Nat.lt_succ_of_lt hk, hid⟩
    · rw [List.mem_singleton.1 hn]
      exact Or.inl ⟨s.added, Nat.lt_succ_self _, hid⟩
  seen := by
    intro n hn
    obtain ⟨hn, hkept⟩ := List.mem_filter.1 hn
    have hmem : n ∈ s.unseen ∨ n ∈ notices (e :: l) := by
      rcases List.mem_append.1 hn with hn | hn
      · exact (h.seen l hui n hn).imp_right (List.mem_cons_of_mem _)
      · rw [List.mem_singleton.1 hn]
        exact Or.inr (List.mem_cons_self ..)
    refine hmem.imp_right fun hmem ↦ ?_
    -- what the limit cuts off is no longer due
    rw [← List.take_append_drop 50 (e :: l), notices, List.map_append] at hmem
    exact (List.mem_append.1 hmem).resolve_right (of_decide_eq_true hkept)
  unseen := by
    intro n hn hmem
    obtain ⟨e', he', rfl⟩ := mem_notices.1 hmem
    rcases List.mem_cons.1 (List.mem_of_mem_take he') with rfl | he'
    · exact not_known_of_id hid (h.known _ (List.mem_append_left _ (List.mem_append_right _ hn)))
    · exact h.unseen l hui _ hn (mem_notices.2 ⟨e', he', rfl⟩)
  read := by
    intro e' he' hmem
    rcases List.mem_cons.1 (List.mem_of_mem_take he') with rfl | he'
    · exact absurd (h.known _ (List.mem_append_right _ hmem)) (not_known_of_id hid)
    · exact h.read l hui e' he' hmem
  known := fun n hn ↦ (h.known n hn).mono le_rfl (Nat.le_succ _)

/-- The ghosts of `add` make no difference to what is due and was not seen. -/
theorem Tracked.due_accept_iff (h : Tracked clock s) (hui : s.ui = some l) {e : Entry}
    (hid : e.notice.id = .ui s.added) :
    (∀ n ∈ (s.accept e l).due, n ∉ s.unseen) ↔ ∀ n ∈ s.due, n ∉ s.unseen := by
  constructor
  · intro hall n hn hunseen
    refine hall n (List.mem_filter.2 ⟨List.mem_append_left _ hn, decide_eq_true ?_⟩) hunseen
    -- what the limit drops was in the list
    intro hdropped
    obtain ⟨e', he', rfl⟩ := mem_notices.1 hdropped
    have hmem : e' ∈ l := List.mem_of_mem_drop (show e' ∈ l.drop 49 from he')
    exact h.unseen l hui _ hunseen (mem_notices.2 ⟨e', hmem, rfl⟩)
  · intro hall n hn
    rcases List.mem_append.1 (List.mem_of_mem_filter hn) with hn | hn
    · exact hall n hn
    · rw [List.mem_singleton.1 hn]
      intro hmem
      exact not_known_of_id hid (h.known _ (List.mem_append_left _ (List.mem_append_right _ hmem)))

theorem Tracked.savable_clearAll (h : Tracked clock s) : Savable clock s.forget [] where
  stored := h.stored
  listed := listed_nil _
  due := fun _ hn ↦ absurd hn List.not_mem_nil
  seen := fun _ hn ↦ absurd hn List.not_mem_nil
  unseen := fun _ hn ↦ absurd hn List.not_mem_nil
  read := fun _ he ↦ absurd he List.not_mem_nil
  known := by
    intro n hn
    simp only [Shared.forget, List.mem_append, List.not_mem_nil, or_false] at hn
    rcases hn with hn | hn
    · exact h.known n (by simp [hn])
    · exact h.known n (by simp [hn])

/-! ### Runs -/

/-- **A step keeps track**, and it loses nothing exactly if the writers take turns. -/
theorem tracked_step (h : Tracked clock s) (hkept : s.Kept)
    (hstep : (sharedFile clock).step s a = some s') :
    Tracked clock s' ∧ (InTurn clock s a ↔ s'.Kept) := by
  cases a with
  | store now req =>
    obtain rfl := Option.some.inj hstep
    exact ⟨h.store now req, iff_of_true trivial
      ⟨fun n hn ↦ hkept.contained n (List.mem_of_mem_filter hn), hkept.stillRead⟩⟩
  | write k =>
    obtain ⟨n, hk, rfl⟩ := Option.map_eq_some_iff.1 hstep
    exact ⟨h.write hk, h.kept_write_iff.symm⟩
  | uiStart readable now =>
    obtain rfl := Option.some.inj hstep
    exact ⟨h.uiStart hkept readable now, iff_of_true trivial ⟨hkept.contained, hkept.stillRead⟩⟩
  | add app title body color now =>
    obtain ⟨l, hui, rfl⟩ := Option.map_eq_some_iff.1 hstep
    have hsave := h.savable_add hui (e := s.newEntry clock app title body color now) rfl
    exact ⟨hsave.tracked, (h.due_accept_iff hui rfl).symm.trans hsave.kept_iff.symm⟩
  | markRead idx =>
    obtain ⟨l, hui, rfl⟩ := Option.map_eq_some_iff.1 hstep
    rw [Shared.markRead, InTurn, hui, Option.getD_some]
    split
    next hidx =>
      have hsave := h.savable_markRead hui idx.toNat
      refine ⟨hsave.tracked, Iff.trans ?_ hsave.kept_iff.symm⟩
      exact ⟨fun hall ↦ hall hidx.1 hidx.2, fun hall _ _ ↦ hall⟩
    next hidx =>
      exact ⟨h, iff_of_true (fun h₀ h₁ ↦ absurd ⟨h₀, h₁⟩ hidx) hkept⟩
  | clearAll =>
    obtain ⟨l, -, rfl⟩ := Option.map_eq_some_iff.1 hstep
    have hsave := h.savable_clearAll
    exact ⟨hsave.tracked, iff_of_true trivial
      (hsave.kept_iff.2 fun _ hn ↦ absurd hn List.not_mem_nil)⟩

theorem tracked_of_init (h : (sharedFile clock).Init s) : Tracked clock s ∧ s.Kept := by
  obtain ⟨hpush, hwriting, hui, -, hdue, hunseen, hread, hfile⟩ := h
  have hlist : ∀ l, s.ui ≠ some l := by
    rw [hui]
    rintro l ⟨⟩
  refine ⟨⟨hpush ▸ stored_init clock, fun l hl ↦ absurd hl (hlist l), fun l hl ↦ ?_, ?_,
    fun l hl ↦ absurd hl (hlist l), fun l hl ↦ absurd hl (hlist l),
    fun l hl ↦ absurd hl (hlist l), fun _ ↦ hread, ?_⟩, ⟨?_, ?_⟩⟩
  · obtain ⟨hnodup, hprior⟩ := hfile l hl
    refine ⟨hnodup, fun e he ↦ ?_⟩
    obtain ⟨k, hk⟩ := hprior e he
    rw [Shared.Known, hk]
    exact trivial
  · rw [hdue]
    exact fun _ hn ↦ absurd hn List.not_mem_nil
  · rw [hwriting, hunseen, hread]
    exact fun _ hn ↦ absurd hn List.not_mem_nil
  · rw [hdue]
    exact fun _ hn ↦ absurd hn List.not_mem_nil
  · rw [hread]
    exact fun _ _ hn ↦ absurd hn List.not_mem_nil

/-- **When nothing is lost.** A run leaves every accepted notification in the file, and read what
was saved as read, in every state, exactly if the two writers always take turns. -/
theorem two_writers (hinit : (sharedFile clock).Init s₀)
    (hrun : (sharedFile clock).run s₀ as = some s) :
    (sharedFile clock).Guarded (InTurn clock) s₀ as ↔
      ∀ n u, (sharedFile clock).run s₀ (as.take n) = some u → u.Kept := by
  obtain ⟨htracked, hkept⟩ := tracked_of_init hinit
  exact Machine.guarded_iff_forall_take (fun _ _ _ ↦ tracked_step) htracked hkept hrun

/-- Both programs before they start, and no file. -/
def Shared.boot : Shared := ⟨.init, [], none, none, 0, [], [], []⟩

theorem Shared.init_boot : (sharedFile clock).Init .boot :=
  ⟨rfl, rfl, rfl, rfl, rfl, rfl, rfl, by rintro l ⟨⟩⟩

/-- A clock for examples. -/
def noon (_ : ℤ) : Bytes := Bytes.ofAscii "12:00"

/-- The daemon writes its first notification, the UI starts, marks it as read and adds another. -/
def turns : List FileStep :=
  [.store 0 startupRequest, .write 0, .uiStart true 0, .markRead 0, .add [65] [66] [67] none 0]

/-- A run without a loss. -/
theorem two_writers_in_turn :
    ∃ s, (sharedFile noon).run .boot turns = some s ∧ s.due.length = 2 ∧
      ∀ n u, (sharedFile noon).run .boot (turns.take n) = some u → u.Kept := by
  have hrun : ((sharedFile noon).run .boot turns).map (fun s ↦ s.due.length) = some 2 := by
    decide +kernel
  obtain ⟨s, hs, hlen⟩ := Option.map_eq_some_iff.1 hrun
  have hguard : (sharedFile noon).Guarded (InTurn noon) .boot turns := by decide +kernel
  exact ⟨s, hs, hlen, (two_writers Shared.init_boot hs).1 hguard⟩

/-- Once the UI has read the file, the daemon stores another notification; then the UI adds one. -/
def outOfTurn : List FileStep :=
  [.store 0 startupRequest, .write 0, .uiStart true 0, .store 0 startupRequest, .write 0,
    .add [65] [66] [67] none 0]

/-- The UI's write loses the daemon's second notification. -/
theorem not_kept_out_of_turn :
    (sharedFile noon).Init .boot ∧
      ∃ s, (sharedFile noon).run .boot outOfTurn = some s ∧ ¬ s.Kept := by
  refine ⟨Shared.init_boot, ?_⟩
  have hrun : ((sharedFile noon).run .boot outOfTurn).map (fun s ↦
      s.due.filter (· ∉ notices (s.file.getD []))) =
        some [Sent.notice noon ⟨1, 0, startupRequest⟩] := by
    decide +kernel
  obtain ⟨s, hs, hlost⟩ := Option.map_eq_some_iff.1 hrun
  refine ⟨s, hs, fun hkept ↦ ?_⟩
  have hmem := List.mem_singleton_self (Sent.notice noon ⟨1, 0, startupRequest⟩)
  rw [← hlost, List.mem_filter] at hmem
  exact of_decide_eq_true hmem.2 (hkept.contained _ hmem.1)

end

end JuliusOS.Push
