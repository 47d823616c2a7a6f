import JuliusOS.Push.Daemon

/-!
# The window of notifications

The table is what is left of the notifications sent since the last clear when only the last 256 are
kept. Its slots are filled in place over whatever they held, which shows in nothing: every field is
assigned, and the texts are read up to their first NUL.

* `Window.step`: a request keeps the table in step with what was sent;
* `notification_window`: the table after every sequence of requests.
-/

open CString StructLayout
open Bytes (wrap32)

namespace JuliusOS.Push

variable {st : State} {req : PushRequest} {now : ℤ}

/-! ### What was sent -/

/-- What a notification says. -/
structure Contents where
  /-- The application's name. -/
  app : Bytes
  /-- The title. -/
  title : Bytes
  /-- The body. -/
  body : Bytes
  /-- The action. -/
  action : Bytes
  /-- `badge`. -/
  badge : ℤ
  /-- `sound`. -/
  sound : ℤ
  /-- `priority`. -/
  priority : ℤ
  /-- When it was sent. -/
  timestamp : ℤ
  /-- `delivered`. -/
  delivered : ℤ
  /-- `read`. -/
  read : ℤ
deriving DecidableEq

/-- The contents of a slot. -/
def PushNotification.contents (n : PushNotification) : Contents :=
  ⟨cstr n.app.bytes, cstr n.title.bytes, cstr n.body.bytes, cstr n.action.bytes, n.badge, n.sound,
    n.priority, n.timestamp, n.delivered, n.read⟩

/-- A request to send a notification, the time it was handled at, and how many there were before. -/
structure Sent where
  /-- The number of earlier notifications. -/
  number : ℕ
  /-- The time. -/
  time : ℤ
  /-- The request. -/
  req : PushRequest

/-- The id that is due to it. -/
def Sent.id (n : Sent) : ℕ := wrap32 (1 + n.number)

/-- The contents that are due to it: each text cut at the first NUL and to its field. -/
def Sent.contents (n : Sent) : Contents where
  app := (cstr (n.req.field 1)).take 63
  title := (cstr (n.req.field 2)).take 127
  body := (cstr (n.req.field 3)).take 255
  action := (cstr (n.req.field 4)).take 63
  badge := n.req.badge
  sound := n.req.sound
  priority := n.req.priority
  timestamp := n.time
  delivered := 1
  read := 0

/-- How many notifications were sent, and those since the last clear. -/
structure Log where
  /-- How many were sent. -/
  total : ℕ
  /-- Those since the last clear, in order. -/
  recent : List Sent

/-- What a request adds to the log. -/
def Log.handle (log : Log) (l : ℤ × PushRequest) : Log :=
  match l.2.op with
  | pushOpSend => ⟨log.total + 1, log.recent ++ [⟨log.total, l.1, l.2⟩]⟩
  | pushOpClear => ⟨log.total, []⟩
  | _ => log

/-- The log when the daemon has started. -/
def Log.start (now : ℤ) : Log := Log.handle ⟨0, []⟩ (now, startupRequest)

/-- The log after some requests. -/
def Log.after (now : ℤ) (reqs : List (ℤ × PushRequest)) : Log := reqs.foldl Log.handle (.start now)

/-- The recent notifications are the last of all. -/
structure Log.Ordered (log : Log) : Prop where
  /-- There are no more of them. -/
  le : log.recent.length ≤ log.total
  /-- They are numbered one after the other. -/
  numbers : log.recent.map Sent.number =
    List.range' (log.total - log.recent.length) log.recent.length

theorem Log.Ordered.handle {log : Log} (h : log.Ordered) (l : ℤ × PushRequest) :
    (log.handle l).Ordered := by
  rw [Log.handle]
  split
  · refine ⟨by simp [h.le], ?_⟩
    have hle := h.le
    rw [List.map_append, h.numbers, List.length_append, List.length_singleton,
      Nat.add_sub_add_right, List.range'_concat, Nat.one_mul, Nat.sub_add_cancel hle]
    rfl
  · exact ⟨Nat.zero_le _, rfl⟩
  · exact h

/-! ### Texts -/

/-- The last bytes of a slot's texts are NUL. -/
structure TextsTerminated (n : PushNotification) : Prop where
  /-- In `app`. -/
  app : LastZero n.app.bytes
  /-- In `title`. -/
  title : LastZero n.title.bytes
  /-- In `body`. -/
  body : LastZero n.body.bytes
  /-- In `action`. -/
  action : LastZero n.action.bytes

theorem textsTerminated_zero : TextsTerminated .zero :=
  ⟨lastZero_replicate (by decide), lastZero_replicate (by decide), lastZero_replicate (by decide),
    lastZero_replicate (by decide)⟩

theorem TextsTerminated.setNotif {n : PushNotification} (h : TextsTerminated n) (st : State)
    (now : ℤ) (req : PushRequest) : TextsTerminated (setNotif st now req n) :=
  ⟨lastZero_strncpy n.app.length_bytes h.app, lastZero_strncpy n.title.length_bytes h.title,
    lastZero_strncpy n.body.length_bytes h.body, lastZero_strncpy n.action.length_bytes h.action⟩

/-- What is stored of a request's text. -/
theorem cstr_strncpy_memFrom {n i : ℕ} {dst : Buf (n + 1)} (hdst : LastZero dst.bytes)
    (hlen : (req.field i).length = n + 1) :
    cstr (CString.strncpy dst.bytes (req.memFrom i) n) = (cstr (req.field i)).take n := by
  obtain ⟨rest, hrest⟩ := req.memFrom_eq i
  rw [cstr_strncpy dst.length_bytes hdst, hrest, take_cstr_append (by omega)]

/-- **A slot that is filled has the contents of the request.** -/
theorem contents_setNotif {n : PushNotification} (h : TextsTerminated n) (k : ℕ) :
    (setNotif st now req n).contents = Sent.contents ⟨k, now, req⟩ := by
  have happ : (req.field 1).length = 64 := req.length_field (by decide)
  have htitle : (req.field 2).length = 128 := req.length_field (by decide)
  have hbody : (req.field 3).length = 256 := req.length_field (by decide)
  have haction : (req.field 4).length = 64 := req.length_field (by decide)
  simp only [PushNotification.contents, setNotif, Buf.strncpy, Sent.contents, PushRequest.app,
    PushRequest.title, PushRequest.body, PushRequest.action, cstr_strncpy_memFrom h.app happ,
    cstr_strncpy_memFrom h.title htitle, cstr_strncpy_memFrom h.body hbody,
    cstr_strncpy_memFrom h.action haction]

/-! ### The window -/

/-- The table holds the last 256 of the recent notifications, with their ids. -/
structure Window (log : Log) (st : State) : Prop where
  /-- The texts are terminated in every slot. -/
  terminated : st.notifs.AllSlots TextsTerminated
  /-- The next id. -/
  nextId : st.nextId = wrap32 (1 + log.total)
  /-- The ids and the contents. -/
  live : st.notifs.live.map (fun n ↦ (n.id, n.contents)) =
    (log.recent.map fun n ↦ (n.id, n.contents)).rtake maxNotifs

/-- **A notification sent** comes last. -/
theorem Window.pushSend {log : Log} (h : Window log st) (now : ℤ) (req : PushRequest) :
    Window ⟨log.total + 1, log.recent ++ [⟨log.total, now, req⟩]⟩ (pushSend now st req) where
  terminated := h.terminated.slide maxNotifs_pos fun n hn ↦ hn.setNotif st now req
  nextId := by
    rw [Push.pushSend, h.nextId, Bytes.wrap32_add_wrap32, Nat.add_assoc]
  live := by
    rw [List.map_append, List.map_singleton]
    refine st.notifs.map_live_slide maxNotifs_pos h.live fun hroom ↦ ?_
    have hslot := (h.terminated.makeRoom maxNotifs_pos).nextSlot hroom
    exact Prod.ext h.nextId (contents_setNotif hslot log.total)

/-- **A request keeps the table in step** with what was sent. -/
theorem Window.step {log : Log} (h : Window log st) (l : ℤ × PushRequest) :
    Window (log.handle l) (handlePushRequest l.1 st l.2) := by
  rw [Log.handle]
  split
  next hop =>
    rw [handlePushRequest, hop]
    exact h.pushSend l.1 l.2
  next hop =>
    rw [handlePushRequest, hop]
    refine ⟨h.terminated, h.nextId, ?_⟩
    show st.notifs.clear.live.map _ = _
    rw [PackedTable.live_clear]
    exact (List.rtake_nil maxNotifs).symm
  next =>
    rw [handlePushRequest]
    split
    · contradiction
    · contradiction
    · exact h

theorem window_start (now : ℤ) : Window (.start now) (pushStartupNotifs now) := by
  have hinit : Window ⟨0, []⟩ .init :=
    ⟨PackedTable.allSlots_empty textsTerminated_zero, rfl, rfl⟩
  exact hinit.pushSend now startupRequest

theorem ordered_start (now : ℤ) : (Log.start now).Ordered := ⟨le_rfl, rfl⟩

/-- **Every sequence of requests** keeps the table in step. -/
theorem window_of_run {t₀ : ℤ} {reqs : List (ℤ × PushRequest)}
    (hrun : daemon.run (pushStartupNotifs t₀) reqs = some st) :
    Window (Log.after t₀ reqs) st ∧ (Log.after t₀ reqs).Ordered := by
  refine Machine.invariant_of_history
    (I := fun hist st ↦ Window (Log.after t₀ hist) st ∧ (Log.after t₀ hist).Ordered)
    (fun hist st l st' ih hstep ↦ ?_) ⟨window_start t₀, ordered_start t₀⟩ hrun
  obtain rfl := Option.some.inj hstep
  rw [Log.after, List.foldl_append]
  exact ⟨ih.1.step l, ih.2.handle l⟩

/-! ### The ids -/

/-- The ids of the window are consecutive. -/
theorem ids_eq {log : Log} (hlog : log.Ordered) (h : Window log st) :
    ∃ first, st.notifs.live.map PushNotification.id =
      (List.range st.notifs.count).map fun i ↦ wrap32 (first + i) := by
  have hids : st.notifs.live.map PushNotification.id =
      ((log.recent.map Sent.number).rtake maxNotifs).map fun k ↦ wrap32 (1 + k) := by
    have hfst := congrArg (List.map Prod.fst) h.live
    rw [List.map_map, List.rtake, ← List.map_drop, List.map_map, List.length_map] at hfst
    rw [List.rtake, ← List.map_drop, List.map_map, List.length_map]
    exact hfst
  have hcount : st.notifs.count = (log.recent.rtake maxNotifs).length := by
    have hlen := congrArg List.length h.live
    simpa [List.rtake] using hlen
  rw [List.rtake, List.length_drop] at hcount
  rw [hids, hlog.numbers, List.rtake, List.length_range', List.drop_range', hcount,
    List.range'_eq_map_range, List.map_map]
  refine ⟨1 + (log.total - log.recent.length + (log.recent.length - maxNotifs)),
    List.map_congr_left fun i _ ↦ ?_⟩
  rw [Function.comp_apply, Nat.mul_one, Nat.add_assoc 1]

/-- Consecutive ids are distinct as long as they are fewer than `2 ^ 32`. -/
theorem nodup_ids {first n : ℕ} (hn : n ≤ 2 ^ 32) :
    ((List.range n).map fun i ↦ wrap32 (first + i)).Nodup := by
  refine List.Nodup.map_on (fun i hi j hj h ↦ ?_) List.nodup_range
  rw [List.mem_range] at hi hj
  have hmod : (first + i) % 2 ^ 32 = (first + j) % 2 ^ 32 := h
  omega

/-- **The window of notifications.** After every sequence of requests the table is the last 256 of
the notifications sent since the last clear, in order and with the fields of their requests, and
their ids are consecutive modulo `2 ^ 32` and distinct. -/
theorem notification_window (t₀ : ℤ) (reqs : List (ℤ × PushRequest)) :
    ∃ st, daemon.run (pushStartupNotifs t₀) reqs = some st ∧
      st.notifs.count ≤ maxNotifs ∧
      st.notifs.count = min (Log.after t₀ reqs).recent.length maxNotifs ∧
      st.notifs.live.map PushNotification.contents =
        ((Log.after t₀ reqs).recent.map Sent.contents).rtake st.notifs.count ∧
      (∃ first, st.notifs.live.map PushNotification.id =
        (List.range st.notifs.count).map fun i ↦ wrap32 (first + i)) ∧
      (st.notifs.live.map PushNotification.id).Nodup := by
  obtain ⟨st, hrun⟩ := daemon.exists_run_of_total (fun _ _ ↦ ⟨_, rfl⟩) (pushStartupNotifs t₀) reqs
  obtain ⟨hwin, hlog⟩ := window_of_run hrun
  have hle := st.notifs.count_le
  -- the count is the length of the window
  have hcount : st.notifs.count = min (Log.after t₀ reqs).recent.length maxNotifs := by
    have hlen := congrArg List.length hwin.live
    rw [List.length_map, PackedTable.length_live, List.rtake, List.length_drop,
      List.length_map] at hlen
    omega
  have hids := ids_eq hlog hwin
  refine ⟨st, hrun, hle, hcount, ?_, hids, ?_⟩
  · have hsnd := congrArg (List.map Prod.snd) hwin.live
    rw [List.map_map, List.rtake, ← List.map_drop, List.map_map, List.length_map] at hsnd
    rw [List.rtake, ← List.map_drop, List.length_map, hcount, ← Nat.sub_eq_sub_min]
    exact hsnd
  · obtain ⟨first, hfirst⟩ := hids
    rw [hfirst]
    exact nodup_ids (hle.trans (by decide))

end JuliusOS.Push
