import JuliusOS.Keychain.Status
import JuliusOS.Push.Window

/-!
# The buffers of the listings

`KC_LIST` and `PUSH_LIST` answer with a text of 4096 bytes, a line for each entry, printed by the
loop of `Foundations/Listing.lean`; the tables have room for more lines than the text. The two loops
stay in their buffers exactly as long as the lines of all entries do (`list_buffers_iff`). This is a
condition on the tables only, and no operation on a table checks it.

In a table that a daemon can reach every name and every text has its NUL, so a line is what the
formats `"%s/%s\n"` and `"%s: %s\n"` print (`namesTerminated_of_reachable`, `window_of_run`).
-/

open CString

namespace JuliusOS

/-! ### The keychain -/

namespace Keychain

/-- A `KC_LIST` request is answered safely. -/
def ListSafe (A : Gcm) (env : Env) (st : Store) (req : KeychainRequest) : Prop :=
  Listing.Safe (st.items.live.map KeychainItem.line) fun buf ↦
    ∃ resp, handleKcRequest A env st req = some (st, resp) ∧ resp.items = buf

variable {A : Gcm} {env : Env} {st : Store} {req : KeychainRequest}

/-- **The listing of the keychain** is safe if and only if the lines are no longer than the
buffer. -/
theorem listSafe_iff (hop : req.op = kcList) :
    ListSafe A env st req ↔ (listing st.items.live).length ≤ 4096 := by
  have hlist : (st.items.live.map KeychainItem.line).flatten = listing st.items.live :=
    List.flatMap_def.symm
  rw [← hlist]
  refine Listing.safe_iff (by decide) (hlist ▸ zero_notMem_listing _) fun buf ↦ ?_
  rw [handleKcRequest_list hop]
  constructor
  · rintro ⟨resp, hresp, rfl⟩
    obtain ⟨⟨pos, buf⟩, hprint, heq⟩ := Option.map_eq_some_iff.1 hresp
    obtain ⟨-, rfl⟩ := Prod.ext_iff.1 heq
    exact ⟨pos, hprint⟩
  · rintro ⟨pos, hprint⟩
    exact ⟨{ KeychainResponse.zero with items := buf }, by rw [hprint]; rfl, rfl⟩

end Keychain

/-! ### The notifications -/

namespace Push

@[match_pattern] abbrev pushOpList : ℕ := 3

/-- The loop of the `PUSH_LIST` case. Once `pos` has passed the end of the buffer the size argument
wraps around and the write goes behind the buffer. -/
def pushListLoop : List PushNotification → ℕ → Buf 4096 → Option (Buf 4096)
  | [], _, buf => some buf
  | n :: ns, pos, buf =>
    if pos ≤ 4096 then
      let text := cstr n.app.bytes ++ Bytes.ofAscii ": " ++ cstr n.title.bytes ++ [10]
      pushListLoop ns (pos + text.length) (buf.snprintf pos text)
    else none

/-- What `handle_push_client` answers to a `PUSH_LIST` request. -/
def pushList (st : State) : Option (Buf 4096) := pushListLoop st.notifs.live 0 (.zero 4096)

/-- The line of a notification in a listing. -/
def Contents.line (c : Contents) : Bytes := c.app ++ Bytes.ofAscii ": " ++ c.title ++ [10]

/-- The lines of all notifications. -/
def listing (ns : List PushNotification) : Bytes := ns.flatMap fun n ↦ n.contents.line

/-- The loop of `PUSH_LIST` is the loop over the notifications' lines. -/
theorem pushListLoop_eq_print (ns : List PushNotification) (pos : ℕ) (buf : Buf 4096) :
    pushListLoop ns pos buf =
      (Listing.print (ns.map fun n ↦ n.contents.line) pos buf).map Prod.snd := by
  induction ns generalizing pos buf with
  | nil => rfl
  | cons n ns ih =>
    rw [pushListLoop, List.map_cons, Listing.print]
    split
    next => exact ih _ _
    next => rfl

/-- A `PUSH_LIST` request is answered safely. -/
def ListSafe (st : State) : Prop :=
  Listing.Safe (st.notifs.live.map fun n ↦ n.contents.line) fun buf ↦ pushList st = some buf

variable {st : State}

/-- The lines of a listing are text. -/
theorem zero_notMem_listing (ns : List PushNotification) : (0 : UInt8) ∉ listing ns := by
  intro h
  obtain ⟨n, -, hn⟩ := List.mem_flatMap.1 h
  simp only [Contents.line, PushNotification.contents, List.mem_append, List.mem_singleton] at hn
  rcases hn with ((happ | hcolon) | htitle) | hnewline
  · exact zero_notMem_cstr _ happ
  · exact absurd hcolon (by decide)
  · exact zero_notMem_cstr _ htitle
  · exact absurd hnewline (by decide)

/-- **The listing of the notifications** is safe if and only if the lines are no longer than the
buffer. -/
theorem listSafe_iff : ListSafe st ↔ (listing st.notifs.live).length ≤ 4096 := by
  have hlist : (st.notifs.live.map fun n ↦ n.contents.line).flatten = listing st.notifs.live :=
    List.flatMap_def.symm
  rw [← hlist]
  refine Listing.safe_iff (by decide) (hlist ▸ zero_notMem_listing _) fun buf ↦ ?_
  rw [pushList, pushListLoop_eq_print, Option.map_eq_some_iff]
  constructor
  · rintro ⟨⟨pos, buf⟩, hprint, rfl⟩
    exact ⟨pos, hprint⟩
  · rintro ⟨pos, hprint⟩
    exact ⟨(pos, buf), hprint, rfl⟩

/-- The lines are those of the window. -/
theorem lines_of_run {t₀ : ℤ} {reqs : List (ℤ × PushRequest)}
    (hrun : daemon.run (pushStartupNotifs t₀) reqs = some st) :
    st.notifs.live.map (fun n ↦ n.contents.line) =
      (((Log.after t₀ reqs).recent.map Sent.contents).rtake maxNotifs).map Contents.line := by
  have hlive := congrArg (List.map Prod.snd) (window_of_run hrun).1.live
  rw [List.map_map, List.rtake, ← List.map_drop, List.map_map, List.length_map] at hlive
  rw [List.rtake, ← List.map_drop, List.length_map]
  exact List.map_map.symm.trans (congrArg (List.map Contents.line) hlive)

end Push

/-! ### Both -/

/-- **The listings stay in their buffers** exactly as long as the lines of all entries do: in every
state of the keychain and of the push daemon, reachable or not. -/
theorem list_buffers_iff (A : Gcm) (env : Keychain.Env) (st : Keychain.Store)
    (req : Keychain.KeychainRequest) (hop : req.op = Keychain.kcList) (notifs : Push.State) :
    Keychain.ListSafe A env st req ∧ Push.ListSafe notifs ↔
      (Keychain.listing st.items.live).length ≤ 4096 ∧
        (Push.listing notifs.notifs.live).length ≤ 4096 :=
  and_congr (Keychain.listSafe_iff hop) Push.listSafe_iff

/-- A `KC_LIST` request. -/
def listRequest : Keychain.KeychainRequest where
  bytes := Bytes.le 4 Keychain.kcList ++ Bytes.ljust 772 0 []
  length_bytes := by decide +kernel

/-- They do where both daemons have just started. -/
theorem list_buffers_started :
    Keychain.ListSafe Gcm.transparent ⟨.zero _, 0, 0, true, true⟩ (Keychain.Store.init [])
        listRequest ∧
      Push.ListSafe (Push.pushStartupNotifs 0) := by
  have hstart : Push.daemon.run (Push.pushStartupNotifs 0) [] = some (Push.pushStartupNotifs 0) :=
    rfl
  refine (list_buffers_iff _ _ _ _ (by decide +kernel) _).2 ⟨by decide, ?_⟩
  rw [Push.listing, List.flatMap_def, Push.lines_of_run hstart]
  decide +kernel

/-- A notification with the longest texts that its fields have room for. -/
def longRequest : Push.PushRequest where
  bytes := [Bytes.le 4 Push.pushOpSend, Bytes.ljust 64 0 (List.replicate 63 97),
    Bytes.ljust 128 0 (List.replicate 127 98), Bytes.ljust 336 0 []].flatten
  length_bytes := by decide +kernel

/-- After 23 of them the listing goes behind its buffer. -/
theorem list_buffer_left :
    ∃ st, Push.daemon.run (Push.pushStartupNotifs 0) (List.replicate 23 (0, longRequest)) =
        some st ∧ ¬ Push.ListSafe st ∧ Push.pushList st = none := by
  obtain ⟨st, hrun⟩ := Push.daemon.exists_run_of_total (fun _ _ ↦ ⟨_, rfl⟩)
    (Push.pushStartupNotifs 0) (List.replicate 23 (0, longRequest))
  refine ⟨st, hrun, ?_, ?_⟩
  · rw [Push.listSafe_iff, Push.listing, List.flatMap_def, Push.lines_of_run hrun]
    decide +kernel
  · rw [Push.pushList, Push.pushListLoop_eq_print, Push.lines_of_run hrun, Option.map_eq_none_iff]
    decide +kernel

end JuliusOS
