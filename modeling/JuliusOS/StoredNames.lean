import JuliusOS.Ipc.Topics
import JuliusOS.Ipc.Unsubscribe
import JuliusOS.Permissions.Honest
import JuliusOS.Push.Window

/-!
# Stored names

The permissions, push and IPC daemons keep names in static arrays of characters, and no operation
writes the NUL at their end. A name is copied with `strncpy` into all of its field but the last
byte, and a `memmove` moves whole entries, so the byte that was zero when the program started stays
so in every slot, in use or not (`stored_names_stop`).
-/

open CString

namespace JuliusOS

/-- The last byte of a field is NUL, so a string that is read from it stops inside it. -/
structure Stops {n : ℕ} (field : Buf n) : Prop where
  last : LastZero field.bytes
  length_lt : (cstr field.bytes).length < n

theorem stops_of_lastZero {n : ℕ} {field : Buf n} (h : LastZero field.bytes) : Stops field where
  last := h
  length_lt := by
    have hlt := length_cstr_lt_of_mem h.mem_zero
    rwa [field.length_bytes] at hlt

/-- The texts of the notifications in every slot. -/
theorem Push.textsTerminated_of_reachable {st : Push.State} (h : Push.daemon.Reachable st) :
    st.notifs.AllSlots Push.TextsTerminated := by
  obtain ⟨_, reqs, ⟨now, rfl⟩, hrun⟩ := h
  exact (Push.window_of_run hrun).1.terminated

/-- The names of the topics in every slot. -/
theorem Ipc.topicsTerminated_of_reachable {s : Ipc.System} (h : Ipc.system.Reachable s) :
    s.broker.topics.AllSlots Ipc.IPCTopic.Terminated := by
  refine h.induction (fun s hinit ↦ ?_) fun s e s' hterm hstep ↦ (Ipc.step_asks hterm hstep).1
  have hzero : LastZero (Buf.zero 64).bytes := lastZero_replicate (by decide)
  rw [hinit.1]
  exact PackedTable.allSlots_empty hzero

/-- **Every stored name stops** inside its own field, in every slot and every reachable state of the
three daemons. -/
theorem stored_names_stop :
    (∀ perms, Permissions.daemon.Reachable perms → ∀ p ∈ perms.slots, Stops p.app) ∧
      (∀ st, Push.daemon.Reachable st → ∀ n ∈ st.notifs.slots,
        Stops n.app ∧ Stops n.title ∧ Stops n.body ∧ Stops n.action) ∧
        ∀ s, Ipc.system.Reachable s → (∀ t ∈ s.broker.topics.slots, Stops t.topic) ∧
          ∀ c ∈ s.broker.clients.slots, ∀ sub ∈ c.subscriptions.slots, Stops sub := by
  refine ⟨fun perms h p hp ↦ ?_, fun st h n hn ↦ ?_,
    fun s h ↦ ⟨fun t ht ↦ ?_, fun c hc sub hsub ↦ ?_⟩⟩
  · exact stops_of_lastZero (Permissions.terminated_of_reachable h p hp)
  · have hterm := Push.textsTerminated_of_reachable h n hn
    exact ⟨stops_of_lastZero hterm.app, stops_of_lastZero hterm.title,
      stops_of_lastZero hterm.body, stops_of_lastZero hterm.action⟩
  · exact stops_of_lastZero (Ipc.topicsTerminated_of_reachable h t ht)
  · exact stops_of_lastZero ((Ipc.settled_of_reachable h).terminated c hc sub hsub)

/-- The names that `load_defaults` stores. -/
theorem stored_names_stop_loadDefaults :
    (Permissions.loadDefaults 0).slots.length = 512 ∧
      ((Permissions.loadDefaults 0).slots.all fun p ↦ (cstr p.app.bytes).length < 64) = true := by
  have hreach : Permissions.daemon.Reachable (Permissions.loadDefaults 0) :=
    ⟨_, [], ⟨0, rfl⟩, rfl⟩
  refine ⟨(Permissions.loadDefaults 0).length_slots, List.all_eq_true.2 fun p hp ↦ ?_⟩
  exact decide_eq_true (stored_names_stop.1 _ hreach p hp).length_lt

end JuliusOS
