import JuliusOS.Push.Window

/-!
# The id that a client is told

`push_send` gives a notification its id under the lock, writes the file, and then reads the id to
return from the table's slot again, without the lock. In between, another thread may have moved the
slots of a full table down, or cleared the table and filled the slot anew, and the client is told
the id of some other notification.

* `Answered.step`: as long as no notification is stored over one whose client has no answer yet, the
  slots of the outstanding answers keep their ids;
* `push_ids`: then every client is told its own id, and ids repeat only after `2 ^ 32` of them.
-/

open Bytes (wrap32)

namespace JuliusOS.Push

/-! ### The client threads -/

/-- A call of `push_send` that has not returned. -/
structure Call where
  /-- The position of its slot, `n - notifs`. -/
  slot : ℕ
  /-- How many notifications were stored before (ghost). -/
  number : ℕ
  /-- The id that it assigned to `n->id` (ghost). -/
  assigned : ℕ
deriving DecidableEq

/-- Where a client's thread is. -/
inductive Pc
  /-- About to read a request. -/
  | idle
  /-- In `push_send`, before `write_notif_file`. -/
  | stored (call : Call)
  /-- In `push_send`, before its return. -/
  | filed (call : Call)
  /-- After the critical section of `PUSH_CLEAR`, before `write_notif_file`. -/
  | cleared
deriving DecidableEq

/-- The call that has not returned. -/
def Pc.call? : Pc → Option Call
  | .stored call | .filed call => some call
  | _ => none

/-- What a client was told. -/
structure Answer where
  /-- How many notifications were stored before its own. -/
  number : ℕ
  /-- The id assigned to its own. -/
  assigned : ℕ
  /-- The id it was told. -/
  id : ℕ
deriving DecidableEq

/-- The table, the threads of the clients and what they were told. -/
structure Threads where
  /-- The static variables. -/
  table : State
  /-- Where the clients' threads are. -/
  pcs : ℕ → Pc
  /-- The ids that were written to clients. -/
  answers : List Answer

/-- What can happen next. -/
inductive Event
  /-- The thread of client `c` has read a request and is through its critical section. -/
  | request (c : ℕ) (now : ℤ) (req : PushRequest)
  /-- It is through `write_notif_file`. -/
  | file (c : ℕ)
  /-- It returns from `push_send`, and the client is told the id. -/
  | reply (c : ℕ)

namespace Threads

variable (s : Threads)

/-- The thread of a client goes on. -/
def goto (c : ℕ) (pc : Pc) : ℕ → Pc := Function.update s.pcs c pc

/-- The critical section of `push_send`. -/
def store (c : ℕ) (now : ℤ) (req : PushRequest) : Threads where
  table := pushSend now s.table req
  pcs := s.goto c (.stored
    ⟨(s.table.notifs.makeRoom maxNotifs_pos).count, s.table.total, s.table.nextId⟩)
  answers := s.answers

/-- `n->id`. -/
def idAt (slot : ℕ) : ℕ := (s.table.notifs.slots[slot]?.map PushNotification.id).getD 0

end Threads

/-- The daemon with its threads as a machine. -/
def threads : Machine Threads Event where
  Init s := ∃ now, s.table = pushStartupNotifs now ∧ (∀ c, s.pcs c = .idle) ∧ s.answers = []
  step s
    | .request c now req =>
      match s.pcs c with
      | .idle =>
        match req.op with
        | pushOpSend => some (s.store c now req)
        | pushOpClear => some { s with table := s.table.clear, pcs := s.goto c .cleared }
        | _ => some s
      | _ => none
    | .file c =>
      match s.pcs c with
      | .stored call => some { s with pcs := s.goto c (.filed call) }
      | .cleared => some { s with pcs := s.goto c .idle }
      | _ => none
    | .reply c =>
      match s.pcs c with
      | .filed call =>
        some { s with
          pcs := s.goto c .idle
          answers := s.answers ++ [⟨call.number, call.assigned, s.idAt call.slot⟩] }
      | _ => none

/-- No notification is stored over one whose client has no answer yet: while there is such a client,
the table is not full and its next slot is not the client's. -/
def NotOver (s : Threads) (e : Event) : Prop :=
  ∀ c now req, e = .request c now req → req.op = pushOpSend →
    ∀ c' call, (s.pcs c').call? = some call →
      s.table.notifs.count < maxNotifs ∧ s.table.notifs.count ≠ call.slot

/-! ### The invariant -/

variable {s s' s₀ : Threads} {c : ℕ} {e : Event} {es : List Event} {call : Call}

/-- The id due to a notification. -/
def idOf (number : ℕ) : ℕ := wrap32 (1 + number)

/-- The outstanding and the given answers are in order. -/
structure Answered (s : Threads) : Prop where
  /-- The counter. -/
  nextId : s.table.nextId = idOf s.table.total
  /-- The slot of an outstanding answer still has the id that is due. -/
  slot : ∀ c call, (s.pcs c).call? = some call → call.assigned = idOf call.number ∧
    s.idAt call.slot = call.assigned
  /-- The answers given are those that were due. -/
  answers : ∀ a ∈ s.answers, a.assigned = idOf a.number ∧ a.id = a.assigned

/-- Every notification is answered for once. -/
structure Once (s : Threads) : Prop where
  /-- The outstanding answers are for notifications that were stored. -/
  lt : ∀ c call, (s.pcs c).call? = some call → call.number < s.table.total
  /-- They are for different ones. -/
  inj : ∀ c c' call call', (s.pcs c).call? = some call → (s.pcs c').call? = some call' →
    call.number = call'.number → c = c'
  /-- So are those given. -/
  nodup : (s.answers.map Answer.number).Nodup
  /-- The answers given are for notifications that were stored. -/
  lt_of_mem : ∀ a ∈ s.answers, a.number < s.table.total
  /-- None of them is outstanding. -/
  fresh : ∀ c call, (s.pcs c).call? = some call → call.number ∉ s.answers.map Answer.number

theorem call?_goto (s : Threads) (c c' : ℕ) (pc : Pc) :
    (s.goto c pc c').call? = if c' = c then pc.call? else (s.pcs c').call? := by
  rw [Threads.goto, Function.update_apply]
  split <;> rfl

/-- **What a step does**: it stores a notification, answers for one, or changes neither the slots
nor the outstanding answers. -/
theorem step_cases (hstep : threads.step s e = some s') :
    (∃ c now req, e = .request c now req ∧ req.op = pushOpSend ∧ s.pcs c = .idle ∧
      s' = s.store c now req) ∨
    (∃ c call, s.pcs c = .filed call ∧ s' = { s with
      pcs := s.goto c .idle
      answers := s.answers ++ [⟨call.number, call.assigned, s.idAt call.slot⟩] }) ∨
    (s'.table.nextId = s.table.nextId ∧ (∀ i, s'.idAt i = s.idAt i) ∧
      s'.table.total = s.table.total ∧ s'.answers = s.answers ∧
      ∀ c, (s'.pcs c).call? = (s.pcs c).call?) := by
  -- a thread that goes on without a change of its outstanding answer
  have hkeep : ∀ {c : ℕ} {pc : Pc}, pc.call? = (s.pcs c).call? → ∀ c',
      (s.goto c pc c').call? = (s.pcs c').call? := by
    intro c pc hpc c'
    rw [call?_goto]
    split
    next h => rw [h, hpc]
    next => rfl
  cases e with
  | request c now req =>
    simp only [threads] at hstep
    split at hstep
    next hpc =>
      split at hstep
      -- a `PUSH_SEND`, a `PUSH_CLEAR`, or an op that no case handles
      next hop => exact Or.inl ⟨c, now, req, rfl, hop, hpc, (Option.some.inj hstep).symm⟩
      next hop =>
        rw [← Option.some.inj hstep]
        refine Or.inr (Or.inr ⟨rfl, fun _ ↦ rfl, rfl, rfl, hkeep ?_⟩)
        rw [hpc]
        rfl
      next =>
        rw [← Option.some.inj hstep]
        exact Or.inr (Or.inr ⟨rfl, fun _ ↦ rfl, rfl, rfl, fun _ ↦ rfl⟩)
    next => cases hstep
  | file c =>
    simp only [threads] at hstep
    split at hstep
    next call hpc =>
      rw [← Option.some.inj hstep]
      refine Or.inr (Or.inr ⟨rfl, fun _ ↦ rfl, rfl, rfl, hkeep ?_⟩)
      rw [hpc]
      rfl
    next hpc =>
      rw [← Option.some.inj hstep]
      refine Or.inr (Or.inr ⟨rfl, fun _ ↦ rfl, rfl, rfl, hkeep ?_⟩)
      rw [hpc]
      rfl
    next => cases hstep
  | reply c =>
    simp only [threads] at hstep
    split at hstep
    next call hpc => exact Or.inr (Or.inl ⟨c, call, hpc, (Option.some.inj hstep).symm⟩)
    next => cases hstep

/-! ### Every notification is answered for once -/

/-- A call that is outstanding after a notification was stored is that for it, or an earlier one. -/
theorem call?_store {c' : ℕ} {now : ℤ} {req : PushRequest}
    (h : ((s.store c now req).pcs c').call? = some call) :
    c' = c ∧ call = ⟨(s.table.notifs.makeRoom maxNotifs_pos).count, s.table.total, s.table.nextId⟩ ∨
      c' ≠ c ∧ (s.pcs c').call? = some call := by
  have hgoto := (call?_goto s c c' _).symm.trans h
  split at hgoto
  next heq => exact Or.inl ⟨heq, (Option.some.inj hgoto).symm⟩
  next hne => exact Or.inr ⟨hne, hgoto⟩

/-- After an answer, one of the earlier calls is. -/
theorem call?_goto_idle {c' : ℕ} (h : (s.goto c .idle c').call? = some call) :
    c' ≠ c ∧ (s.pcs c').call? = some call := by
  rw [call?_goto] at h
  split at h
  next => cases h
  next hne => exact ⟨hne, h⟩

theorem Once.store (h : Once s) (c : ℕ) (now : ℤ) (req : PushRequest) :
    Once (s.store c now req) where
  lt := by
    intro c' call hcall
    rcases call?_store hcall with ⟨-, rfl⟩ | ⟨-, hold⟩
    · exact Nat.lt_succ_self _
    · exact Nat.lt_succ_of_lt (h.lt c' call hold)
  inj := by
    intro c₁ c₂ call₁ call₂ h₁ h₂ hnum
    rcases call?_store h₁ with ⟨rfl, rfl⟩ | ⟨-, hold₁⟩
    · rcases call?_store h₂ with ⟨rfl, -⟩ | ⟨-, hold₂⟩
      · rfl
      · exact absurd hnum (h.lt _ _ hold₂).ne'
    · rcases call?_store h₂ with ⟨rfl, rfl⟩ | ⟨-, hold₂⟩
      · exact absurd hnum (h.lt _ _ hold₁).ne
      · exact h.inj _ _ _ _ hold₁ hold₂ hnum
  nodup := h.nodup
  lt_of_mem := fun a ha ↦ Nat.lt_succ_of_lt (h.lt_of_mem a ha)
  fresh := by
    intro c' call hcall
    rcases call?_store hcall with ⟨-, rfl⟩ | ⟨-, hold⟩
    · intro hmem
      obtain ⟨a, ha, hnum⟩ := List.mem_map.1 hmem
      exact absurd hnum (h.lt_of_mem a ha).ne
    · exact h.fresh c' call hold

theorem Once.reply (h : Once s) (hpc : s.pcs c = .filed call) (id : ℕ) :
    Once { s with
      pcs := s.goto c .idle
      answers := s.answers ++ [⟨call.number, call.assigned, id⟩] } := by
  have hcall : (s.pcs c).call? = some call := by rw [hpc]; rfl
  refine ⟨fun c' call' h' ↦ h.lt c' call' (call?_goto_idle h').2, fun c₁ c₂ call₁ call₂ h₁ h₂ ↦
    h.inj c₁ c₂ call₁ call₂ (call?_goto_idle h₁).2 (call?_goto_idle h₂).2, ?_, fun a ha ↦ ?_,
    fun c' call' h' hmem ↦ ?_⟩
  · rw [List.map_append]
    refine List.Nodup.append h.nodup (List.nodup_singleton _) fun k hk hk' ↦ ?_
    rw [List.mem_singleton.1 hk'] at hk
    exact h.fresh c call hcall hk
  · rcases List.mem_append.1 ha with ha | ha
    · exact h.lt_of_mem a ha
    · rw [List.mem_singleton.1 ha]
      exact h.lt c call hcall
  · obtain ⟨hne, hold⟩ := call?_goto_idle h'
    rw [List.map_append] at hmem
    rcases List.mem_append.1 hmem with hmem | hmem
    · exact h.fresh c' call' hold hmem
    · exact hne (h.inj c' c call' call hold hcall (List.mem_singleton.1 hmem))

/-- **Every step keeps it so.** -/
theorem Once.step (h : Once s) (hstep : threads.step s e = some s') : Once s' := by
  rcases step_cases hstep with ⟨c, now, req, -, -, -, rfl⟩ | ⟨c, call, hpc, rfl⟩ |
    ⟨-, -, htotal, hanswers, hcalls⟩
  · exact h.store c now req
  · exact h.reply hpc _
  · refine ⟨fun c call ↦ ?_, fun c c' call call' ↦ ?_, ?_, ?_, fun c call ↦ ?_⟩
    · rw [hcalls, htotal]
      exact h.lt c call
    · rw [hcalls, hcalls]
      exact h.inj c c' call call'
    · rw [hanswers]
      exact h.nodup
    · rw [hanswers, htotal]
      exact h.lt_of_mem
    · rw [hcalls, hanswers]
      exact h.fresh c call

/-! ### The answers are the clients' own -/

/-- The slot of a notification just stored has the id assigned to it. -/
theorem idAt_store_self (s : Threads) (c : ℕ) (now : ℤ) (req : PushRequest) :
    (s.store c now req).idAt (s.table.notifs.makeRoom maxNotifs_pos).count = s.table.nextId := by
  obtain ⟨n, hn⟩ := s.table.notifs.getElem?_slots_slide_self maxNotifs_pos
    (setNotif s.table now req)
  show ((s.table.notifs.slide maxNotifs_pos _).slots[_]?.map _).getD 0 = _
  rw [hn]
  rfl

/-- With room, the other slots keep their ids. -/
theorem idAt_store_of_ne (hroom : s.table.notifs.count < maxNotifs) {slot : ℕ}
    (hslot : s.table.notifs.count ≠ slot) (c : ℕ) (now : ℤ) (req : PushRequest) :
    (s.store c now req).idAt slot = s.idAt slot := by
  show ((s.table.notifs.slide maxNotifs_pos _).slots[slot]?.map _).getD 0 = _
  rw [s.table.notifs.getElem?_slots_slide_of_ne maxNotifs_pos _ hroom hslot]
  rfl

/-- **A step that stores over no outstanding answer** keeps the answers in order. -/
theorem Answered.step (h : Answered s) (hok : NotOver s e) (hstep : threads.step s e = some s') :
    Answered s' := by
  rcases step_cases hstep with ⟨c, now, req, rfl, hop, -, rfl⟩ | ⟨c, call, hpc, rfl⟩ |
    ⟨hnext, hid, htotal, hanswers, hcalls⟩
  · refine ⟨?_, fun c' call hcall ↦ ?_, h.answers⟩
    · show wrap32 (s.table.nextId + 1) = wrap32 (1 + (s.table.total + 1))
      rw [h.nextId, idOf, Bytes.wrap32_add_wrap32, Nat.add_assoc]
    · rcases call?_store hcall with ⟨-, rfl⟩ | ⟨-, hold⟩
      · exact ⟨h.nextId, idAt_store_self s c now req⟩
      · -- the slot of an earlier call: nothing moves, and another slot is filled
        obtain ⟨hroom, hslot⟩ := hok c now req rfl hop c' call hold
        obtain ⟨hassigned, hidAt⟩ := h.slot c' call hold
        exact ⟨hassigned, (idAt_store_of_ne hroom hslot c now req).trans hidAt⟩
  · refine ⟨h.nextId, fun c' call' hcall ↦ h.slot c' call' (call?_goto_idle hcall).2,
      fun a ha ↦ ?_⟩
    rcases List.mem_append.1 ha with ha | ha
    · exact h.answers a ha
    · rw [List.mem_singleton.1 ha]
      exact h.slot c call (by rw [hpc]; rfl)
  · refine ⟨?_, fun c call ↦ ?_, ?_⟩
    · rw [hnext, htotal, h.nextId]
    · rw [hcalls, hid]
      exact h.slot c call
    · rw [hanswers]
      exact h.answers

theorem once_of_init (h : threads.Init s) : Once s ∧ Answered s := by
  obtain ⟨now, htable, hidle, hanswers⟩ := h
  have hnone : ∀ c call, (s.pcs c).call? ≠ some call := by
    intro c call
    rw [hidle]
    rintro ⟨⟩
  refine ⟨⟨fun c call hc ↦ absurd hc (hnone c call), fun c _ call _ hc ↦ absurd hc (hnone c call),
    ?_, ?_, fun c call hc ↦ absurd hc (hnone c call)⟩,
    ⟨?_, fun c call hc ↦ absurd hc (hnone c call), ?_⟩⟩
  · rw [hanswers]
    exact List.nodup_nil
  · rw [hanswers]
    exact fun a ha ↦ absurd ha List.not_mem_nil
  · rw [htable]
    rfl
  · rw [hanswers]
    exact fun a ha ↦ absurd ha List.not_mem_nil

/-- **When the answers are right.** In every run that stores no notification over one whose client
has no answer yet, every client is told the id assigned to its own notification, and two of them
with fewer than `2 ^ 32` notifications between are told different ids. -/
theorem push_ids (hinit : threads.Init s₀) (hrun : threads.run s₀ es = some s)
    (hok : threads.Guarded NotOver s₀ es) :
    (∀ a ∈ s.answers, a.id = a.assigned) ∧ (s.answers.map Answer.number).Nodup ∧
      ∀ a ∈ s.answers, ∀ b ∈ s.answers, a.number < b.number → b.number < a.number + 2 ^ 32 →
        a.id ≠ b.id := by
  obtain ⟨honce₀, hanswered₀⟩ := once_of_init hinit
  have honce : Once s := Machine.invariant_of_run (fun _ _ _ ↦ Once.step) honce₀ hrun
  have hanswered : Answered s :=
    Machine.invariant_of_guarded (fun _ _ _ ↦ Answered.step) hanswered₀ hok hrun
  refine ⟨fun a ha ↦ (hanswered.answers a ha).2, honce.nodup, fun a ha b hb hlt hnear hid ↦ ?_⟩
  obtain ⟨ha, hida⟩ := hanswered.answers a ha
  obtain ⟨hb, hidb⟩ := hanswered.answers b hb
  -- equal ids mean numbers that are equal modulo `2 ^ 32`
  have hmod : (1 + a.number) % 2 ^ 32 = (1 + b.number) % 2 ^ 32 := by
    rw [hida, ha, hidb, hb] at hid
    exact hid
  omega

/-- The daemon after its start at time 0. -/
def Threads.start : Threads := ⟨pushStartupNotifs 0, fun _ ↦ .idle, []⟩

theorem Threads.init_start : threads.Init .start := ⟨0, rfl, fun _ ↦ rfl, rfl⟩

/-- A single client sends a notification. -/
theorem push_ids_one_client :
    ∃ s, threads.run .start [.request 1 0 startupRequest, .file 1, .reply 1] = some s ∧
      s.answers.length = 1 ∧ ∀ a ∈ s.answers, a.id = a.assigned := by
  have hrun : (threads.run .start [.request 1 0 startupRequest, .file 1, .reply 1]).map
      (fun s ↦ s.answers.length) = some 1 := by decide +kernel
  obtain ⟨s, hs, hlen⟩ := Option.map_eq_some_iff.1 hrun
  refine ⟨s, hs, hlen, (push_ids Threads.init_start hs ?_).1⟩
  refine ⟨fun c now req _ _ c' call hcall ↦ ?_, fun _ _ ↦ ⟨by rintro c now req ⟨⟩, fun _ _ ↦
    ⟨by rintro c now req ⟨⟩, fun _ _ ↦ trivial⟩⟩⟩
  cases hcall

/-- A `PUSH_CLEAR`. -/
def clearRequest : PushRequest where
  bytes := Bytes.le 4 pushOpClear ++ List.replicate 528 0
  length_bytes := by
    rw [List.length_append, Bytes.length_le, List.length_replicate]
    decide

/-- Before the first client has its answer, a second one clears the table and sends, and a third one
sends. -/
def clearedBetween : List Event :=
  [.request 1 0 startupRequest, .request 2 0 clearRequest, .file 2, .request 2 0 startupRequest,
    .request 3 0 startupRequest, .file 1, .reply 1, .file 3, .reply 3]

/-- The first client, whose id is 2, and the third are both told 4. -/
theorem not_push_ids_cleared :
    threads.Init .start ∧ ∃ s, threads.run .start clearedBetween = some s ∧
      s.answers = [⟨1, 2, 4⟩, ⟨3, 4, 4⟩] := by
  have hrun : (threads.run .start clearedBetween).map Threads.answers =
      some [⟨1, 2, 4⟩, ⟨3, 4, 4⟩] := by decide +kernel
  exact ⟨Threads.init_start, Option.map_eq_some_iff.1 hrun⟩

end JuliusOS.Push
