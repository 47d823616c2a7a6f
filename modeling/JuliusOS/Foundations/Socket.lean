import Mathlib.Data.List.Basic
import Mathlib.Data.List.Flatten

/-!
# Receiving from a stream socket

What a peer sends arrives in segments, and the kernel is free in how it cuts them; a `recv` returns
what it was asked for of the first segment that is left. When nothing is left, it returns nothing,
or raises. Every sequence of results that `recv` may have on a stream is that of some segments, so
what holds for all segments of a stream holds for every way it is received.

Two loops read from a connection. One reads item by item until a separator has come (`readLine`),
the other what a function of the number of items it has asks for (`readBody`). Both take a bound on
the calls of `recv`, and are `waiting` where it is used up.

* `exists_readLine`, `readLine_waiting`: the first loop ends exactly if a separator comes, unless
  `recv` raises;
* `readBody_spec`: how the second loop ends;
* `readBody_single`, `readBody_segment`: a peer may choose what each `recv` of the second loop
  returns.
-/

namespace Socket

variable {α : Type*}

/-- What `recv` does when nothing is left. -/
inductive Ending
  /-- It returns nothing: the peer has closed the connection. -/
  | closed
  /-- It raises: the connection is broken, or a timeout has passed. -/
  | broken
deriving DecidableEq

/-- What is still to be received. -/
@[ext] structure Conn (α : Type*) where
  /-- What the peer sends, as it arrives. -/
  segments : List (List α)
  /-- What comes after it. -/
  ending : Ending

/-- The stream, however it is cut. -/
def Conn.stream (c : Conn α) : List α := c.segments.flatten

/-- The first of the segments, or what was asked for of it, and what is left. -/
def receive (n : ℕ) : List (List α) → List α × List (List α)
  | [] => ([], [])
  | s :: rest =>
    if s = [] then receive n rest
    else (s.take n, if s.length ≤ n then rest else s.drop n :: rest)

/-- `recv(n)`: the data, or `none` if it raises. -/
def Conn.recv (c : Conn α) (n : ℕ) : Option (List α × Conn α) :=
  if c.stream = [] ∧ c.ending = .broken then none
  else some ((receive n c.segments).1, ⟨(receive n c.segments).2, c.ending⟩)

/-- How far a loop has come. -/
inductive Outcome
  /-- It is over. -/
  | returned
  /-- It was left with an exception. -/
  | raised
  /-- It waits for more. -/
  | waiting
deriving DecidableEq

theorem Outcome.eq_raised {o : Outcome} (hreturned : o ≠ .returned) (hwaiting : o ≠ .waiting) :
    o = .raised := by
  cases o with
  | returned => exact absurd rfl hreturned
  | raised => rfl
  | waiting => exact absurd rfl hwaiting

/-- `while sep not in line: line += recv(1)`. -/
def readLine [DecidableEq α] (sep : α) : ℕ → List α → Conn α → Outcome × List α × Conn α
  | 0, line, c => (if sep ∈ line then .returned else .waiting, line, c)
  | calls + 1, line, c =>
    if sep ∈ line then (.returned, line, c)
    else match c.recv 1 with
      | none => (.raised, line, c)
      | some (data, c) => readLine sep calls (line ++ data) c

/-- What a loop does when it has so many items. -/
inductive Want
  /-- It is over. -/
  | stop
  /-- It raises. -/
  | fail
  /-- It calls `recv(n)`. -/
  | ask (n : ℕ)

/-- A loop that reads what `want` asks for, and is over when `recv` returns nothing. -/
def readBody (want : ℕ → Want) : ℕ → List α → Conn α → Outcome × List α × Conn α
  | 0, got, c =>
    match want got.length with
    | .stop => (.returned, got, c)
    | .fail => (.raised, got, c)
    | .ask _ => (.waiting, got, c)
  | calls + 1, got, c =>
    match want got.length with
    | .stop => (.returned, got, c)
    | .fail => (.raised, got, c)
    | .ask n =>
      match c.recv n with
      | none => (.raised, got, c)
      | some ([], c) => (.returned, got, c)
      | some (data, c) => readBody want calls (got ++ data) c

/-! ### One call -/

variable {c c' : Conn α} {n : ℕ}

/-- What a `recv` may do. -/
inductive Received (n : ℕ) (c : Conn α) : Option (List α × Conn α) → Prop
  | broken (hstream : c.stream = []) (hending : c.ending = .broken) : Received n c none
  | closed {c' : Conn α} (hstream : c.stream = []) (hending : c.ending = .closed)
    (hstream' : c'.stream = []) (hending' : c'.ending = .closed) : Received n c (some ([], c'))
  | data {a : α} {data : List α} {c' : Conn α} (hstream : c.stream = a :: data ++ c'.stream)
    (hlength : (a :: data).length ≤ n) (hending : c'.ending = c.ending) :
    Received n c (some (a :: data, c'))

theorem receive_append (n : ℕ) (segments : List (List α)) :
    (receive n segments).1 ++ (receive n segments).2.flatten = segments.flatten ∧
      (receive n segments).1.length ≤ n ∧
      (0 < n → (receive n segments).1 = [] → segments.flatten = []) := by
  induction segments with
  | nil => exact ⟨rfl, Nat.zero_le _, fun _ _ ↦ rfl⟩
  | cons s rest ih =>
    rw [receive]
    split
    next hs =>
      rw [hs]
      exact ih
    next hs =>
      refine ⟨?_, List.length_take_le .., fun hn hnil ↦ ?_⟩
      · split
        next hle => rw [List.take_of_length_le hle, List.flatten_cons]
        next hgt =>
          rw [List.flatten_cons, ← List.append_assoc, List.take_append_drop, List.flatten_cons]
      · rcases List.take_eq_nil_iff.1 hnil with h | h
        · omega
        · exact absurd h hs

/-- **One call.** -/
theorem received_recv (hn : 0 < n) (c : Conn α) : Received n c (c.recv n) := by
  obtain ⟨happend, hlength, hnil⟩ := receive_append n c.segments
  rw [Conn.recv]
  split
  next h => exact .broken h.1 h.2
  next h =>
    cases hdata : (receive n c.segments).1 with
    | nil =>
      have hstream : c.stream = [] := hnil hn hdata
      have hending : c.ending = .closed := by
        cases he : c.ending with
        | closed => rfl
        | broken => exact absurd ⟨hstream, he⟩ h
      refine .closed hstream hending ?_ hending
      rw [hdata, List.nil_append] at happend
      exact happend.trans hstream
    | cons a data =>
      rw [hdata] at happend hlength
      exact .data happend.symm hlength rfl

/-- A segment that is asked for as a whole is received as a whole. -/
theorem recv_segment {s : List α} {rest : List (List α)} {ending : Ending} (hs : s ≠ [])
    (hn : s.length ≤ n) :
    Conn.recv ⟨s :: rest, ending⟩ n = some (s, ⟨rest, ending⟩) := by
  have hstream : ¬ (Conn.stream ⟨s :: rest, ending⟩ = [] ∧ ending = .broken) := fun h ↦
    hs (List.append_eq_nil_iff.1 h.1).1
  rw [Conn.recv, if_neg hstream, receive, if_neg hs, if_pos hn, List.take_of_length_le hn]

/-! ### Reading a line -/

section Line

variable [DecidableEq α] {sep : α} {calls : ℕ} {line line' x body : List α}

theorem readLine_of_mem (h : sep ∈ line) (calls : ℕ) (c : Conn α) :
    readLine sep calls line c = (.returned, line, c) := by
  cases calls with
  | zero => rw [readLine, if_pos h]
  | succ calls => rw [readLine, if_pos h]

/-- The next item is read. -/
theorem readLine_step (hline : sep ∉ line) {a : α} (hstream : c.stream = a :: x) :
    ∃ c' : Conn α, c'.stream = x ∧ c'.ending = c.ending ∧
      ∀ calls, readLine sep (calls + 1) line c = readLine sep calls (line ++ [a]) c' := by
  have hrecv := received_recv Nat.one_pos c
  rcases hr : c.recv 1 with - | ⟨data, c'⟩
  · rw [hr] at hrecv
    cases hrecv with
    | broken h => rw [hstream] at h; cases h
  · rw [hr] at hrecv
    cases hrecv with
    | closed h => rw [hstream] at h; cases h
    | @data b data _ h hlength hending =>
      -- one item was asked for
      obtain rfl : data = [] :=
        List.length_eq_zero_iff.1 (Nat.le_zero.1 (Nat.le_of_succ_le_succ hlength))
      rw [hstream] at h
      obtain ⟨rfl, rfl⟩ := List.cons.inj h
      refine ⟨c', rfl, hending, fun calls ↦ ?_⟩
      rw [readLine, if_neg hline, hr]

/-- Nothing is left to be read. -/
theorem readLine_end (hline : sep ∉ line) (hstream : c.stream = []) :
    (∃ c' : Conn α, c.ending = .closed ∧ c'.stream = [] ∧ c'.ending = .closed ∧
      ∀ calls, readLine sep (calls + 1) line c = readLine sep calls line c') ∨
    (c.ending = .broken ∧ ∀ calls, readLine sep (calls + 1) line c = (.raised, line, c)) := by
  have hrecv := received_recv Nat.one_pos c
  rcases hr : c.recv 1 with - | ⟨data, c'⟩
  · rw [hr] at hrecv
    cases hrecv with
    | broken _ hending =>
      refine Or.inr ⟨hending, fun calls ↦ ?_⟩
      rw [readLine, if_neg hline, hr]
  · rw [hr] at hrecv
    cases hrecv with
    | closed _ hending hstream' hending' =>
      refine Or.inl ⟨c', hending, hstream', hending', fun calls ↦ ?_⟩
      rw [readLine, if_neg hline, hr]
      dsimp only
      rw [List.append_nil]
    | data h => rw [hstream] at h; cases h

/-- **A separator ends the line**, with enough calls. -/
theorem exists_readLine (hline : sep ∉ line) (hx : sep ∉ x) (hstream : c.stream = x ++ sep :: body)
    (hcalls : x.length < calls) :
    ∃ c' : Conn α, readLine sep calls line c = (.returned, line ++ x ++ [sep], c') ∧
      c'.stream = body ∧ c'.ending = c.ending := by
  obtain ⟨calls, rfl⟩ := Nat.exists_eq_add_of_lt (Nat.zero_lt_of_lt hcalls)
  rw [Nat.zero_add] at hcalls ⊢
  induction x generalizing calls line c with
  | nil =>
    obtain ⟨c', hbody, hending, hstep⟩ := readLine_step hline hstream
    refine ⟨c', ?_, hbody, hending⟩
    rw [hstep, readLine_of_mem (List.mem_append_right _ (List.mem_singleton_self sep)),
      List.append_nil]
  | cons a x ih =>
    obtain ⟨c', hrest, hending, hstep⟩ := readLine_step hline hstream
    have ha : sep ∉ line ++ [a] := fun hmem ↦ by
      rcases List.mem_append.1 hmem with h | h
      · exact hline h
      · exact hx (List.mem_singleton.1 h ▸ List.mem_cons_self ..)
    cases calls with
    | zero => exact absurd hcalls (by rw [List.length_cons]; omega)
    | succ calls =>
      obtain ⟨c'', hline', hbody, hending'⟩ := ih ha (fun h ↦ hx (List.mem_cons_of_mem a h))
        hrest calls (by rw [List.length_cons] at hcalls; omega)
      refine ⟨c'', ?_, hbody, hending'.trans hending⟩
      rw [hstep, hline', List.append_assoc line]
      rfl

/-- A line that was read ends at the first separator. -/
theorem readLine_returned (hline : sep ∉ line)
    (h : readLine sep calls line c = (.returned, line', c')) :
    ∃ x, sep ∉ x ∧ line' = line ++ x ++ [sep] ∧ c.stream = x ++ sep :: c'.stream ∧
      c'.ending = c.ending := by
  induction calls generalizing line c with
  | zero =>
    rw [readLine, if_neg hline] at h
    cases h
  | succ calls ih =>
    cases hstream : c.stream with
    | nil =>
      rcases readLine_end hline hstream with ⟨c₁, hending, hstream₁, hending₁, hstep⟩ | ⟨-, hstep⟩
      · rw [hstep] at h
        obtain ⟨x, -, -, hx, -⟩ := ih hline h
        rw [hstream₁] at hx
        exact absurd hx.symm (List.append_ne_nil_of_right_ne_nil x nofun)
      · rw [hstep] at h
        cases h
    | cons a rest =>
      obtain ⟨c₁, rfl, hending₁, hstep⟩ := readLine_step hline hstream
      rw [hstep] at h
      by_cases ha : a = sep
      · subst ha
        rw [readLine_of_mem (List.mem_append_right _ (List.mem_singleton_self a))] at h
        cases h
        exact ⟨[], nofun, by rw [List.append_nil], rfl, hending₁⟩
      · have ha' : sep ∉ line ++ [a] := fun hmem ↦ (List.mem_append.1 hmem).elim hline
          fun h ↦ ha (List.mem_singleton.1 h).symm
        obtain ⟨x, hx, rfl, hrest, hending⟩ := ih ha' h
        refine ⟨a :: x, fun hmem ↦ ?_, ?_, ?_, hending.trans hending₁⟩
        · exact (List.mem_cons.1 hmem).elim (fun h ↦ ha h.symm) hx
        · rw [List.append_assoc line [a]]
          rfl
        · rw [hrest]
          rfl

/-- **Without a separator the loop waits for ever** on a peer that has closed. -/
theorem readLine_waiting (hline : sep ∉ line) (hsep : sep ∉ c.stream)
    (hending : c.ending = .closed) :
    (readLine sep calls line c).1 = .waiting := by
  induction calls generalizing line c with
  | zero => rw [readLine, if_neg hline]
  | succ calls ih =>
    cases hstream : c.stream with
    | nil =>
      rcases readLine_end hline hstream with ⟨c₁, -, hstream₁, hending₁, hstep⟩ | ⟨hbroken, -⟩
      · rw [hstep]
        exact ih hline (hstream₁ ▸ List.not_mem_nil) hending₁
      · rw [hending] at hbroken
        cases hbroken
    | cons a rest =>
      obtain ⟨c₁, hrest, hending₁, hstep⟩ := readLine_step hline hstream
      rw [hstream] at hsep
      rw [hstep]
      refine ih (fun hmem ↦ (List.mem_append.1 hmem).elim hline fun h ↦ hsep ?_)
        (fun hmem ↦ hsep (List.mem_cons_of_mem a (hrest ▸ hmem))) (hending₁.trans hending)
      rw [List.mem_singleton.1 h]
      exact List.mem_cons_self ..

/-- A line that comes item by item leaves what comes after it. -/
theorem readLine_single (hline : sep ∉ line) (hx : sep ∉ x) (segments : List (List α))
    (ending : Ending) (calls : ℕ) :
    readLine sep (x.length + 1 + calls) line
        ⟨(x ++ [sep]).map ([·]) ++ segments, ending⟩ =
      (.returned, line ++ x ++ [sep], ⟨segments, ending⟩) := by
  induction x generalizing line with
  | nil =>
    rw [List.length_nil, Nat.zero_add, Nat.add_comm, readLine, if_neg hline, List.nil_append,
      List.map_singleton, List.singleton_append,
      recv_segment (List.cons_ne_nil _ _) (Nat.le_refl 1)]
    dsimp only
    rw [readLine_of_mem (List.mem_append_right _ (List.mem_singleton_self sep)), List.append_nil]
  | cons a x ih =>
    have ha : sep ∉ line ++ [a] := fun hmem ↦ (List.mem_append.1 hmem).elim hline fun h ↦
      hx (List.mem_singleton.1 h ▸ List.mem_cons_self ..)
    rw [List.length_cons, show x.length + 1 + 1 + calls = x.length + 1 + calls + 1 by omega,
      readLine, if_neg hline, List.cons_append, List.map_cons, List.cons_append,
      recv_segment (List.cons_ne_nil _ _) (Nat.le_refl 1)]
    dsimp only
    rw [ih ha fun h ↦ hx (List.mem_cons_of_mem a h), List.append_assoc line [a]]
    rfl

/-- More calls do not change a loop that is over. -/
theorem readLine_of_le {calls' : ℕ} {o : Outcome} (hle : calls ≤ calls')
    (h : readLine sep calls line c = (o, line', c')) (ho : o ≠ .waiting) :
    readLine sep calls' line c = (o, line', c') := by
  induction calls generalizing calls' line c with
  | zero =>
    by_cases hline : sep ∈ line
    · rwa [readLine_of_mem hline] at h ⊢
    · rw [readLine, if_neg hline] at h
      cases h
      exact absurd rfl ho
  | succ calls ih =>
    obtain ⟨calls', rfl⟩ := Nat.exists_eq_add_of_le' (Nat.le_trans (Nat.le_add_left 1 calls) hle)
    by_cases hline : sep ∈ line
    · rwa [readLine_of_mem hline] at h ⊢
    · rw [readLine, if_neg hline] at h ⊢
      rcases hr : c.recv 1 with - | ⟨data, c₁⟩ <;> rw [hr] at h
      · exact h
      · exact ih (Nat.le_of_succ_le_succ hle) h

/-- Without a separator the loop raises where `recv` does, with enough calls. -/
theorem exists_readLine_raised (hline : sep ∉ line) (hsep : sep ∉ c.stream)
    (hending : c.ending = .broken) (hcalls : c.stream.length < calls) :
    ∃ line' c', readLine sep calls line c = (.raised, line', c') := by
  induction calls generalizing line c with
  | zero => exact absurd hcalls (Nat.not_lt_zero _)
  | succ calls ih =>
    cases hstream : c.stream with
    | nil =>
      rcases readLine_end hline hstream with ⟨-, hclosed, -⟩ | ⟨-, hstep⟩
      · rw [hending] at hclosed
        cases hclosed
      · exact ⟨_, _, hstep calls⟩
    | cons a rest =>
      obtain ⟨c₁, rfl, hending₁, hstep⟩ := readLine_step hline hstream
      rw [hstream] at hsep hcalls
      rw [hstep]
      refine ih (fun hmem ↦ (List.mem_append.1 hmem).elim hline fun h ↦ hsep ?_)
        (fun hmem ↦ hsep (List.mem_cons_of_mem a hmem)) (hending₁.trans hending)
        (Nat.lt_of_succ_lt_succ hcalls)
      rw [List.mem_singleton.1 h]
      exact List.mem_cons_self ..

/-- A loop that raises has met no separator, and `recv` raises where nothing is left. -/
theorem readLine_raised (h : readLine sep calls [] c = (.raised, line', c')) :
    sep ∉ c.stream ∧ c.ending = .broken := by
  have hsep : sep ∉ c.stream := by
    intro hmem
    obtain ⟨x, body, hstream, hx⟩ := List.eq_append_cons_of_mem hmem
    obtain ⟨c₁, hread, -⟩ := exists_readLine List.not_mem_nil hx hstream
      (Nat.lt_of_lt_of_le (Nat.lt_succ_self x.length) (Nat.le_add_left _ calls))
    rw [readLine_of_le (Nat.le_add_right calls _) h nofun] at hread
    cases hread
  refine ⟨hsep, ?_⟩
  cases hending : c.ending with
  | broken => rfl
  | closed =>
    have hwait : (readLine sep calls [] c).1 = .waiting :=
      readLine_waiting List.not_mem_nil hsep hending
    rw [h] at hwait
    cases hwait

end Line

/-! ### Reading a body -/

section Body

variable {want : ℕ → Want} {calls : ℕ} {got got' x : List α} {o : Outcome}

/-- Where a loop is that reads a body. -/
inductive Ended (want : ℕ → Want) (c : Conn α) (r : ℕ) : Outcome → Prop
  | stop (hwant : want r = .stop) : Ended want c r .returned
  | closed {n : ℕ} (hwant : want r = .ask n) (hstream : c.stream = [])
    (hending : c.ending = .closed) : Ended want c r .returned
  | fail (hwant : want r = .fail) : Ended want c r .raised
  | broken {n : ℕ} (hwant : want r = .ask n) (hstream : c.stream = [])
    (hending : c.ending = .broken) : Ended want c r .raised
  | waiting {n : ℕ} (hwant : want r = .ask n) : Ended want c r .waiting

theorem readBody_stop (h : want got.length = .stop) (calls : ℕ) (c : Conn α) :
    readBody want calls got c = (.returned, got, c) := by
  cases calls <;> rw [readBody, h]

theorem readBody_fail (h : want got.length = .fail) (calls : ℕ) (c : Conn α) :
    readBody want calls got c = (.raised, got, c) := by
  cases calls <;> rw [readBody, h]

theorem readBody_ask (h : want got.length = .ask n) (calls : ℕ) (c : Conn α) :
    readBody want (calls + 1) got c =
      match c.recv n with
      | none => (.raised, got, c)
      | some ([], c) => (.returned, got, c)
      | some (data, c) => readBody want calls (got ++ data) c := by
  rw [readBody, h]

/-- **How the loop ends**, with what it has read, and what its requests preserve. -/
theorem readBody_spec {P : ℕ → Prop} (hask : ∀ r n, want r = .ask n → 0 < n)
    (hP : ∀ r n k, P r → want r = .ask n → k ≤ n → P (r + k)) (hgot : P got.length)
    (h : readBody want calls got c = (o, got', c')) :
    Ended want c' got'.length o ∧ P got'.length ∧ c'.ending = c.ending ∧
      ∃ x, got' = got ++ x ∧ c.stream = x ++ c'.stream := by
  have hsame {o : Outcome} (hended : Ended want c got.length o) :
      Ended want c got.length o ∧ P got.length ∧ c.ending = c.ending ∧
        ∃ x, got = got ++ x ∧ c.stream = x ++ c.stream :=
    ⟨hended, hgot, rfl, [], (List.append_nil got).symm, rfl⟩
  induction calls generalizing got c with
  | zero =>
    cases hwant : want got.length with
    | stop =>
      rw [readBody_stop hwant] at h
      cases h
      exact hsame (.stop hwant)
    | fail =>
      rw [readBody_fail hwant] at h
      cases h
      exact hsame (.fail hwant)
    | ask n =>
      rw [readBody, hwant] at h
      cases h
      exact hsame (.waiting hwant)
  | succ calls ih =>
    cases hwant : want got.length with
    | stop =>
      rw [readBody_stop hwant] at h
      cases h
      exact hsame (.stop hwant)
    | fail =>
      rw [readBody_fail hwant] at h
      cases h
      exact hsame (.fail hwant)
    | ask n =>
      have hrecv := received_recv (hask _ n hwant) c
      rw [readBody_ask hwant] at h
      rcases hr : c.recv n with - | ⟨data, c₁⟩
      · rw [hr] at h hrecv
        cases h
        cases hrecv with
        | broken hstream hending => exact hsame (.broken hwant hstream hending)
      · rw [hr] at h hrecv
        cases hrecv with
        | closed hstream hending hstream' hending' =>
          cases h
          exact ⟨.closed hwant hstream' hending', hgot, hending'.trans hending.symm, [],
            (List.append_nil _).symm, by rw [hstream, hstream', List.append_nil]⟩
        | @data a data _ hstream hlength hending =>
          have hgot' : P (got ++ a :: data).length := by
            rw [List.length_append]
            exact hP _ n _ hgot hwant hlength
          obtain ⟨hended, hP', hending', x, rfl, hx⟩ := ih hgot' h fun hended ↦
            ⟨hended, hgot', rfl, [], (List.append_nil _).symm, rfl⟩
          refine ⟨hended, hP', hending'.trans hending, a :: data ++ x, ?_, ?_⟩
          · rw [List.append_assoc]
          · rw [hstream, hx, List.append_assoc]

/-- **Each call makes progress**: with more calls than items the loop does not wait. -/
theorem readBody_ne_waiting (hask : ∀ r n, want r = .ask n → 0 < n)
    (hcalls : c.stream.length < calls) : (readBody want calls got c).1 ≠ .waiting := by
  induction calls generalizing got c with
  | zero => exact absurd hcalls (Nat.not_lt_zero _)
  | succ calls ih =>
    cases hwant : want got.length with
    | stop =>
      rw [readBody_stop hwant]
      exact nofun
    | fail =>
      rw [readBody_fail hwant]
      exact nofun
    | ask n =>
      have hrecv := received_recv (hask _ n hwant) c
      rw [readBody_ask hwant]
      rcases hr : c.recv n with - | ⟨data, c₁⟩
      · exact nofun
      · rw [hr] at hrecv
        cases hrecv with
        | closed => exact nofun
        | @data a data _ hstream =>
          refine ih ?_
          rw [hstream, List.length_append, List.length_cons] at hcalls
          omega

/-- More calls do not change a loop that is over. -/
theorem readBody_of_le {calls' : ℕ} (hle : calls ≤ calls')
    (h : readBody want calls got c = (o, got', c')) (ho : o ≠ .waiting) :
    readBody want calls' got c = (o, got', c') := by
  induction calls generalizing calls' got c with
  | zero =>
    cases hwant : want got.length with
    | stop => rwa [readBody_stop hwant] at h ⊢
    | fail => rwa [readBody_fail hwant] at h ⊢
    | ask n =>
      rw [readBody, hwant] at h
      cases h
      exact absurd rfl ho
  | succ calls ih =>
    obtain ⟨calls', rfl⟩ := Nat.exists_eq_add_of_le' (Nat.le_trans (Nat.le_add_left 1 calls) hle)
    cases hwant : want got.length with
    | stop => rwa [readBody_stop hwant] at h ⊢
    | fail => rwa [readBody_fail hwant] at h ⊢
    | ask n =>
      rw [readBody_ask hwant] at h ⊢
      rcases hr : c.recv n with - | ⟨_ | ⟨a, data⟩, c₁⟩ <;> rw [hr] at h
      · exact h
      · exact h
      · exact ih (Nat.le_of_succ_le_succ hle) h

/-- **Items that come one by one** are read one by one, as long as more are wanted. -/
theorem readBody_single (hwant : ∀ k < x.length, ∃ n, want (got.length + k) = .ask n ∧ 0 < n)
    (segments : List (List α)) (ending : Ending) (calls : ℕ) :
    readBody want (x.length + calls) got ⟨x.map ([·]) ++ segments, ending⟩ =
      readBody want calls (got ++ x) ⟨segments, ending⟩ := by
  induction x generalizing got with
  | nil => rw [List.length_nil, Nat.zero_add, List.map_nil, List.nil_append, List.append_nil]
  | cons a x ih =>
    obtain ⟨n, hn, hpos⟩ := hwant 0 (Nat.zero_lt_succ _)
    rw [List.length_cons, show x.length + 1 + calls = x.length + calls + 1 by omega,
      readBody_ask hn, List.map_cons, List.cons_append,
      recv_segment (List.cons_ne_nil _ _) (show [a].length ≤ n from hpos)]
    dsimp only
    rw [ih, List.append_assoc]
    · rfl
    · intro k hk
      obtain ⟨m, hm, hpos⟩ := hwant (k + 1) (Nat.succ_lt_succ hk)
      refine ⟨m, ?_, hpos⟩
      rw [List.length_append, List.length_singleton, Nat.add_assoc, Nat.add_comm 1]
      exact hm

/-- Nothing follows, and the peer has closed. -/
theorem readBody_closed (hwant : want got.length = .ask n) (calls : ℕ) :
    readBody want (calls + 1) got ⟨[], .closed⟩ = (.returned, got, ⟨[], .closed⟩) := by
  rw [readBody_ask hwant]
  rfl

/-- A segment is read as a whole, where it is asked for as a whole. -/
theorem readBody_segment {s : List α} (hs : s ≠ []) (hwant : want got.length = .ask n)
    (hn : s.length ≤ n) (segments : List (List α)) (ending : Ending) (calls : ℕ) :
    readBody want (calls + 1) got ⟨s :: segments, ending⟩ =
      readBody want calls (got ++ s) ⟨segments, ending⟩ := by
  rw [readBody_ask hwant, recv_segment hs hn]
  cases s with
  | nil => exact absurd rfl hs
  | cons a s => rfl

end Body

end Socket
