import JuliusOS.Cloud.Sync
import JuliusOS.Drop.Receive

/-!
# Peers that close

What becomes of the two receivers when a peer sends what it likes and closes: from then on `recv`
returns nothing, and does not raise. The loops that count bytes are over then. The loops that wait
for a newline are not, so a receiver comes back exactly if a newline comes wherever it waits for
one.

* `receivers_end_iff`: when the receivers of Drop and of the cloud come back.
-/

namespace JuliusOS.Cloud

open Python Socket

variable {env : Env} {calls : ℕ} {names : List Value} {s : Session} {c : JuliusCloud}
  {stream : Bytes}

/-- A newline comes wherever the loop over `send` waits for one, after so many messages and with
this to come. -/
def Env.AnsweredFrom (env : Env) : List Value → ℕ → Bytes → Prop
  | [], _, _ => True
  | fname :: names, k, stream => env.sendall k = true →
    10 ∈ stream ∧ ∀ line body, stream = line ++ 10 :: body → 10 ∉ line →
      ∀ fpath size, env.target? k fname (line ++ [10]) = some (fpath, size) →
        ∀ full n, size.ends 4096 body.length .closed = some (full, n) →
          AnsweredFrom env names (k + 1) (body.drop n)

/-- A newline comes wherever `run` waits for one. -/
def Env.Answered (env : Env) (stream : Bytes) : Prop :=
  ∀ files, env.Starts files →
    10 ∈ stream ∧ ∀ line body, stream = line ++ 10 :: body → 10 ∉ line →
      ∀ synced sent send, env.uploads files [env.manifest files] (line ++ [10]) =
          some (synced, sent, send) →
        env.AnsweredFrom send sent.length body

/-! ### A run that is answered -/

/-- **A loop that is answered is over** after fewer calls than bytes. -/
theorem downloads_ne_waiting (h : env.AnsweredFrom names s.sent.length s.conn.stream)
    (hending : s.conn.ending = .closed) (hcalls : s.conn.stream.length < calls) :
    (env.downloads calls names s).1 ≠ .waiting := by
  induction names generalizing s with
  | nil => exact nofun
  | cons fname names ih =>
    rcases hdownload : env.download calls fname s with ⟨o, s'⟩
    cases downloaded_of_download hdownload with
    | unsent =>
      rw [downloads_of_ne_returned hdownload nofun]
      exact nofun
    | unanswered hsend hread ho =>
      obtain ⟨hmem, -⟩ := h hsend
      have hreturned := readLine_ne_waiting hmem hcalls
      rw [hread] at hreturned
      exact absurd hreturned ho
    | refused =>
      rw [downloads_of_ne_returned hdownload nofun]
      exact nofun
    | @stopped _ _ conn conn' _ size got hsend hread _ hbody ho =>
      obtain ⟨line, hstream, -⟩ := eq_of_readLine hread
      rw [hstream, List.length_append, List.length_cons] at hcalls
      have hask : ∀ r n, size.wants 4096 r = .ask n → 0 < n := fun _ _ ↦
        Value.Size.pos_of_wants (by decide)
      have hne : (readBody (size.wants 4096) calls [] conn).1 ≠ .waiting :=
        readBody_ne_waiting hask (by omega)
      rw [hbody] at hne
      rw [downloads_of_ne_returned hdownload ho]
      exact hne
    | @counted _ conn conn' fpath size got hsend hread htarget hbody =>
      obtain ⟨line, hstream, hline, rfl, hconn⟩ := eq_of_readLine hread
      obtain ⟨full, hends, -, hrest, hconn'⟩ := Value.Size.ends_of_readBody (by decide) hbody
      rw [hconn, hending] at hends hconn'
      have hanswered := (h hsend).2 line _ hstream hline _ _ htarget full _ hends
      rw [← hrest, List.drop_left, ← length_sent_counted s fname fpath size got] at hanswered
      rw [hstream, List.length_append, List.length_cons, ← hrest, List.length_append] at hcalls
      rw [downloads_of_returned hdownload]
      refine ih (s := (s.counted fname fpath size got).rest conn') hanswered hconn' ?_
      exact (by omega : conn'.stream.length < calls)

/-- Where nothing answers, a line is waited for. -/
theorem readLine_of_no_newline (hno : 10 ∉ stream) (calls : ℕ) :
    (readLine 10 calls [] ⟨stream.map ([·]), .closed⟩).1 = .waiting :=
  readLine_waiting List.not_mem_nil (by rwa [Conn.stream, Value.Size.flatten_items]) rfl

/-- **A loop that is over for every cut is answered.** -/
theorem answered_of_downloads (h : ∀ segments : List Bytes, segments.flatten = stream →
    (∀ segment ∈ segments, segment ≠ []) →
    ∃ calls, (env.downloads calls names (s.rest ⟨segments, .closed⟩)).1 ≠ .waiting) :
    env.AnsweredFrom names s.sent.length stream := by
  induction names generalizing s stream with
  | nil => trivial
  | cons fname names ih =>
    intro hsend
    refine ⟨?_, ?_⟩
    · by_contra hno
      obtain ⟨calls, hne⟩ := h _ (Value.Size.flatten_items stream) (Value.Size.items_ne_nil stream)
      rcases hread : readLine 10 calls [] (⟨stream.map ([·]), .closed⟩ : Conn UInt8) with
        ⟨o, resp, conn⟩
      obtain rfl : o = .waiting := by
        rw [← readLine_of_no_newline hno calls, hread]
      have hwait : env.download calls fname (s.rest ⟨stream.map ([·]), .closed⟩) = _ :=
        download_of_downloaded (.unanswered hsend hread nofun)
      rw [downloads_of_ne_returned hwait nofun] at hne
      exact hne rfl
    · intro line body hstream hline fpath size htarget full n hends
      obtain ⟨pre, K, hflatten, hpre, hcut⟩ := exists_cut hsend hstream hline htarget hends
      rw [← length_sent_counted s fname fpath size (body.take n)]
      refine ih (s := s.counted fname fpath size (body.take n)) fun rest hrest hne ↦ ?_
      obtain ⟨calls, hover⟩ := h (pre ++ rest) (by rw [List.flatten_append, hrest, hflatten])
        fun segment hmem ↦ (List.mem_append.1 hmem).elim (hpre segment) (hne segment)
      rcases hloop : env.downloads calls (fname :: names) (s.rest ⟨pre ++ rest, .closed⟩) with
        ⟨o, s'⟩
      rw [hloop] at hover
      have hmore := downloads_of_le (Nat.le_add_left calls K) hloop hover
      rw [downloads_of_returned (hcut rest hrest hne calls)] at hmore
      exact ⟨K + calls, by rwa [hmore]⟩

/-! ### The whole run -/

/-- A run that is answered is over. -/
theorem attempt_ne_waiting (h : env.Answered stream) {conn : Conn UInt8}
    (hstream : conn.stream = stream) (hending : conn.ending = .closed)
    (hcalls : stream.length < calls) : (env.attempt calls conn c).1 ≠ .waiting := by
  subst hstream
  by_cases hstarts : ∃ files, env.Starts files
  · obtain ⟨files, hstarts⟩ := hstarts
    obtain ⟨hmem, hanswered⟩ := h files hstarts
    rw [attempt_of_starts hstarts]
    have hreturned := readLine_ne_waiting hmem hcalls
    rcases hread : readLine 10 calls [] conn with ⟨o, resp, conn'⟩
    rw [hread] at hreturned
    obtain rfl : o = .returned := hreturned
    obtain ⟨line, hstream, hline, rfl, hconn⟩ := eq_of_readLine hread
    dsimp only
    rcases huploads : env.uploads files [env.manifest files] (line ++ [10]) with
      - | ⟨synced, sent, send⟩
    · exact nofun
    · rw [hstream, List.length_append, List.length_cons] at hcalls
      have hne : (env.downloads calls send ⟨conn', sent, synced, synced, fun _ ↦ none, c⟩).1 ≠
          .waiting :=
        downloads_ne_waiting (hanswered line _ hstream hline synced sent send huploads)
          (hconn.trans hending) (by omega : conn'.stream.length < calls)
      dsimp only
      rcases hloop : env.downloads calls send ⟨conn', sent, synced, synced, fun _ ↦ none, c⟩ with
        ⟨_ | _ | _, s'⟩
      · exact finish_ne_waiting env s'
      · exact nofun
      · rw [hloop] at hne
        exact absurd rfl hne
  · rw [attempt_of_not_starts fun files h ↦ hstarts ⟨files, h⟩]
    exact nofun

/-- A run that is over for every cut is answered. -/
theorem answered_of_attempt (h : ∀ segments : List Bytes, segments.flatten = stream →
    ∃ calls, (env.attempt calls ⟨segments, .closed⟩ c).1 ≠ .waiting) : env.Answered stream := by
  intro files hstarts
  refine ⟨?_, ?_⟩
  · by_contra hno
    obtain ⟨calls, hne⟩ := h _ (Value.Size.flatten_items stream)
    exact hne (attempt_of_waiting hstarts (readLine_of_no_newline hno calls))
  · intro line body hstream hline synced sent send huploads
    refine answered_of_downloads
      (s := ⟨⟨[], .closed⟩, sent, synced, synced, fun _ ↦ none, c⟩) fun rest hrest _ ↦ ?_
    obtain ⟨calls, hne⟩ := h ((line ++ [10]).map ([·]) ++ rest)
      ((Value.Size.flatten_line line 10 hrest).trans hstream.symm)
    have hread : readLine 10 calls [] ⟨(line ++ [10]).map ([·]) ++ rest, .closed⟩ =
        (.returned, [] ++ line ++ [10], ⟨rest, .closed⟩) := by
      rcases hr : readLine 10 calls []
        (⟨(line ++ [10]).map ([·]) ++ rest, .closed⟩ : Conn UInt8) with ⟨o, resp, conn⟩
      rw [hr, ← readLine_single List.not_mem_nil hline rest .closed calls]
      refine (readLine_of_le (Nat.le_add_left calls _) hr fun hwait ↦ ?_).symm
      exact hne (attempt_of_waiting hstarts (by rw [hr, hwait]))
    rw [attempt_of_uploads hstarts hread huploads] at hne
    refine ⟨calls, fun hwait ↦ hne ?_⟩
    rcases hloop : env.downloads calls send ⟨⟨rest, .closed⟩, sent, synced, synced, fun _ ↦ none, c⟩
      with ⟨o, s'⟩
    obtain rfl : o = .waiting := by
      rw [← hwait]
      exact (congrArg Prod.fst hloop).symm
    rfl

/-- The connection of a peer that sends these segments and closes. -/
def closing (peer : List ℕ × List Bytes) : List ℕ × Conn UInt8 := (peer.1, ⟨peer.2, .closed⟩)

/-- **The receivers come back exactly where newlines come.** Whatever peers send before they close,
the receiver of Drop comes back to `accept` if and only if each of them sends a newline; and a `run`
is over, with `syncing` cleared, for every cut of what the server sends, if and only if a newline
comes wherever it waits for one. -/
theorem receivers_end_iff {peers : List (List ℕ × List Bytes)} {loads : List Char → Option Value}
    {opens : List ℕ → Bool} {d : Drop.JuliusDrop} :
    ((∃ calls d', Drop.receive loads opens calls (peers.map closing) d = (.returned, d')) ↔
      ∀ p ∈ peers, 10 ∈ p.2.flatten) ∧
    ((∀ segments, segments.flatten = stream → ∃ calls s,
        env.run calls ⟨segments, .closed⟩ c = (.returned, s) ∧ s.cloud.syncing = false) ↔
      env.Answered stream) := by
  refine ⟨?_, ?_, ?_⟩
  · rw [Drop.receive_iff (List.forall_mem_map.2 fun _ _ ↦ rfl), List.forall_mem_map]
    rfl
  · intro h
    refine answered_of_attempt (c := c) fun segments hsegments ↦ ?_
    obtain ⟨calls, hover⟩ := h segments hsegments
    exact ⟨calls, run_returned_iff.1 hover⟩
  · intro h segments hsegments
    refine ⟨stream.length + 1, run_returned_iff.2 ?_⟩
    exact attempt_ne_waiting h hsegments rfl (Nat.lt_succ_self _)

/-- A device without faults, whose server has sent nothing. -/
def quietEnv : Env :=
  ⟨fun _ ↦ none, [], true, some [], fun _ ↦ true, fun _ _ ↦ none, fun _ _ ↦ true, [], true, some []⟩

/-- **A peer that closes at once is waited for.** -/
theorem receivers_end_false :
    (¬ ∀ loads opens d (peers : List (List ℕ × List Bytes)), ∃ calls d',
      Drop.receive loads opens calls (peers.map closing) d = (.returned, d')) ∧
    ¬ ∀ (env : Env) c segments, ∃ calls s,
      env.run calls ⟨segments, .closed⟩ c = (.returned, s) ∧ s.cloud.syncing = false := by
  refine ⟨fun h ↦ ?_, fun h ↦ ?_⟩
  · have hmem := (Drop.receive_iff (List.forall_mem_map.2 fun _ _ ↦ rfl)).1
      (h (fun _ ↦ none) (fun _ ↦ true) ⟨[], .ready, fun _ ↦ none, []⟩ [([], [])])
    exact absurd (List.forall_mem_map.1 hmem _ (List.mem_singleton_self _)) List.not_mem_nil
  · obtain ⟨calls, hover⟩ := h quietEnv ⟨.syncing, true, [], [], fun _ ↦ none⟩ []
    exact run_returned_iff.1 hover
      (attempt_of_waiting ⟨rfl, rfl, rfl⟩ (readLine_of_no_newline List.not_mem_nil calls))

end JuliusOS.Cloud
