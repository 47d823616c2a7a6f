import JuliusOS.Cloud.Sync
import Mathlib.Data.Set.Basic

/-!
# What a sync leaves behind

What is in the files of `CLOUD_DIR` when `run` is over, and what it reports, whatever the server
sends and wherever the connection breaks off. A download opens its file, which empties it, before
anything has come, and counts what has come as a transfer whatever was announced.

A file is short if something else was written than as much as was announced when it was last
opened. Which files may be short, and where the run may be over then, follows from what the server
sends, however that is cut.

* `Session.short`: the short files of a session;
* `sync_keeps_iff`: when every file is kept or complete, and the report true.
-/

namespace JuliusOS.Cloud

open Python Socket

/-- The file is complete: it has as much as was announced when it was last opened. -/
def Session.Complete (s : Session) (way : List (List ℕ)) : Prop :=
  ∃ size content, s.announced way = some size ∧ s.cloud.disk way = some content ∧
    size.Is content.length

/-- The files that were opened and are not complete. -/
def Session.short (s : Session) : Set (List (List ℕ)) :=
  {way | s.announced way ≠ none ∧ ¬ s.Complete way}

/-- A run has kept every file of `CLOUD_DIR` or completed it, and has reported no more transfers
than were complete. -/
structure Kept (c : JuliusCloud) (s : Session) : Prop where
  /-- The files. -/
  files : ∀ path, Below cloudDir path →
    s.cloud.disk (resolve path) = c.disk (resolve path) ∨ s.Complete (resolve path)
  /-- The report. -/
  reports : ∀ n, s.cloud.status = .synced n → n ≤ s.complete

/-! ### What the server has to send -/

/-- No file of `CLOUD_DIR` is among these. -/
def Intact (short : Set (List (List ℕ))) : Prop :=
  ∀ path, Below cloudDir path → resolve path ∉ short

/-- The short files, after one more download. -/
def mark (full : Bool) (way : List (List ℕ)) (short : Set (List (List ℕ))) : Set (List (List ℕ)) :=
  if full then short \ {way} else insert way short

/-- Nothing after the loops raises. -/
def Env.Reports (env : Env) : Prop := env.saves = true ∧ env.lists ≠ none

/-- The loop over `send` keeps the files, after so many messages, with these short files, where all
transfers so far were complete or not, and with this to come: wherever it may be over no file of
`CLOUD_DIR` is short, and it does not come to its end after a transfer that was not complete, unless
the report is missing then. -/
def Env.ServedFrom (env : Env) (ending : Ending) :
    List Value → ℕ → Set (List (List ℕ)) → Bool → Bytes → Prop
  | [], _, short, clean, _ => Intact short ∧ (clean = true ∨ ¬ env.Reports)
  | fname :: names, k, short, clean, stream =>
    (env.sendall k = false → Intact short) ∧ (env.sendall k = true →
      (10 ∉ stream → ending = .broken → Intact short) ∧
      ∀ line body, stream = line ++ 10 :: body → 10 ∉ line →
        (env.target? k fname (line ++ [10]) = none → Intact short) ∧
        ∀ fpath size, env.target? k fname (line ++ [10]) = some (fpath, size) →
          (size.Raises 4096 body.length ending → Intact (insert (resolve fpath) short)) ∧
          ∀ full n, size.ends 4096 body.length ending = some (full, n) →
            ServedFrom env ending names (k + 1) (mark full (resolve fpath) short) (clean && full)
              (body.drop n))

/-- `run` keeps the files. -/
def Env.Served (env : Env) (ending : Ending) (stream : Bytes) : Prop :=
  ∀ files, env.Starts files → ∀ line body, stream = line ++ 10 :: body → 10 ∉ line →
    ∀ synced sent send, env.uploads files [env.manifest files] (line ++ [10]) =
        some (synced, sent, send) →
      env.ServedFrom ending send sent.length ∅ true body

variable {env : Env} {calls : ℕ} {fname : Value} {names : List Value} {s s' : Session}
  {c : JuliusCloud} {stream : Bytes} {ending : Ending} {o : Outcome} {fpath : List ℕ}
  {size : Value.Size} {got : Bytes}

/-! ### What a session has done -/

/-- What a session has done to the files since it began. -/
structure Since (c : JuliusCloud) (s : Session) : Prop where
  /-- A file that was not opened is as it was. -/
  unopened : ∀ way, s.announced way = none → s.cloud.disk way = c.disk way
  /-- A file that was opened is there. -/
  opened : ∀ way, s.announced way ≠ none → s.cloud.disk way ≠ none
  /-- No more is complete than is counted. -/
  counted : s.complete ≤ s.synced

theorem Since.store (h : Since c s) (fpath : List ℕ) (size : Value.Size) (got : Bytes) :
    Since c (s.store fpath size got) where
  unopened way hway := by
    have hne : way ≠ resolve fpath := by
      rintro rfl
      rw [announced_store, Function.update_self] at hway
      cases hway
    rw [announced_store, Function.update_of_ne hne] at hway
    rw [disk_store, Function.update_of_ne hne]
    exact h.unopened way hway
  opened way hway := by
    by_cases heq : way = resolve fpath
    · subst heq
      rw [disk_store, Function.update_self]
      exact nofun
    · rw [announced_store, Function.update_of_ne heq] at hway
      rw [disk_store, Function.update_of_ne heq]
      exact h.opened way hway
  counted := h.counted

theorem complete_count_le (h : s.complete ≤ s.synced) (size : Value.Size) (received : ℕ) :
    (s.count size received).complete ≤ (s.count size received).synced := by
  show (if size.Is received then s.complete + 1 else s.complete) ≤ s.synced + 1
  split <;> omega

theorem Since.count (h : Since c s) (size : Value.Size) (received : ℕ) :
    Since c (s.count size received) :=
  ⟨h.unopened, h.opened, complete_count_le h.counted size received⟩

/-- A download keeps it. -/
theorem Since.download (h : Downloaded env calls fname s o s') (hs : Since c s) : Since c s' := by
  have hsend (conn : Conn UInt8) : Since c ((s.send (.download fname)).rest conn) :=
    ⟨hs.unopened, hs.opened, hs.counted⟩
  cases h with
  | unsent => exact hs
  | unanswered => exact hsend _
  | refused => exact hsend _
  | stopped => exact (hsend _).store ..
  | counted => exact ((hsend _).store ..).count ..

theorem since_downloads (h : Since c s) : Since c (env.downloads calls names s).2 :=
  downloads_preserves (fun _ _ _ _ hd hs ↦ hs.download hd) h

/-! ### The short files -/

theorem complete_store_iff (s : Session) (fpath : List ℕ) (size : Value.Size) (got : Bytes) :
    (s.store fpath size got).Complete (resolve fpath) ↔ size.Is got.length := by
  rw [Session.Complete, announced_store, disk_store, Function.update_self, Function.update_self]
  constructor
  · rintro ⟨size', content, hsize, hcontent, his⟩
    cases hsize
    cases hcontent
    exact his
  · exact fun his ↦ ⟨size, got, rfl, rfl, his⟩

/-- **The short files after a file was written.** -/
theorem short_store (s : Session) (fpath : List ℕ) {full : Bool}
    (hfull : full = true ↔ size.Is got.length) :
    (s.store fpath size got).short = mark full (resolve fpath) s.short := by
  ext way
  by_cases heq : way = resolve fpath
  · subst heq
    have hopened : (s.store fpath size got).announced (resolve fpath) ≠ none := by
      rw [announced_store, Function.update_self]
      exact nofun
    have hmem : resolve fpath ∈ (s.store fpath size got).short ↔ ¬ size.Is got.length := by
      rw [← complete_store_iff s fpath size got]
      exact and_iff_right hopened
    rw [hmem, ← hfull]
    cases full with
    | true => exact iff_of_false (fun h ↦ h rfl) fun h ↦ h.2 rfl
    | false => exact iff_of_true nofun (Set.mem_insert ..)
  · have hsame : way ∈ (s.store fpath size got).short ↔ way ∈ s.short := by
      show _ ∧ ¬ _ ↔ _ ∧ ¬ _
      rw [Session.Complete, announced_store, disk_store, Function.update_of_ne heq,
        Function.update_of_ne heq, Session.Complete]
    rw [hsame]
    cases full with
    | true => exact (and_iff_left heq).symm
    | false => exact (Set.mem_insert_iff.trans (or_iff_right heq)).symm

/-- One more transfer is counted as complete exactly if it was. -/
theorem clean_count (hs : s.complete ≤ s.synced) {full : Bool} {n : ℕ}
    (hfull : full = true ↔ size.Is n) :
    decide ((s.count size n).complete = (s.count size n).synced) =
      (decide (s.complete = s.synced) && full) := by
  rw [show (s.count size n).complete = if size.Is n then s.complete + 1 else s.complete from rfl,
    show (s.count size n).synced = s.synced + 1 from rfl]
  cases full with
  | true =>
    rw [if_pos (hfull.1 rfl), Bool.and_true]
    exact decide_eq_decide.2 Nat.succ_inj
  | false =>
    have his : ¬ size.Is n := fun his ↦ Bool.false_ne_true (hfull.2 his)
    rw [if_neg his, Bool.and_false]
    exact decide_eq_false (by omega : ¬ s.complete = s.synced + 1)

/-- The short files after a download that was counted. -/
theorem short_counted (s : Session) (fname : Value) (fpath : List ℕ) {full : Bool}
    (hfull : full = true ↔ size.Is got.length) :
    (s.counted fname fpath size got).short = mark full (resolve fpath) s.short :=
  short_store (s.send (.download fname)) fpath hfull

/-! ### A loop that is served -/

/-- What is to be shown of a loop that is over. -/
def LeftWell (env : Env) (o : Outcome) (s : Session) : Prop :=
  Intact s.short ∧ (o = .returned → s.complete = s.synced ∨ ¬ env.Reports)

/-- **A loop that is served leaves the files well**, however the stream is cut. -/
theorem leftWell_of_served
    (hserved : env.ServedFrom s.conn.ending names s.sent.length s.short
      (decide (s.complete = s.synced)) s.conn.stream)
    (hs : Since c s) (h : env.downloads calls names s = (o, s')) (ho : o ≠ .waiting) :
    LeftWell env o s' := by
  induction names generalizing s with
  | nil =>
    cases h
    obtain ⟨hintact, hclean⟩ := hserved
    exact ⟨hintact, fun _ ↦ hclean.imp_left of_decide_eq_true⟩
  | cons fname names ih =>
    obtain ⟨hunsent, hserved⟩ := hserved
    rcases hdownload : env.download calls fname s with ⟨o₁, s₁⟩
    have hs₁ := hs.download (downloaded_of_download hdownload)
    by_cases hreturned : o₁ = .returned
    · subst hreturned
      rw [downloads_of_returned hdownload] at h
      cases downloaded_of_download hdownload with
      | unanswered _ _ ho₁ => exact absurd rfl ho₁
      | stopped _ _ _ _ ho₁ => exact absurd rfl ho₁
      | @counted _ conn conn' fpath size got hsend hread htarget hbody =>
        obtain ⟨line, hstream, hline, rfl, hconn⟩ := eq_of_readLine hread
        obtain ⟨full, hends, hfull, hrest, hconn'⟩ := Value.Size.ends_of_readBody (by decide) hbody
        rw [hconn] at hends hconn'
        have hnext := (((hserved hsend).2 line _ hstream hline).2 _ _ htarget).2 full _ hends
        rw [← hrest, List.drop_left, ← short_counted s fname fpath hfull,
          ← length_sent_counted s fname fpath size got, ← hconn'] at hnext
        refine ih (s := (s.counted fname fpath size got).rest conn') ?_ hs₁ h
        have hclean := clean_count (s := (s.send (.download fname)).store fpath size got)
          hs.counted hfull
        rw [show decide (((s.counted fname fpath size got).rest conn').complete =
          ((s.counted fname fpath size got).rest conn').synced) = _ from hclean]
        exact hnext
    · rw [downloads_of_ne_returned hdownload hreturned] at h
      cases h
      refine ⟨?_, fun h ↦ absurd h hreturned⟩
      cases downloaded_of_download hdownload with
      | unsent hsend => exact hunsent hsend
      | @unanswered _ _ _ hsend hread _ =>
        obtain rfl := Outcome.eq_raised hreturned ho
        obtain ⟨hno, hbroken⟩ := readLine_raised hread
        exact (hserved hsend).1 hno hbroken
      | refused hsend hread htarget =>
        obtain ⟨line, hstream, hline, rfl, -⟩ := eq_of_readLine hread
        exact ((hserved hsend).2 line _ hstream hline).1 htarget
      | @stopped _ _ conn _ fpath size got hsend hread htarget hbody _ =>
        obtain rfl := Outcome.eq_raised hreturned ho
        obtain ⟨line, hstream, hline, rfl, hconn⟩ := eq_of_readLine hread
        have hraises := Value.Size.raises_of_readBody (by decide) hbody
        rw [hconn] at hraises
        have hshort : ((s.send (.download fname)).store fpath size got).short =
            mark false (resolve fpath) s.short := short_store (s.send (.download fname)) fpath
          (iff_of_false nofun (Value.Size.not_is_of_raised (by decide) hbody))
        have hintact := (((hserved hsend).2 line _ hstream hline).2 _ _ htarget).1 hraises
        exact hshort ▸ hintact
      | counted => exact absurd rfl hreturned

/-- **A loop that leaves the files well for every cut is served.** -/
theorem served_of_leftWell (hle : s.complete ≤ s.synced)
    (h : ∀ segments : List Bytes, segments.flatten = stream →
      (∀ segment ∈ segments, segment ≠ []) → ∀ calls o s',
        env.downloads calls names (s.rest ⟨segments, ending⟩) = (o, s') → o ≠ .waiting →
          LeftWell env o s') :
    env.ServedFrom ending names s.sent.length s.short (decide (s.complete = s.synced)) stream := by
  induction names generalizing s stream with
  | nil =>
    obtain ⟨hintact, hclean⟩ := h _ (Value.Size.flatten_items stream)
      (Value.Size.items_ne_nil stream) 0 _ _ rfl nofun
    exact ⟨hintact, (hclean rfl).imp_left decide_eq_true⟩
  | cons fname names ih =>
    -- an exception of the first download ends the loop
    have hraised : ∀ segments : List Bytes, segments.flatten = stream →
        (∀ segment ∈ segments, segment ≠ []) → ∀ calls s',
          Downloaded env calls fname (s.rest ⟨segments, ending⟩) .raised s' → Intact s'.short := by
      intro segments hflatten hne calls s' hd
      exact (h segments hflatten hne calls _ _
        (downloads_of_ne_returned (download_of_downloaded hd) nofun) nofun).1
    have hitems := hraised _ (Value.Size.flatten_items stream) (Value.Size.items_ne_nil stream)
    refine ⟨fun hsend ↦ ?_, fun hsend ↦ ⟨fun hno hbroken ↦ ?_, ?_⟩⟩
    · have hintact := hitems 0 _ (.unsent (s := s.rest ⟨stream.map ([·]), ending⟩) hsend)
      exact hintact
    · have hstream : Conn.stream ⟨stream.map ([·]), ending⟩ = stream :=
        Value.Size.flatten_items stream
      obtain ⟨resp, conn, hread⟩ : ∃ resp conn,
          readLine 10 (Conn.stream ⟨stream.map ([·]), ending⟩).length.succ []
            ⟨stream.map ([·]), ending⟩ = (.raised, resp, conn) :=
        exists_readLine_raised List.not_mem_nil (hstream.symm ▸ hno) hbroken (Nat.lt_succ_self _)
      have hintact := hitems _ _ (.unanswered
        (s := s.rest ⟨stream.map ([·]), ending⟩) hsend hread nofun)
      exact hintact
    intro line body hstream hline
    -- the line comes byte by byte
    have hcut (segments : List Bytes) (hflatten : segments.flatten = body)
        (hne : ∀ segment ∈ segments, segment ≠ []) :
        ((line ++ [10]).map ([·]) ++ segments).flatten = stream ∧
          ∀ segment ∈ (line ++ [10]).map ([·]) ++ segments, segment ≠ [] :=
      ⟨(Value.Size.flatten_line line 10 hflatten).trans hstream.symm,
        Value.Size.items_append_ne_nil _ hne⟩
    refine ⟨fun htarget ↦ ?_, fun fpath size htarget ↦ ⟨fun hraises ↦ ?_, fun full n hends ↦ ?_⟩⟩
    · obtain ⟨hflatten, hne⟩ := hcut _ (Value.Size.flatten_items body)
        (Value.Size.items_ne_nil body)
      have hintact := hraised _ hflatten hne _ _ (.refused
        (s := s.rest ⟨(line ++ [10]).map ([·]) ++ body.map ([·]), ending⟩) hsend
        (readLine_single List.not_mem_nil hline _ ending 0) htarget)
      exact hintact
    · obtain ⟨segments, calls, got, conn, hbody, hne, hread⟩ :=
        Value.Size.exists_raised (by decide) hraises
      obtain ⟨hflatten, hne⟩ := hcut segments hbody hne
      have hintact := hraised _ hflatten hne _ _ (.stopped
        (s := s.rest ⟨(line ++ [10]).map ([·]) ++ segments, ending⟩) hsend
        (readLine_single List.not_mem_nil hline segments ending calls) htarget
        (readBody_of_le (Nat.le_add_left ..) hread nofun) nofun)
      have hshort : ((s.send (.download fname)).store fpath size got).short =
          insert (resolve fpath) s.short := short_store (s.send (.download fname)) fpath
        (iff_of_false Bool.false_ne_true (Value.Size.not_is_of_raised (by decide) hread))
      exact hshort ▸ hintact
    · obtain ⟨pre, K, hflatten, hpre, hcut⟩ := exists_cut hsend hstream hline htarget hends
      obtain ⟨hlength, hfull⟩ := Value.Size.is_of_ends (by decide) hends
      have hcounted : (s.counted fname fpath size (body.take n)).complete ≤
          (s.counted fname fpath size (body.take n)).synced :=
        complete_count_le (s := (s.send (.download fname)).store fpath size (body.take n)) hle ..
      have hclean : decide ((s.counted fname fpath size (body.take n)).complete =
          (s.counted fname fpath size (body.take n)).synced) =
            (decide (s.complete = s.synced) && full) :=
        clean_count (s := (s.send (.download fname)).store fpath size (body.take n)) hle hfull
      rw [← length_sent_counted s fname fpath size (body.take n),
        ← short_counted s fname fpath hfull, ← hclean]
      refine ih hcounted fun rest hrest hne calls o s' hloop ho ↦ ?_
      refine h (pre ++ rest) (by rw [List.flatten_append, hrest, hflatten])
        (fun segment hmem ↦ (List.mem_append.1 hmem).elim (hpre segment) (hne segment))
        (K + calls) o s' ?_ ho
      rw [downloads_of_returned (hcut rest hrest hne calls)]
      exact downloads_of_le (Nat.le_add_left calls K) hloop ho

/-! ### The whole run -/

/-- Where no file of `CLOUD_DIR` is short, each is kept or complete. -/
theorem files_of_intact (hs : Since c s) (h : Intact s.short) (path : List ℕ)
    (hpath : Below cloudDir path) :
    s.cloud.disk (resolve path) = c.disk (resolve path) ∨ s.Complete (resolve path) := by
  by_cases hopened : s.announced (resolve path) = none
  · exact Or.inl (hs.unopened _ hopened)
  · by_contra hno
    exact h path hpath ⟨hopened, fun hcomplete ↦ hno (Or.inr hcomplete)⟩

/-- Where there were no files before, the converse holds. -/
theorem intact_of_files (hs : Since c s) (hc : ∀ way, c.disk way = none)
    (h : ∀ path, Below cloudDir path →
      s.cloud.disk (resolve path) = c.disk (resolve path) ∨ s.Complete (resolve path)) :
    Intact s.short := by
  rintro path hpath ⟨hopened, hno⟩
  rcases h path hpath with hsame | hcomplete
  · exact hs.opened _ hopened (hsame.trans (hc _))
  · exact hno hcomplete

/-- A session that has opened nothing. -/
theorem since_start (conn : Conn UInt8) (sent : List Message) (synced : ℕ) (c : JuliusCloud) :
    Since c ⟨conn, sent, synced, synced, fun _ ↦ none, c⟩ :=
  ⟨fun _ _ ↦ rfl, fun _ h ↦ absurd rfl h, Nat.le_refl synced⟩

theorem short_start (conn : Conn UInt8) (sent : List Message) (synced : ℕ) (c : JuliusCloud) :
    (⟨conn, sent, synced, synced, fun _ ↦ none, c⟩ : Session).short = ∅ :=
  Set.eq_empty_iff_forall_notMem.2 fun _ h ↦ h.1 rfl

/-- What comes after the loops changes no file, and reports what was counted. -/
theorem finish_spec (h : env.finish s = (o, s')) :
    s'.short = s.short ∧ s'.complete = s.complete ∧ (Since c s → Since c s') ∧
      ((o = .returned ∧ env.Reports ∧ s'.cloud.status = .synced s.synced) ∨
        (o = .raised ∧ ¬ env.Reports)) := by
  rw [Env.finish] at h
  dsimp only at h
  split at h
  next files hsaves hlists =>
    cases h
    refine ⟨rfl, rfl, fun hs ↦ ⟨hs.unopened, hs.opened, hs.counted⟩,
      Or.inl ⟨rfl, ⟨hsaves, ?_⟩, rfl⟩⟩
    rw [hlists]
    rintro ⟨⟩
  next hno =>
    cases h
    refine ⟨rfl, rfl, fun hs ↦ ⟨hs.unopened, hs.opened, hs.counted⟩, Or.inr ⟨rfl, ?_⟩⟩
    rintro ⟨hsaves, hlists⟩
    obtain ⟨files, hfiles⟩ := Option.ne_none_iff_exists'.1 hlists
    exact hno files hsaves hfiles

/-- A `try` that is served leaves the files well. -/
theorem attempt_served {conn : Conn UInt8} (hserved : env.Served conn.ending conn.stream)
    (h : env.attempt calls conn c = (o, s)) (ho : o ≠ .waiting) :
    Since c s ∧ Intact s.short ∧
      (o = .returned → ∀ n, s.cloud.status = .synced n → n ≤ s.complete) := by
  have hstart (conn : Conn UInt8) (sent : List Message) :
      Since c ⟨conn, sent, 0, 0, fun _ ↦ none, c⟩ ∧
        Intact (⟨conn, sent, 0, 0, fun _ ↦ none, c⟩ : Session).short := by
    refine ⟨since_start conn sent 0 c, ?_⟩
    rw [short_start]
    exact fun _ _ ↦ Set.notMem_empty _
  by_cases hstarts : ∃ files, env.Starts files
  · obtain ⟨files, hstarts⟩ := hstarts
    rw [attempt_of_starts hstarts] at h
    rcases hread : readLine 10 calls [] conn with ⟨_ | _ | _, resp, conn'⟩ <;> rw [hread] at h <;>
      dsimp only at h
    · obtain ⟨line, hstream, hline, rfl, hconn⟩ := eq_of_readLine hread
      rcases huploads : env.uploads files [env.manifest files] (line ++ [10]) with
        - | ⟨synced, sent, send⟩ <;> rw [huploads] at h <;> dsimp only at h
      · cases h
        exact ⟨(hstart ..).1, (hstart ..).2, nofun⟩
      · have hs := since_start conn' sent synced c
        rcases hloop : env.downloads calls send ⟨conn', sent, synced, synced, fun _ ↦ none, c⟩ with
          ⟨o₁, s₁⟩
        have hs₁ : Since c s₁ := by
          have hs₁ : Since c (env.downloads calls send _).2 := since_downloads hs
          rwa [hloop] at hs₁
        have hserved := hserved files hstarts line _ hstream hline synced sent send huploads
        have hleft : o₁ ≠ .waiting → LeftWell env o₁ s₁ := leftWell_of_served
          (s := ⟨conn', sent, synced, synced, fun _ ↦ none, c⟩)
          (by rw [short_start, hconn, decide_eq_true rfl]; exact hserved) hs hloop
        rw [hloop] at h
        cases o₁ with
        | returned =>
          dsimp only at h
          obtain ⟨hintact, hclean⟩ := hleft nofun
          obtain ⟨hshort, hcomplete, hsince, hfinish⟩ := finish_spec h
          refine ⟨hsince hs₁, hshort ▸ hintact, fun hreturned n hn ↦ ?_⟩
          rcases hfinish with ⟨-, hreports, hstatus⟩ | ⟨rfl, -⟩
          · rw [hstatus] at hn
            cases hn
            rw [hcomplete, (hclean rfl).resolve_right fun hno ↦ hno hreports]
          · cases hreturned
        | raised =>
          cases h
          exact ⟨hs₁, (hleft nofun).1, nofun⟩
        | waiting =>
          cases h
          exact absurd rfl ho
    · cases h
      exact ⟨(hstart ..).1, (hstart ..).2, nofun⟩
    · cases h
      exact absurd rfl ho
  · rw [attempt_of_not_starts fun files h ↦ hstarts ⟨files, h⟩] at h
    cases h
    exact ⟨(hstart ..).1, (hstart ..).2, nofun⟩

/-- A run leaves what its `try` has left. -/
theorem intact_of_kept (hs : Since c s) (hc : ∀ way, c.disk way = none) {conn : Conn UInt8}
    (h : env.attempt calls conn c = (o, s)) (ho : o ≠ .waiting)
    (hkept : ∀ s', env.run calls conn c = (.returned, s') → Kept c s') :
    Intact s.short ∧ (o = .returned → ∀ n, s.cloud.status = .synced n → n ≤ s.complete) := by
  rw [Env.run, h] at hkept
  cases o with
  | returned =>
    have hkept := hkept _ rfl
    exact ⟨intact_of_files hs hc hkept.files, fun _ ↦ hkept.reports⟩
  | raised => exact ⟨intact_of_files hs hc (hkept _ rfl).files, by rintro ⟨⟩⟩
  | waiting => exact absurd rfl ho

/-- Where every run that comes to its downloads keeps the files, and there were none before, the
downloads are served. -/
theorem served_of_run {files : List LocalFile} {line body : Bytes} {synced : ℕ}
    {sent : List Message} {send : List Value} (hstarts : env.Starts files) (hline : 10 ∉ line)
    (huploads : env.uploads files [env.manifest files] (line ++ [10]) = some (synced, sent, send))
    (hc : ∀ way, c.disk way = none)
    (h : ∀ segments calls s, segments.flatten = line ++ 10 :: body →
      env.run calls ⟨segments, ending⟩ c = (.returned, s) → Kept c s) :
    env.ServedFrom ending send sent.length ∅ true body := by
  have hserved : env.ServedFrom ending send sent.length
      (⟨⟨[], ending⟩, sent, synced, synced, fun _ ↦ none, c⟩ : Session).short
      (decide (synced = synced)) body := by
    refine served_of_leftWell (s := ⟨⟨[], ending⟩, sent, synced, synced, fun _ ↦ none, c⟩)
      (Nat.le_refl synced) fun segments hflatten _ calls o s' hloop ho ↦ ?_
    have hread := readLine_single List.not_mem_nil hline segments ending calls
    have hloop := downloads_of_le (Nat.le_add_left calls (line.length + 1)) hloop ho
    have hs : Since c (env.downloads (line.length + 1 + calls) send
        ⟨⟨segments, ending⟩, sent, synced, synced, fun _ ↦ none, c⟩).2 :=
      since_downloads (since_start ..)
    have hcut : ((line ++ [10]).map ([·]) ++ segments).flatten = line ++ 10 :: body :=
      Value.Size.flatten_line line 10 hflatten
    have hattempt := attempt_of_uploads (c := c) hstarts hread huploads
    rw [show env.downloads (line.length + 1 + calls) send
      ⟨⟨segments, ending⟩, sent, synced, synced, fun _ ↦ none, c⟩ = (o, s') from hloop]
      at hs hattempt
    cases o with
    | returned =>
      rcases hfinish : env.finish s' with ⟨o₁, s₁⟩
      obtain ⟨hshort, hcomplete, hsince, hspec⟩ := finish_spec hfinish
      have ho₁ : o₁ ≠ .waiting := by
        rcases hspec with ⟨rfl, -⟩ | ⟨rfl, -⟩ <;> exact nofun
      obtain ⟨hintact, hreports⟩ := intact_of_kept (hsince hs) hc (hattempt.trans hfinish) ho₁
        fun s hrun ↦ h _ _ s hcut hrun
      refine ⟨hshort ▸ hintact, fun _ ↦ ?_⟩
      rcases hspec with ⟨hreturned, -, hstatus⟩ | ⟨-, hno⟩
      · have hle := hreports hreturned _ hstatus
        rw [hcomplete] at hle
        exact Or.inl (Nat.le_antisymm hs.counted hle)
      · exact Or.inr hno
    | raised =>
      exact ⟨(intact_of_kept hs hc hattempt nofun fun s hrun ↦ h _ _ s hcut hrun).1, nofun⟩
    | waiting => exact absurd rfl ho
  rwa [short_start, decide_eq_true rfl] at hserved

/-- What the server answers to the manifest: it sends a file. -/
def sendText : List Char := "\x7b\"send\": [\"a\"]\x7d".toList

/-- What it answers to the request: the file has two bytes. -/
def sizeText : List Char := "\x7b\"size\": 2\x7d".toList

/-- What `json.loads` makes of these texts. -/
def loadsTexts (text : List Char) : Option Value :=
  if text = sendText then some (.dict [(str "send", .list [.str (str "a")])])
  else if text = sizeText then some (.dict [(str "size", .int 2)])
  else none

/-- A device without files and without faults. -/
def emptyEnv : Env :=
  ⟨loadsTexts, [], true, some [], fun _ ↦ true, fun _ _ ↦ none, fun _ _ ↦ true, [], true, some []⟩

theorem parse?_encode (env : Env) (text : List Char) :
    env.parse? (Utf8.encode text ++ [10]) = env.loads (strip (text ++ ['\n'])) := by
  have hnewline : Utf8.encode text ++ [10] = Utf8.encode (text ++ ['\n']) := by
    rw [Utf8.encode_append]
    rfl
  rw [Env.parse?, hnewline, Utf8.decodeStrict_encode, Option.bind_some]

end JuliusOS.Cloud
