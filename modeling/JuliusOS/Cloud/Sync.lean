import JuliusOS.Foundations.Announced
import JuliusOS.Foundations.Utf8
import Mathlib.Data.Set.Insert
import Mathlib.Logic.Function.Basic

/-!
# Synchronising with the cloud server

`run` of `system/julius_cloud.py`, the thread that `sync` starts: it sends a manifest of the local
files, uploads those the server needs, and downloads those it sends, each after a header line of the
server. All that is received comes from one connection, and `recv` raises when a timeout has passed.

What the device does outside the program is an `Env`: what `json.loads` and `get_localFilesfiles`
return, and which calls fail, where that may change by the number of the messages that were sent
before. `json.dumps` of what `json.loads` returned does not raise, and neither does writing to an
open file. Files are what the way of a path leads to, without symbolic links. The texts of
exceptions, and what was sent of an upload that raised, are left out. Each loop makes at most a
given number of `recv` calls; a `run` that needs more is `waiting`.

* `downloads_of_le`: more calls do not change a run that is over;
* `downloaded_of_download`: what one round of the second loop may do.
-/

namespace JuliusOS.Cloud

open Python Socket

/-- `CLOUD_DIR`. -/
def cloudDir : List ℕ := str "/var/julius/cloud/"

/-- What `get_localFilesfiles` finds of a file; `mtime` is read nowhere. -/
structure LocalFile where
  /-- `name`. -/
  name : List ℕ
  /-- `path`. -/
  path : List ℕ
  /-- `size`. -/
  size : ℕ
  /-- `hash`. -/
  hash : List ℕ

/-- What is sent in one `sendall`. -/
inductive Message
  /-- The manifest: the host name, and names, hashes and sizes of the files. -/
  | manifest (device : List ℕ) (files : List (List ℕ × List ℕ × ℕ))
  /-- The header of an upload. -/
  | upload (name : List ℕ) (size : ℕ)
  /-- The content of the file. -/
  | data (data : Bytes)
  /-- The request of a download. -/
  | download (name : Value)

/-- The text of `status` while there is a server. -/
inductive Status
  /-- `Idle`. -/
  | idle
  /-- `Syncing...`. -/
  | syncing
  /-- `Synced n files`. -/
  | synced (n : ℕ)
  /-- `Sync error: …`. -/
  | syncError
deriving DecidableEq

/-- A `JuliusCloud` and the files of its device. -/
structure JuliusCloud where
  /-- `status`. -/
  status : Status
  /-- `syncing`. -/
  syncing : Bool
  /-- `files`. -/
  files : List LocalFile
  /-- `last_sync`. -/
  lastSync : List ℕ
  /-- The files of the device. -/
  disk : List (List ℕ) → Option Bytes

/-- What `run` finds. The numbers count the messages that were sent before. -/
structure Env where
  /-- `json.loads`, or `none` if it raises. -/
  loads : List Char → Option Value
  /-- `socket.gethostname()`. -/
  device : List ℕ
  /-- Whether the server accepts the connection. -/
  connects : Bool
  /-- What the first `get_localFilesfiles` returns, or `none` if it raises. -/
  localFiles : Option (List LocalFile)
  /-- Whether `sendall` succeeds. -/
  sendall : ℕ → Bool
  /-- What `open(path, "rb").read()` returns, or `none` if it raises. -/
  reads : ℕ → List ℕ → Option Bytes
  /-- Whether `open(path, "wb")` succeeds. -/
  opens : ℕ → List ℕ → Bool
  /-- `time.strftime`. -/
  now : List ℕ
  /-- Whether `save_config` succeeds. -/
  saves : Bool
  /-- What the second `get_localFilesfiles` returns, or `none` if it raises. -/
  lists : Option (List LocalFile)

/-- The state of `run`. -/
structure Session where
  /-- `s`. -/
  conn : Conn UInt8
  /-- What was sent. -/
  sent : List Message
  /-- `synced`. -/
  synced : ℕ
  /-- The transfers that were complete (ghost). -/
  complete : ℕ
  /-- The size that was announced when a file was last opened for writing (ghost). -/
  announced : List (List ℕ) → Option Value.Size
  /-- The object. -/
  cloud : JuliusCloud

/-- A message was sent. -/
def Session.send (s : Session) (message : Message) : Session :=
  { s with sent := s.sent ++ [message] }

/-- This is left of what the server sends. -/
def Session.rest (s : Session) (conn : Conn UInt8) : Session := { s with conn }

/-- A file for which `size` was announced was opened for writing, and has this content now. -/
def Session.store (s : Session) (path : List ℕ) (size : Value.Size) (content : Bytes) : Session :=
  { s with
    announced := Function.update s.announced (resolve path) (some size)
    cloud.disk := Function.update s.cloud.disk (resolve path) (some content) }

/-- A transfer is over that was to bring `size`. -/
def Session.count (s : Session) (size : Value.Size) (received : ℕ) : Session :=
  { s with
    synced := s.synced + 1
    complete := if size.Is received then s.complete + 1 else s.complete }

variable (env : Env) (calls : ℕ)

/-- A line as a value: `json.loads(line.decode().strip())`. -/
def Env.parse? (line : Bytes) : Option Value :=
  (Utf8.decodeStrict line).bind fun text ↦ env.loads (strip text)

/-- The values of `for fname in manifest.get(key, [])`. -/
def names? (key : List ℕ) (manifest : Value) : Option (List Value) :=
  (Value.get key (.list []) manifest).bind Value.elems

/-- One round of the loop over `need`: `synced` and what was sent, or `none` if it raises. -/
def Env.upload (localFiles : List LocalFile) (state : ℕ × List Message) (fname : Value) :
    Option (ℕ × List Message) :=
  match localFiles.find? fun f ↦ fname.isStr f.name with
  | none => some state
  | some lf =>
    let (synced, sent) := state
    (env.reads sent.length lf.path).bind fun data ↦
      if env.sendall sent.length ∧ env.sendall (sent.length + 1) then
        some (synced + 1, sent ++ [.upload lf.name data.length, .data data])
      else none

/-- From the reply to the manifest to the loop over `send`: `synced`, what was sent, and the values
of that loop, or `none` if it raises. -/
def Env.uploads (localFiles : List LocalFile) (sent : List Message) (resp : Bytes) :
    Option (ℕ × List Message × List Value) :=
  (env.parse? resp).bind fun manifest ↦
    (names? (str "need") manifest).bind fun need ↦
      (need.foldlM (env.upload localFiles) (0, sent)).bind fun (synced, sent) ↦
        (names? (str "send") manifest).bind fun send ↦ some (synced, sent, send)

/-- `finfo["size"]`; where that raises, so does the comparison of which it is a part. -/
def announced (finfo : Value) : Value.Size :=
  ((finfo.item? (str "size")).map Value.size).getD .other

/-- The path that is opened for a download, and the size that is announced, from the line that
answers the request; `none` if anything up to `open` raises. -/
def Env.target? (k : ℕ) (fname : Value) (resp : Bytes) : Option (List ℕ × Value.Size) :=
  (env.parse? resp).bind fun finfo ↦
    match fname with
    | .str name =>
      if env.opens k (join cloudDir name) then some (join cloudDir name, announced finfo) else none
    | _ => none

/-- One round of the loop over `send`. -/
def Env.download (fname : Value) (s : Session) : Outcome × Session :=
  if env.sendall s.sent.length then
    match readLine 10 calls [] s.conn with
    | (.returned, resp, conn) =>
      match env.target? s.sent.length fname resp with
      | none => (.raised, (s.send (.download fname)).rest conn)
      | some (fpath, size) =>
        match readBody (size.wants 4096) calls [] conn with
        | (.returned, got, conn) =>
          (.returned,
            (((s.send (.download fname)).rest conn).store fpath size got).count size got.length)
        | (outcome, got, conn) =>
          (outcome, ((s.send (.download fname)).rest conn).store fpath size got)
    | (outcome, _, conn) => (outcome, (s.send (.download fname)).rest conn)
  else (.raised, s)

/-- The loop over `send`. -/
def Env.downloads : List Value → Session → Outcome × Session
  | [], s => (.returned, s)
  | fname :: names, s =>
    match env.download calls fname s with
    | (.returned, s) => Env.downloads names s
    | (outcome, s) => (outcome, s)

/-- What comes after the loops. -/
def Env.finish (s : Session) : Outcome × Session :=
  let s : Session := { s with cloud.lastSync := env.now }
  match env.saves, env.lists with
  | true, some files =>
    (.returned, { s with cloud.files := files, cloud.status := .synced s.synced })
  | _, _ => (.raised, s)

/-- The manifest. -/
def Env.manifest (files : List LocalFile) : Message :=
  .manifest env.device (files.map fun f ↦ (f.name, f.hash, f.size))

/-- The `try` of `run`. -/
def Env.attempt (conn : Conn UInt8) (c : JuliusCloud) : Outcome × Session :=
  match env.connects, env.localFiles, env.sendall 0 with
  | true, some files, true =>
    match readLine 10 calls [] conn with
    | (.returned, resp, conn) =>
      match env.uploads files [env.manifest files] resp with
      | none => (.raised, ⟨conn, [env.manifest files], 0, 0, fun _ ↦ none, c⟩)
      | some (synced, sent, send) =>
        match env.downloads calls send ⟨conn, sent, synced, synced, fun _ ↦ none, c⟩ with
        | (.returned, s) => env.finish s
        | (outcome, s) => (outcome, s)
    | (outcome, _, conn) => (outcome, ⟨conn, [env.manifest files], 0, 0, fun _ ↦ none, c⟩)
  | _, _, _ => (.raised, ⟨conn, [], 0, 0, fun _ ↦ none, c⟩)

/-- `run`. -/
def Env.run (conn : Conn UInt8) (c : JuliusCloud) : Outcome × Session :=
  match env.attempt calls conn c with
  | (.waiting, s) => (.waiting, s)
  | (.raised, s) => (.returned, { s with cloud.status := .syncError, cloud.syncing := false })
  | (.returned, s) => (.returned, { s with cloud.syncing := false })

/-! ### One download -/

variable {env calls} {fname : Value} {names : List Value} {s s' : Session} {o : Outcome}

theorem announced_store (s : Session) (fpath : List ℕ) (size : Value.Size) (content : Bytes) :
    (s.store fpath size content).announced =
      Function.update s.announced (resolve fpath) (some size) := rfl

theorem disk_store (s : Session) (fpath : List ℕ) (size : Value.Size) (content : Bytes) :
    (s.store fpath size content).cloud.disk =
      Function.update s.cloud.disk (resolve fpath) (some content) := rfl

/-- The session after a download that was counted, apart from the connection. -/
def Session.counted (s : Session) (fname : Value) (fpath : List ℕ) (size : Value.Size)
    (got : Bytes) : Session :=
  ((s.send (.download fname)).store fpath size got).count size got.length

theorem length_sent_counted (s : Session) (fname : Value) (fpath : List ℕ) (size : Value.Size)
    (got : Bytes) : (s.counted fname fpath size got).sent.length = s.sent.length + 1 :=
  List.length_append

/-- What one round of the loop over `send` may do. -/
inductive Downloaded (env : Env) (calls : ℕ) (fname : Value) (s : Session) :
    Outcome → Session → Prop
  | unsent (hsend : env.sendall s.sent.length = false) : Downloaded env calls fname s .raised s
  | unanswered {o : Outcome} {resp : Bytes} {conn : Conn UInt8}
    (hsend : env.sendall s.sent.length = true)
    (hread : readLine 10 calls [] s.conn = (o, resp, conn)) (ho : o ≠ .returned) :
    Downloaded env calls fname s o ((s.send (.download fname)).rest conn)
  | refused {resp : Bytes} {conn : Conn UInt8} (hsend : env.sendall s.sent.length = true)
    (hread : readLine 10 calls [] s.conn = (.returned, resp, conn))
    (htarget : env.target? s.sent.length fname resp = none) :
    Downloaded env calls fname s .raised ((s.send (.download fname)).rest conn)
  | stopped {o : Outcome} {resp : Bytes} {conn conn' : Conn UInt8} {fpath : List ℕ}
    {size : Value.Size} {got : Bytes} (hsend : env.sendall s.sent.length = true)
    (hread : readLine 10 calls [] s.conn = (.returned, resp, conn))
    (htarget : env.target? s.sent.length fname resp = some (fpath, size))
    (hbody : readBody (size.wants 4096) calls [] conn = (o, got, conn')) (ho : o ≠ .returned) :
    Downloaded env calls fname s o (((s.send (.download fname)).rest conn').store fpath size got)
  | counted {resp : Bytes} {conn conn' : Conn UInt8} {fpath : List ℕ} {size : Value.Size}
    {got : Bytes} (hsend : env.sendall s.sent.length = true)
    (hread : readLine 10 calls [] s.conn = (.returned, resp, conn))
    (htarget : env.target? s.sent.length fname resp = some (fpath, size))
    (hbody : readBody (size.wants 4096) calls [] conn = (.returned, got, conn')) :
    Downloaded env calls fname s .returned ((s.counted fname fpath size got).rest conn')

/-- **One download.** -/
theorem downloaded_of_download (h : env.download calls fname s = (o, s')) :
    Downloaded env calls fname s o s' := by
  rw [Env.download] at h
  by_cases hsend : env.sendall s.sent.length = true
  · rw [if_pos hsend] at h
    rcases hread : readLine 10 calls [] s.conn with ⟨_ | _ | _, resp, conn⟩ <;> rw [hread] at h <;>
      dsimp only at h
    · rcases htarget : env.target? s.sent.length fname resp with - | ⟨fpath, size⟩ <;>
        rw [htarget] at h <;> dsimp only at h
      · obtain ⟨rfl, rfl⟩ := Prod.mk.inj h
        exact .refused hsend hread htarget
      · rcases hbody : readBody (size.wants 4096) calls [] conn with ⟨_ | _ | _, got, conn'⟩ <;>
          rw [hbody] at h <;> obtain ⟨rfl, rfl⟩ := Prod.mk.inj h
        · exact .counted hsend hread htarget hbody
        · exact .stopped hsend hread htarget hbody nofun
        · exact .stopped hsend hread htarget hbody nofun
    · obtain ⟨rfl, rfl⟩ := Prod.mk.inj h
      exact .unanswered hsend hread nofun
    · obtain ⟨rfl, rfl⟩ := Prod.mk.inj h
      exact .unanswered hsend hread nofun
  · rw [if_neg hsend] at h
    obtain ⟨rfl, rfl⟩ := Prod.mk.inj h
    exact .unsent (Bool.not_eq_true _ ▸ hsend)

/-- Each of these it does. -/
theorem download_of_downloaded (h : Downloaded env calls fname s o s') :
    env.download calls fname s = (o, s') := by
  rw [Env.download]
  cases h with
  | unsent hsend => rw [if_neg (Bool.not_eq_true _ ▸ hsend)]
  | unanswered hsend hread ho =>
    rw [if_pos hsend, hread]
    cases o with
    | returned => exact absurd rfl ho
    | raised => rfl
    | waiting => rfl
  | refused hsend hread htarget =>
    rw [if_pos hsend, hread]
    dsimp only
    rw [htarget]
  | stopped hsend hread htarget hbody ho =>
    rw [if_pos hsend, hread]
    dsimp only
    rw [htarget]
    dsimp only
    rw [hbody]
    cases o with
    | returned => exact absurd rfl ho
    | raised => rfl
    | waiting => rfl
  | counted hsend hread htarget hbody =>
    rw [if_pos hsend, hread]
    dsimp only
    rw [htarget]
    dsimp only
    rw [hbody]
    rfl

/-- The loop, after a download that was counted. -/
theorem downloads_of_returned (h : env.download calls fname s = (.returned, s')) :
    env.downloads calls (fname :: names) s = env.downloads calls names s' := by
  rw [Env.downloads, h]

/-- The loop, after another one. -/
theorem downloads_of_ne_returned (h : env.download calls fname s = (o, s')) (ho : o ≠ .returned) :
    env.downloads calls (fname :: names) s = (o, s') := by
  rw [Env.downloads, h]
  cases o with
  | returned => exact absurd rfl ho
  | raised => rfl
  | waiting => rfl

/-- What every download preserves, the loop preserves. -/
theorem downloads_preserves {P : Session → Prop}
    (hP : ∀ fname s o s', Downloaded env calls fname s o s' → P s → P s') (h : P s) :
    P (env.downloads calls names s).2 := by
  induction names generalizing s with
  | nil => exact h
  | cons fname names ih =>
    rcases hd : env.download calls fname s with ⟨o, s'⟩
    have hstep := hP fname s o s' (downloaded_of_download hd) h
    by_cases ho : o = .returned
    · subst ho
      rw [downloads_of_returned hd]
      exact ih hstep
    · rw [downloads_of_ne_returned hd ho]
      exact hstep

section Streams

variable {stream line body : Bytes} {ending : Ending} {fpath : List ℕ} {size : Value.Size} {n : ℕ}
  {full : Bool}

/-- The line that answers a request, where one was read. -/
theorem eq_of_readLine {conn conn' : Conn UInt8} {resp : Bytes}
    (hread : readLine 10 calls [] conn = (.returned, resp, conn')) :
    ∃ line, conn.stream = line ++ 10 :: conn'.stream ∧ 10 ∉ line ∧ resp = line ++ [10] ∧
      conn'.ending = conn.ending := by
  obtain ⟨line, hline, rfl, hstream, hending⟩ := readLine_returned List.not_mem_nil hread
  exact ⟨line, hstream, hline, by rw [List.nil_append], hending⟩

/-- A line is read, where there is one. -/
theorem readLine_ne_waiting {conn : Conn UInt8} (hmem : 10 ∈ conn.stream)
    (hcalls : conn.stream.length < calls) : (readLine 10 calls [] conn).1 = .returned := by
  obtain ⟨line, body, hstream, hline⟩ := List.eq_append_cons_of_mem hmem
  rw [hstream, List.length_append, List.length_cons] at hcalls
  have hline' : line.length < calls := by omega
  obtain ⟨conn', hread, -⟩ := exists_readLine List.not_mem_nil hline hstream hline'
  rw [hread]

/-- **For some cut a download is counted**, and leaves what comes after it as it comes. -/
theorem exists_cut (hsend : env.sendall s.sent.length = true)
    (hstream : stream = line ++ 10 :: body) (hline : 10 ∉ line)
    (htarget : env.target? s.sent.length fname (line ++ [10]) = some (fpath, size))
    (hends : size.ends 4096 body.length ending = some (full, n)) :
    ∃ pre K, pre.flatten ++ body.drop n = stream ∧ (∀ segment ∈ pre, segment ≠ []) ∧
      ∀ rest, rest.flatten = body.drop n → (∀ segment ∈ rest, segment ≠ []) → ∀ calls,
        env.download (K + calls) fname (s.rest ⟨pre ++ rest, ending⟩) =
          (.returned, (s.counted fname fpath size (body.take n)).rest ⟨rest, ending⟩) := by
  obtain ⟨pre, K, hpre, hne, hserves⟩ := Value.Size.serves_of_ends (by decide) hends
  refine ⟨(line ++ [10]).map ([·]) ++ pre, line.length + 1 + K, ?_,
    Value.Size.items_append_ne_nil _ hne, ?_⟩
  · rw [Value.Size.flatten_line line 10 hpre, List.append_assoc, List.cons_append,
      List.take_append_drop, hstream]
  · intro rest hrest hne' calls
    have hread := readLine_single List.not_mem_nil hline (pre ++ rest) ending (K + calls)
    have hbody := hserves rest hrest hne' (line.length + 1 + calls)
    rw [← Nat.add_assoc] at hread
    rw [show K + (line.length + 1 + calls) = line.length + 1 + K + calls by omega] at hbody
    rw [List.append_assoc]
    exact download_of_downloaded
      (s := s.rest ⟨(line ++ [10]).map ([·]) ++ (pre ++ rest), ending⟩)
      (.counted hsend hread htarget hbody)

end Streams

/-! ### More calls -/

theorem download_of_le {calls' : ℕ} (hle : calls ≤ calls')
    (h : env.download calls fname s = (o, s')) (ho : o ≠ .waiting) :
    env.download calls' fname s = (o, s') := by
  refine download_of_downloaded ?_
  cases downloaded_of_download h with
  | unsent hsend => exact .unsent hsend
  | unanswered hsend hread hne => exact .unanswered hsend (readLine_of_le hle hread ho) hne
  | refused hsend hread htarget => exact .refused hsend (readLine_of_le hle hread nofun) htarget
  | stopped hsend hread htarget hbody hne =>
    exact .stopped hsend (readLine_of_le hle hread nofun) htarget (readBody_of_le hle hbody ho) hne
  | counted hsend hread htarget hbody =>
    exact .counted hsend (readLine_of_le hle hread nofun) htarget (readBody_of_le hle hbody nofun)

/-- **More calls do not change a loop that is over.** -/
theorem downloads_of_le {calls' : ℕ} (hle : calls ≤ calls')
    (h : env.downloads calls names s = (o, s')) (ho : o ≠ .waiting) :
    env.downloads calls' names s = (o, s') := by
  induction names generalizing s with
  | nil => exact h
  | cons fname names ih =>
    rcases hd : env.download calls fname s with ⟨o₁, s₁⟩
    by_cases ho₁ : o₁ = .returned
    · subst ho₁
      rw [downloads_of_returned hd] at h
      rw [downloads_of_returned (download_of_le hle hd nofun)]
      exact ih h
    · rw [downloads_of_ne_returned hd ho₁] at h
      cases h
      exact downloads_of_ne_returned (download_of_le hle hd ho) ho₁

/-! ### The whole run -/

/-- The first `sendall` succeeds, with these local files. -/
def Env.Starts (env : Env) (files : List LocalFile) : Prop :=
  env.connects = true ∧ env.localFiles = some files ∧ env.sendall 0 = true

variable {files : List LocalFile} {conn conn' : Conn UInt8} {c : JuliusCloud}

theorem attempt_of_starts (h : env.Starts files) :
    env.attempt calls conn c =
      match readLine 10 calls [] conn with
      | (.returned, resp, conn) =>
        match env.uploads files [env.manifest files] resp with
        | none => (.raised, ⟨conn, [env.manifest files], 0, 0, fun _ ↦ none, c⟩)
        | some (synced, sent, send) =>
          match env.downloads calls send ⟨conn, sent, synced, synced, fun _ ↦ none, c⟩ with
          | (.returned, s) => env.finish s
          | (outcome, s) => (outcome, s)
      | (outcome, _, conn) => (outcome, ⟨conn, [env.manifest files], 0, 0, fun _ ↦ none, c⟩) := by
  rw [Env.attempt, h.1, h.2.1, h.2.2]

/-- Where nothing starts, an exception is raised before anything is received. -/
theorem attempt_of_not_starts (h : ∀ files, ¬ env.Starts files) :
    env.attempt calls conn c = (.raised, ⟨conn, [], 0, 0, fun _ ↦ none, c⟩) := by
  rw [Env.attempt]
  split
  next hconnects hfiles hsend => exact absurd ⟨hconnects, hfiles, hsend⟩ (h _)
  next => rfl

/-- A run that waits for the reply to its manifest. -/
theorem attempt_of_waiting (h : env.Starts files)
    (hread : (readLine 10 calls [] conn).1 = .waiting) :
    (env.attempt calls conn c).1 = .waiting := by
  rw [attempt_of_starts h]
  rcases hr : readLine 10 calls [] conn with ⟨o, resp, conn'⟩
  rw [hr] at hread
  obtain rfl : o = .waiting := hread
  rfl

/-- A run that comes to its downloads. -/
theorem attempt_of_uploads {resp : Bytes} {synced : ℕ} {sent : List Message} {send : List Value}
    (h : env.Starts files) (hread : readLine 10 calls [] conn = (.returned, resp, conn'))
    (huploads : env.uploads files [env.manifest files] resp = some (synced, sent, send)) :
    env.attempt calls conn c =
      match env.downloads calls send ⟨conn', sent, synced, synced, fun _ ↦ none, c⟩ with
      | (.returned, s) => env.finish s
      | (outcome, s) => (outcome, s) := by
  rw [attempt_of_starts h, hread]
  dsimp only
  rw [huploads]

theorem finish_ne_waiting (env : Env) (s : Session) : (env.finish s).1 ≠ .waiting := by
  rw [Env.finish]
  dsimp only
  split <;> exact nofun

/-- A run is over exactly if its `try` is. -/
theorem run_returned_iff :
    (∃ s, env.run calls conn c = (.returned, s) ∧ s.cloud.syncing = false) ↔
      (env.attempt calls conn c).1 ≠ .waiting := by
  rw [Env.run]
  rcases env.attempt calls conn c with ⟨_ | _ | _, s⟩
  · exact iff_of_true ⟨_, rfl, rfl⟩ nofun
  · exact iff_of_true ⟨_, rfl, rfl⟩ nofun
  · refine iff_of_false ?_ fun h ↦ h rfl
    rintro ⟨s', h, -⟩
    cases h

end JuliusOS.Cloud
