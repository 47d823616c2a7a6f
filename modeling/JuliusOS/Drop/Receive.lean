import JuliusOS.Foundations.Announced
import JuliusOS.Foundations.JsonWriter
import Mathlib.Logic.Function.Basic

/-!
# Receiving files

The receiver of `system/julius_drop.py`: `handle_receive`, which reads a header line and then as
many bytes as the header announces, and the loop of `start_receiver` around it. The name and the
size come from the peer, who may send anything and close at any point.

`json.loads` is a parameter, `none` where it raises; so is which paths `open(…, "wb")` can open.
Writing to an open file succeeds. The file system maps the way to a file, as the text of a path
gives it, to the content; there are no symbolic links. The texts of exceptions are left out. Each
loop makes at most a given number of `recv` calls; a function that needs more is `waiting`.

* `receive_iff`: the receiver comes back to `accept` exactly if every peer sends a newline;
* `receives_safely_iff`: what the header has to say for `handle_receive` to be safe.
-/

namespace JuliusOS.Drop

open Python Socket

/-- `DROP_DIR`. -/
def dropDir : List ℕ := str "/var/julius/drops/"

/-- The `direction` of a transfer. -/
inductive Direction
  /-- `received`. -/
  | received
  /-- `sent`. -/
  | sent
deriving DecidableEq

/-- An entry of `transfers`. Its `status` is always `done`. -/
structure Transfer where
  /-- `name`. -/
  name : List ℕ
  /-- `from` or `to`. -/
  peer : List ℕ
  /-- `size`. -/
  size : Value
  /-- `direction`. -/
  direction : Direction

/-- The text of `status`. -/
inductive Status
  /-- `Ready`. -/
  | ready
  /-- `Received …`. -/
  | received (name : List ℕ)
  /-- `Receive error: …`. -/
  | receiveError
  /-- `Sent …`. -/
  | sent (name : List ℕ)
  /-- `Send error: …`. -/
  | sendError
deriving DecidableEq

/-- A `JuliusDrop` and the files of its device. -/
structure JuliusDrop where
  /-- `transfers`. -/
  transfers : List Transfer
  /-- `status`. -/
  status : Status
  /-- The files. -/
  files : List (List ℕ) → Option Bytes
  /-- The paths that were opened for writing (ghost). -/
  opened : List (List ℕ)

/-- A file that was opened for writing has this content now. -/
def JuliusDrop.write (d : JuliusDrop) (path : List ℕ) (content : Bytes) : JuliusDrop :=
  { d with
    files := Function.update d.files (resolve path) (some content)
    opened := d.opened ++ [path] }

section Receiver

variable (loads : List Char → Option Value) (opens : List ℕ → Bool)

/-- `info["name"]` and `info["size"]`, up to where the name is joined to a path; `none` where
anything of it raises. -/
def fileInfo (info : Value) : Option (List ℕ × Value) :=
  match info.item? (str "name"), info.item? (str "size") with
  | some (.str filename), some filesize => some (filename, filesize)
  | _, _ => none

/-- The `dict` that was written. -/
def ofFields (fields : List (List ℕ × Json.Scalar)) : Value :=
  .dict (fields.map fun (key, v) ↦
    (key, match v with
      | .string s => .str s
      | .int z => .int z))

/-- What the header says: `json.loads(header.decode().strip())` and what is read from it. -/
def header? (header : Bytes) : Option (List ℕ × Value) :=
  (Utf8.decodeStrict header).bind fun text ↦ (loads (strip text)).bind fileInfo

/-- `handle_receive` after the header. -/
def receiveFile (calls : ℕ) (addr : List ℕ) (header : Bytes) (conn : Conn UInt8) (d : JuliusDrop) :
    Outcome × JuliusDrop :=
  match header? loads header with
  | none => (.returned, { d with status := .receiveError })
  | some (filename, filesize) =>
    if opens (join dropDir filename) then
      match readBody (filesize.size.wants 4096) calls [] conn with
      | (.returned, got, _) =>
        let d := d.write (join dropDir filename) got
        (.returned, { d with
          transfers := d.transfers ++ [⟨filename, addr, filesize, .received⟩]
          status := .received filename })
      | (.raised, got, _) =>
        (.returned, { d.write (join dropDir filename) got with status := .receiveError })
      | (.waiting, got, _) => (.waiting, d.write (join dropDir filename) got)
    else (.returned, { d with status := .receiveError })

/-- `handle_receive`. -/
def handleReceive (calls : ℕ) (addr : List ℕ) (conn : Conn UInt8) (d : JuliusDrop) :
    Outcome × JuliusDrop :=
  match readLine 10 calls [] conn with
  | (.returned, header, conn) => receiveFile loads opens calls addr header conn d
  | (.raised, _, _) => (.returned, { d with status := .receiveError })
  | (.waiting, _, _) => (.waiting, d)

/-- The loop of `start_receiver`, for the connections that come; when it has handled them, it calls
`accept` again. -/
def receive (calls : ℕ) : List (List ℕ × Conn UInt8) → JuliusDrop → Outcome × JuliusDrop
  | [], d => (.returned, d)
  | (addr, conn) :: conns, d =>
    match handleReceive loads opens calls addr conn d with
    | (.waiting, d) => (.waiting, d)
    | (_, d) => receive calls conns d

end Receiver

variable {loads : List Char → Option Value} {opens : List ℕ → Bool} {calls : ℕ} {addr : List ℕ}
  {conn : Conn UInt8} {d d' : JuliusDrop} {stream line body : Bytes} {ending : Ending}

/-- A header that was written by `json.dumps`. -/
theorem header?_dumps (loads : List Char → Option Value) (fields : List (List ℕ × Json.Scalar)) :
    header? loads (Utf8.encode (Json.dumps fields) ++ [10]) =
      (loads (Json.dumps fields)).bind fileInfo := by
  have hnewline : Utf8.encode (Json.dumps fields) ++ [10] =
      Utf8.encode (Json.dumps fields ++ ['\n']) := by
    rw [Utf8.encode_append]
    rfl
  rw [header?, hnewline, Utf8.decodeStrict_encode, Option.bind_some, Json.dumps,
    strip_newline (by decide) (by decide)]

/-! ### Whether it ends -/

theorem handleReceive_of_readLine {header : Bytes} {conn' : Conn UInt8}
    (h : readLine 10 calls [] conn = (.returned, header, conn')) :
    handleReceive loads opens calls addr conn d =
      receiveFile loads opens calls addr header conn' d := by
  rw [handleReceive, h]

/-- After the header it ends. -/
theorem receiveFile_returned (hcalls : conn.stream.length < calls) (header : Bytes) :
    ∃ d', receiveFile loads opens calls addr header conn d = (.returned, d') := by
  rw [receiveFile]
  split
  next => exact ⟨_, rfl⟩
  next filename filesize hheader =>
    split
    next hopen =>
      have hask : ∀ r n, filesize.size.wants 4096 r = .ask n → 0 < n := fun _ _ ↦
        Value.Size.pos_of_wants (by decide)
      have hne : (readBody (filesize.size.wants 4096) calls [] conn).1 ≠ .waiting :=
        readBody_ne_waiting hask hcalls
      split
      next => exact ⟨_, rfl⟩
      next => exact ⟨_, rfl⟩
      next hwait =>
        rw [hwait] at hne
        exact absurd rfl hne
    next => exact ⟨_, rfl⟩

/-- A header that was written by `json.dumps` is read, however it comes. -/
theorem exists_receiveFile {fields : List (List ℕ × Json.Scalar)}
    (hstream : conn.stream = Utf8.encode (Json.dumps fields) ++ 10 :: body)
    (hcalls : conn.stream.length < calls) :
    ∃ conn' : Conn UInt8, conn'.stream = body ∧ conn'.ending = conn.ending ∧
      ∀ loads opens addr d, handleReceive loads opens calls addr conn d =
        receiveFile loads opens calls addr (Utf8.encode (Json.dumps fields) ++ [10]) conn' d := by
  have hline : (Utf8.encode (Json.dumps fields)).length < calls := by
    rw [hstream, List.length_append] at hcalls
    omega
  obtain ⟨conn', hread, hbody, hending⟩ := exists_readLine List.not_mem_nil
    (Json.not_newline_mem_encode_dumps fields) hstream hline
  exact ⟨conn', hbody, hending, fun _ _ _ _ ↦ handleReceive_of_readLine hread⟩

/-- A peer that has sent a newline is handled. -/
theorem handleReceive_returned (hmem : 10 ∈ conn.stream) (hcalls : conn.stream.length < calls) :
    ∃ d', handleReceive loads opens calls addr conn d = (.returned, d') := by
  obtain ⟨line, body, hstream, hline⟩ := List.eq_append_cons_of_mem hmem
  rw [hstream, List.length_append, List.length_cons] at hcalls
  have hline' : line.length < calls := by omega
  obtain ⟨conn', hread, hbody, -⟩ := exists_readLine List.not_mem_nil hline hstream hline'
  have hbody' : conn'.stream.length < calls := by
    rw [hbody]
    omega
  rw [handleReceive_of_readLine hread]
  exact receiveFile_returned hbody' _

/-- A peer that has closed without one is waited for. -/
theorem handleReceive_waiting (hno : 10 ∉ conn.stream) (hending : conn.ending = .closed) :
    handleReceive loads opens calls addr conn d = (.waiting, d) := by
  have hwait : (readLine 10 calls [] conn).1 = .waiting :=
    readLine_waiting List.not_mem_nil hno hending
  rw [handleReceive]
  split
  next h => rw [h] at hwait; cases hwait
  next h => rw [h] at hwait; cases hwait
  next => rfl

/-- **The receiver comes back to `accept` exactly if every peer sends a newline** before it
closes. -/
theorem receive_iff {conns : List (List ℕ × Conn UInt8)}
    (hclosed : ∀ c ∈ conns, c.2.ending = .closed) :
    (∃ calls d', receive loads opens calls conns d = (.returned, d')) ↔
      ∀ c ∈ conns, 10 ∈ c.2.stream := by
  constructor
  · rintro ⟨calls, d', h⟩
    induction conns generalizing d with
    | nil => exact nofun
    | cons c conns ih =>
      obtain ⟨hc, hconns⟩ := List.forall_mem_cons.1 hclosed
      rw [receive] at h
      have hmem : 10 ∈ c.2.stream := by
        by_contra hno
        rw [handleReceive_waiting hno hc] at h
        cases h
      refine List.forall_mem_cons.2 ⟨hmem, ?_⟩
      split at h
      next => cases h
      next => exact ih hconns h
  · intro hmem
    -- what the next connections need does not depend on what this one has left
    suffices hall : ∃ bound, ∀ calls, bound ≤ calls → ∀ d,
        ∃ d', receive loads opens calls conns d = (.returned, d') by
      obtain ⟨bound, hbound⟩ := hall
      exact ⟨bound, hbound bound (Nat.le_refl bound) d⟩
    induction conns with
    | nil => exact ⟨0, fun _ _ d ↦ ⟨d, rfl⟩⟩
    | cons c conns ih =>
      obtain ⟨-, hconns⟩ := List.forall_mem_cons.1 hclosed
      obtain ⟨hc, hmem⟩ := List.forall_mem_cons.1 hmem
      obtain ⟨bound, hbound⟩ := ih hconns hmem
      refine ⟨max (c.2.stream.length + 1) bound, fun calls hle d ↦ ?_⟩
      obtain ⟨d', hd'⟩ : ∃ d', handleReceive loads opens calls c.1 c.2 d = (.returned, d') :=
        handleReceive_returned hc (Nat.le_trans (Nat.le_max_left ..) hle)
      rw [receive, hd']
      exact hbound calls (Nat.le_trans (Nat.le_max_right ..) hle) d'

/-! ### What is safe -/

/-- A call of `handle_receive` with this stream was safe: it has opened only entries of `DROP_DIR`,
and recorded a transfer only where as many bytes as this says were received and are in the file. -/
structure Safe (stream : Bytes) (d d' : JuliusDrop) : Prop where
  /-- What it opens. -/
  opened : ∀ path ∈ d'.opened.drop d.opened.length, Directly dropDir path
  /-- What it records. -/
  done : ∀ t ∈ d'.transfers.drop d.transfers.length, ∃ line got rest,
    stream = line ++ 10 :: (got ++ rest) ∧ d'.files (resolve (join dropDir t.name)) = some got ∧
      t.size.size.Is got.length

/-- What the peer sends is harmless: the header names an entry of `DROP_DIR`, or what cannot be
opened, and then announces a size for which the loop cannot return with less. -/
def Harmless (loads : List Char → Option Value) (opens : List ℕ → Bool) (stream : Bytes)
    (ending : Ending) : Prop :=
  ∀ line body filename filesize, stream = line ++ 10 :: body → 10 ∉ line →
    header? loads (line ++ [10]) = some (filename, filesize) →
    opens (join dropDir filename) = true →
    Directly dropDir (join dropDir filename) ∧ filesize.size.Honest 4096 body.length ending

/-- Nothing was opened or recorded. -/
theorem Safe.refl (stream : Bytes) {d d' : JuliusDrop} (hopened : d'.opened = d.opened)
    (htransfers : d'.transfers = d.transfers) : Safe stream d d' where
  opened path hpath := by
    rw [hopened, List.drop_length] at hpath
    cases hpath
  done t ht := by
    rw [htransfers, List.drop_length] at ht
    cases ht

/-- A file was opened and nothing was recorded. -/
theorem Safe.write {path : List ℕ} (hpath : Directly dropDir path) (stream content : Bytes)
    {status : Status} : Safe stream d { d.write path content with status } where
  opened path' hpath' := by
    obtain rfl : path' = path := by simpa [JuliusDrop.write] using hpath'
    exact hpath
  done t ht := by
    rw [show ({ d.write path content with status } : JuliusDrop).transfers = d.transfers from rfl,
      List.drop_length] at ht
    cases ht

/-- **What `handle_receive` does after the header is safe.** -/
theorem safe_receiveFile {header : Bytes}
    (hsafe : ∀ filename filesize, header? loads header = some (filename, filesize) →
      opens (join dropDir filename) = true →
      Directly dropDir (join dropDir filename) ∧
        filesize.size.Honest 4096 conn.stream.length conn.ending)
    (line : Bytes) :
    Safe (line ++ 10 :: conn.stream) d (receiveFile loads opens calls addr header conn d).2 := by
  rw [receiveFile]
  rcases hheader : header? loads header with - | ⟨filename, filesize⟩
  · exact .refl _ rfl rfl
  dsimp only
  by_cases hopen : opens (join dropDir filename) = true
  · rw [if_pos hopen]
    obtain ⟨hpath, hhonest⟩ := hsafe filename filesize hheader hopen
    rcases hread : readBody (filesize.size.wants 4096) calls [] conn with ⟨_ | _ | _, got, conn'⟩
    · obtain ⟨full, hends, hfull, hstream, -⟩ :=
        Value.Size.ends_of_readBody (by decide) hread
      have his := hfull.1 ((Value.Size.honest_iff (by decide)).1 hhonest full _ hends)
      refine ⟨fun path hmem ↦ ?_, fun t ht ↦ ?_⟩
      · obtain rfl : path = join dropDir filename := by simpa [JuliusDrop.write] using hmem
        exact hpath
      · obtain rfl : t = ⟨filename, addr, filesize, .received⟩ := by
          simpa [JuliusDrop.write] using ht
        exact ⟨line, got, conn'.stream, by rw [hstream], Function.update_self .., his⟩
    · exact .write hpath _ got
    · exact .write hpath _ got
  · rw [if_neg hopen]
    exact .refl _ rfl rfl

theorem opened_receiveFile {header : Bytes} {filename : List ℕ} {filesize : Value}
    (hheader : header? loads header = some (filename, filesize))
    (hopen : opens (join dropDir filename) = true) :
    (receiveFile loads opens calls addr header conn d).2.opened =
      d.opened ++ [join dropDir filename] := by
  rw [receiveFile, hheader]
  dsimp only
  rw [if_pos hopen]
  split <;> rfl

/-- **The receiver is safe exactly from harmless peers.** However the stream is cut, and however far
`handle_receive` comes, it opens only entries of `DROP_DIR` and records only transfers that are
complete, if and only if the header names an entry of `DROP_DIR`, or what cannot be opened, and
announces a size for which the loop cannot return with less. -/
theorem receives_safely_iff :
    (∀ segments calls, segments.flatten = stream →
      Safe stream d (handleReceive loads opens calls addr ⟨segments, ending⟩ d).2) ↔
      Harmless loads opens stream ending := by
  constructor
  · intro hall line body filename filesize hstream hline hheader hopen
    refine ⟨?_, ?_⟩
    · -- the path is opened whatever the size is
      have hcalls : line.length < stream.length + 1 := by
        rw [hstream, List.length_append]
        omega
      have hflatten : [stream].flatten = stream := List.flatten_singleton
      have hstream' : Conn.stream ⟨[stream], ending⟩ = line ++ 10 :: body :=
        hflatten.trans hstream
      obtain ⟨conn', hread, -⟩ := exists_readLine List.not_mem_nil hline hstream' hcalls
      have hsafe := hall [stream] (stream.length + 1) hflatten
      rw [handleReceive_of_readLine hread, List.nil_append] at hsafe
      refine hsafe.opened _ ?_
      rw [opened_receiveFile hheader hopen, List.drop_left]
      exact List.mem_singleton_self _
    · refine (Value.Size.honest_iff (by decide)).2 fun full n hends ↦ ?_
      obtain ⟨pre, calls, hpre, -, hserves⟩ := Value.Size.serves_of_ends (by decide) hends
      have hbody : (pre ++ (body.drop n).map ([·])).flatten = body := by
        rw [List.flatten_append, hpre, Value.Size.flatten_items, List.take_append_drop]
      have hread := hserves _ (Value.Size.flatten_items _) (Value.Size.items_ne_nil _)
        (line.length + 1)
      have hheader' := readLine_single List.not_mem_nil hline
        (pre ++ (body.drop n).map ([·])) ending calls
      rw [Nat.add_comm] at hread
      have hflatten : ((line ++ [10]).map ([·]) ++ (pre ++ (body.drop n).map ([·]))).flatten =
          stream := (Value.Size.flatten_line line 10 hbody).trans hstream.symm
      have hsafe := hall _ (line.length + 1 + calls) hflatten
      rw [handleReceive_of_readLine hheader', receiveFile, List.nil_append, hheader] at hsafe
      dsimp only at hsafe
      rw [if_pos hopen, hread] at hsafe
      obtain ⟨-, got, -, -, hfile, his⟩ :=
        hsafe.done ⟨filename, addr, filesize, .received⟩ (by simp [JuliusDrop.write])
      obtain rfl : body.take n = got := by
        have hfile : Function.update d.files (resolve (join dropDir filename)) (some (body.take n))
          (resolve (join dropDir filename)) = some got := hfile
        rw [Function.update_self] at hfile
        exact Option.some.inj hfile
      exact (Value.Size.is_of_ends (by decide) hends).2.2 his
  · intro hharmless segments calls hsegments
    rw [handleReceive]
    rcases hread : readLine 10 calls [] (⟨segments, ending⟩ : Conn UInt8) with
      ⟨_ | _ | _, header, conn'⟩
    · obtain ⟨line, hline, rfl, hstream, hending⟩ := readLine_returned List.not_mem_nil hread
      rw [Conn.stream, hsegments] at hstream
      rw [hstream]
      refine safe_receiveFile (fun filename filesize hheader hopen ↦ ?_) line
      rw [hending]
      exact hharmless line conn'.stream filename filesize hstream hline hheader hopen
    · exact .refl _ rfl rfl
    · exact .refl _ rfl rfl

/-- A `json.loads` that knows the text of one `dict`. -/
def loadsOnly (fields : List (List ℕ × Json.Scalar)) (text : List Char) : Option Value :=
  if text = Json.dumps fields then some (ofFields fields) else none

/-- The header of a password file that is not for `DROP_DIR`, and never comes. -/
def passwordFields : List (List ℕ × Json.Scalar) :=
  [(str "name", .string (str "/etc/passwd")), (str "size", .int 5)]

/-- It arrives at once, and the peer closes. -/
def passwordConn : Conn UInt8 := ⟨[Utf8.encode (Json.dumps passwordFields) ++ [10]], .closed⟩

/-- **A peer has any file overwritten.** -/
theorem receives_safely_false : ¬ ∀ loads opens addr d stream segments calls,
    segments.flatten = stream →
      Safe stream d (handleReceive loads opens calls addr ⟨segments, .closed⟩ d).2 := by
  intro hall
  have hstream : passwordConn.stream = Utf8.encode (Json.dumps passwordFields) ++ [10] :=
    List.flatten_singleton
  obtain ⟨conn', -, -, hreceive⟩ := exists_receiveFile hstream (Nat.lt_succ_self _)
  have hsafe := hall (loadsOnly passwordFields) (fun _ ↦ true) [] ⟨[], .ready, fun _ ↦ none, []⟩
    passwordConn.stream passwordConn.segments (passwordConn.stream.length + 1) rfl
  have hsafe : Safe _ _ (handleReceive _ _ _ _ passwordConn _).2 := hsafe
  rw [hreceive] at hsafe
  have hheader : header? (loadsOnly passwordFields)
      (Utf8.encode (Json.dumps passwordFields) ++ [10]) = some (str "/etc/passwd", .int 5) := by
    rw [header?_dumps, loadsOnly, if_pos rfl]
    rfl
  obtain ⟨name, hname⟩ := hsafe.opened (str "/etc/passwd") (by
    rw [opened_receiveFile hheader rfl]
    exact List.mem_singleton.2 rfl)
  have hlength := congrArg List.length hname
  rw [List.length_append, List.length_singleton] at hlength
  revert hlength
  decide

end JuliusOS.Drop
