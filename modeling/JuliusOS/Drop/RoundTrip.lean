import JuliusOS.Drop.Receive

/-!
# A file that is sent and received

`send_file` of `system/julius_drop.py`, and what the receiver makes of it: whatever the name and the
content of a file are, and however the stream is cut, the receiver stores the file as it was sent.

What the device that sends does outside the program is a `Source`: which calls fail, and what the
file is found to be. A `send` returns the bytes that went out if it ran to the end.

* `round_trip`: a file that was sent to the end is stored and recorded.
-/

namespace JuliusOS.Drop

open Python Socket

/-- What `send` finds when it runs. -/
structure Source where
  /-- `os.path.getsize(filepath)`, or `none` if it raises. -/
  getsize : Option ℕ
  /-- Whether the receiver accepts the connection. -/
  connects : Bool
  /-- Whether a call of `sendall` succeeds, by its number. -/
  sendall : ℕ → Bool
  /-- What the file has when it is opened and read, or `none` if that raises. -/
  content : Option Bytes

/-- The `dict` of the header. -/
def fileFields (filename : List ℕ) (filesize : ℕ) : List (List ℕ × Json.Scalar) :=
  [(str "name", .string filename), (str "size", .int filesize)]

/-- The loop that reads the file and sends it, in at most so many rounds: the number of the next
`sendall`, what is left of the file, and what was sent. -/
def sendChunks (sendall : ℕ → Bool) : ℕ → ℕ → Bytes → Outcome × Bytes
  | 0, _, _ => (.waiting, [])
  | rounds + 1, k, left =>
    let chunk := left.take 4096
    if chunk = [] then (.returned, [])
    else if sendall k then
      let (outcome, sent) := sendChunks sendall rounds (k + 1) (left.drop 4096)
      (outcome, chunk ++ sent)
    else (.raised, [])

/-- What `send` sends, if nothing raises, and the size it has found. -/
def send? (source : Source) (filename : List ℕ) : Option (ℕ × Bytes) :=
  source.getsize.bind fun filesize ↦
    let header := Json.dumps (fileFields filename filesize) ++ ['\n']
    if source.connects ∧ source.sendall 0 then
      source.content.bind fun content ↦
        match sendChunks source.sendall (content.length + 1) 1 content with
        | (.returned, sent) => some (filesize, Utf8.encode header ++ sent)
        | _ => none
    else none

/-- `send_file`. -/
def sendFile (source : Source) (ip filepath : List ℕ) (d : JuliusDrop) :
    Option Bytes × JuliusDrop :=
  let filename := basename filepath
  match send? source filename with
  | some (filesize, sent) => (some sent, { d with
      transfers := d.transfers ++ [⟨filename, ip, .int filesize, .sent⟩]
      status := .sent filename })
  | none => (none, { d with status := .sendError })

/-! ### What is sent -/

/-- A loop that returns has sent the file. -/
theorem sendChunks_returned {sendall : ℕ → Bool} {rounds k : ℕ} {left sent : Bytes}
    (h : sendChunks sendall rounds k left = (.returned, sent)) : sent = left := by
  induction rounds generalizing k left sent with
  | zero => cases h
  | succ rounds ih =>
    rw [sendChunks] at h
    dsimp only at h
    split at h
    next hnil =>
      cases h
      exact ((List.take_eq_nil_iff.1 hnil).resolve_left (by decide)).symm
    next =>
      split at h
      next =>
        rcases hrest : sendChunks sendall rounds (k + 1) (left.drop 4096) with ⟨o, rest⟩
        rw [hrest] at h
        obtain ⟨rfl, rfl⟩ := Prod.mk.inj h
        rw [ih hrest, List.take_append_drop]
      next => cases h

/-- The loop has rounds enough. -/
theorem sendChunks_ne_waiting {sendall : ℕ → Bool} {rounds k : ℕ} {left : Bytes}
    (h : left.length < rounds) : (sendChunks sendall rounds k left).1 ≠ .waiting := by
  induction rounds generalizing k left with
  | zero => exact absurd h (Nat.not_lt_zero _)
  | succ rounds ih =>
    rw [sendChunks]
    dsimp only
    split
    next => exact nofun
    next hne =>
      split
      next =>
        refine ih ?_
        have hpos : 0 < left.length := List.length_pos_iff.2 fun hnil ↦ hne (by rw [hnil]; rfl)
        rw [List.length_drop]
        omega
      next => exact nofun

variable {loads : List Char → Option Value} {opens : List ℕ → Bool} {source : Source}
  {ip addr dir filename filepath : List ℕ} {sent content : Bytes} {d d' r : JuliusDrop}
  {segments : List Bytes} {calls : ℕ}

/-- What a `send` that runs to the end has sent. -/
theorem sent_eq (h : sendFile source ip filepath d = (some sent, d'))
    (hcontent : source.content = some content) (hsize : source.getsize = some content.length) :
    sent = Utf8.encode (Json.dumps (fileFields (basename filepath) content.length)) ++
      10 :: content := by
  rw [sendFile, send?, hsize, Option.bind_some, hcontent] at h
  dsimp only at h
  by_cases hconnect : source.connects ∧ source.sendall 0
  · rw [if_pos hconnect, Option.bind_some] at h
    have hne : (sendChunks source.sendall (content.length + 1) 1 content).1 ≠ .waiting :=
      sendChunks_ne_waiting (Nat.lt_succ_self content.length)
    rcases hchunks : sendChunks source.sendall (content.length + 1) 1 content with ⟨_ | _ | _, x⟩
    · rw [hchunks] at h
      obtain rfl := Option.some.inj (Prod.mk.inj h).1
      rw [sendChunks_returned hchunks, Utf8.encode_append, List.append_assoc]
      rfl
    · rw [hchunks] at h
      cases h
    · rw [hchunks] at hne
      exact absurd rfl hne
  · rw [if_neg hconnect] at h
    cases h

/-! ### What is received -/

theorem basename_append {dir : List ℕ} (hdir : dir = [] ∨ dir.getLast? = some sep)
    (hname : sep ∉ filename) : basename (dir ++ filename) = filename := by
  have hall : ∀ c ∈ filename.reverse, decide (c ≠ sep) = true := fun c hc ↦
    decide_eq_true fun heq ↦ hname (heq ▸ List.mem_reverse.1 hc)
  have hnil : dir.rtakeWhile (· ≠ sep) = [] := by
    refine List.rtakeWhile_eq_nil_iff.2 fun hne ↦ ?_
    have hlast := hdir.resolve_left hne
    rw [List.getLast?_eq_some_getLast hne] at hlast
    rw [Option.some.inj hlast]
    decide
  rw [List.rtakeWhile, List.reverse_eq_nil_iff] at hnil
  rw [basename, List.rtakeWhile, List.reverse_append, List.takeWhile_append_of_pos hall, hnil,
    List.append_nil, List.reverse_reverse]

/-- The name of a file is found again. -/
theorem basename_join (dir : List ℕ) (hname : sep ∉ filename) :
    basename (join dir filename) = filename := by
  have hhead : filename.head? ≠ some sep := fun heq ↦ hname (List.mem_of_mem_head? heq)
  rw [join, if_neg hhead]
  split
  next hdir => exact basename_append hdir hname
  next =>
    have hdir : dir ++ [sep] = [] ∨ (dir ++ [sep]).getLast? = some sep :=
      Or.inr List.getLast?_concat
    rw [List.append_cons]
    exact basename_append hdir hname

theorem join_dropDir (hname : sep ∉ filename) : join dropDir filename = dropDir ++ filename := by
  have hhead : filename.head? ≠ some sep := fun heq ↦ hname (List.mem_of_mem_head? heq)
  rw [join, if_neg hhead, if_pos (Or.inr (by decide))]

theorem fileInfo_ofFields (filename : List ℕ) (filesize : ℕ) :
    fileInfo (ofFields (fileFields filename filesize)) = some (filename, .int filesize) := rfl

/-- **A file that was sent to the end is stored as it was**, under its name, and recorded with its
size, however the stream is cut. -/
theorem round_trip (hname : sep ∉ filename) (hcontent : source.content = some content)
    (hsize : source.getsize = some content.length)
    (hsend : sendFile source ip (join dir filename) d = (some sent, d'))
    (hloads : loads (Json.dumps (fileFields filename content.length)) =
      some (ofFields (fileFields filename content.length)))
    (hopens : opens (dropDir ++ filename) = true) (hsegments : segments.flatten = sent)
    (hcalls : sent.length < calls) :
    ∃ r', handleReceive loads opens calls addr ⟨segments, .closed⟩ r = (.returned, r') ∧
      r'.files = Function.update r.files (resolve (dropDir ++ filename)) (some content) ∧
      r'.transfers = r.transfers ++ [⟨filename, addr, .int content.length, .received⟩] := by
  have hsent := sent_eq hsend hcontent hsize
  rw [basename_join dir hname] at hsent
  -- the header is read
  obtain ⟨conn, hbody, hending, hreceive⟩ :=
    exists_receiveFile (show Conn.stream ⟨segments, .closed⟩ = _ from hsegments.trans hsent)
      (hsegments ▸ hcalls)
  have hheader : header? loads
      (Utf8.encode (Json.dumps (fileFields filename content.length)) ++ [10]) =
        some (filename, .int content.length) := by
    rw [header?_dumps, hloads, Option.bind_some, fileInfo_ofFields]
  rw [hreceive, receiveFile, hheader]
  dsimp only
  rw [join_dropDir hname, if_pos hopens]
  -- and the body, whole
  have hfull : (Value.size (.int content.length)).Full conn.stream.length := by
    rw [hbody]
    exact ⟨Int.natCast_nonneg _, le_refl _⟩
  have hlength : conn.stream.length < calls := by
    rw [hbody]
    rw [hsent, List.length_append, List.length_cons] at hcalls
    omega
  rcases hread : readBody ((Value.size (.int content.length)).wants 4096) calls [] conn with
    ⟨o, got, conn'⟩
  have hwait : o ≠ .waiting := by
    have hask : ∀ k n, (Value.size (.int content.length)).wants 4096 k = .ask n → 0 < n :=
      fun _ _ ↦ Value.Size.pos_of_wants (by decide)
    have hne : (readBody ((Value.size (.int content.length)).wants 4096) calls [] conn).1 ≠
        .waiting := readBody_ne_waiting hask hlength
    rwa [hread] at hne
  obtain ⟨rfl, his⟩ := Value.Size.returned_of_full (by decide) hfull hread hwait
  obtain ⟨-, -, -, hstream, -⟩ := Value.Size.ends_of_readBody (by decide) hread
  obtain rfl : got = content := by
    have hgot : got.length = content.length := (Int.ofNat_inj.1 his).symm
    exact (List.append_inj (hstream.trans (hbody.trans (List.append_nil _).symm)) hgot).1
  exact ⟨_, rfl, rfl, rfl⟩

/-- A file of one newline, in a device without faults. -/
def newlineSource : Source := ⟨some 1, true, fun _ ↦ true, some [10]⟩

/-- What it sends. -/
def newlineSent : Bytes := Utf8.encode (Json.dumps (fileFields (str "a") 1)) ++ [10, 10]

theorem round_trip_newline : ∃ r',
    handleReceive (loadsOnly (fileFields (str "a") 1)) (fun _ ↦ true) (newlineSent.length + 1)
      (str "10.0.0.2") ⟨newlineSent.map ([·]), .closed⟩ ⟨[], .ready, fun _ ↦ none, []⟩ =
      (.returned, r') ∧
    r'.files = Function.update (fun _ ↦ none) (resolve (dropDir ++ str "a")) (some [10]) ∧
    r'.transfers = [⟨str "a", str "10.0.0.2", .int 1, .received⟩] :=
  have hsend : sendFile newlineSource (str "10.0.0.1") (join (str "/home") (str "a"))
      ⟨[], .ready, fun _ ↦ none, []⟩ = (some newlineSent, _) := rfl
  round_trip (by decide) rfl rfl hsend (if_pos rfl) rfl (Value.Size.flatten_items _)
    (Nat.lt_succ_self _)

end JuliusOS.Drop
