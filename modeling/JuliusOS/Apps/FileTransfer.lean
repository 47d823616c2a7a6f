import JuliusOS.Foundations.Python
import JuliusOS.Foundations.Utf8

/-!
# The file transfer app

`src/apps/filetransfer/filetransfer.py`: the sender sends the name and then the content of a file,
with nothing between them, and the receiver takes what its first `recv` returns for the name. How
the stream is cut on the way is up to the network, so it is a `Socket.Conn` here, and a `send` on
the sender's blocking socket sends what it is given.

`transfer_iff` says for which cuts and names the file arrives.
-/

open Socket Utf8

namespace JuliusOS.Apps

/-! ### The two programs -/

/-- `os.path.basename(path)`. -/
def basename (path : List Char) : List Char := path.rtakeWhile (· ≠ '/')

/-- The loop of `send_file` over what is left of the file, in so many rounds. -/
def sendChunks : ℕ → Bytes → List Bytes
  | 0, _ => []
  | rounds + 1, left =>
    if left = [] then [] else left.take 4096 :: sendChunks rounds (left.drop 4096)

/-- The calls of `send` in `send_file`. -/
def sendFile (filepath : List Char) (content : Bytes) : List Bytes :=
  encode (basename filepath) :: sendChunks (content.length + 1) content

/-- The file that `start_server` opens. -/
def savePath (filename : List Char) : List Char := "/tmp/".toList ++ filename

/-- The thread of `start_server` on a connection: how it ends, and the file it has written. Whether
a path can be opened is up to the file system. -/
def serve (opens : List Char → Bool) (c : Conn UInt8) : Outcome × Option (List Char × Bytes) :=
  match c.recv 1024 with
  | none => (.raised, none)
  | some (data, c) =>
    match decodeStrict data with
    | none => (.raised, none)
    | some text =>
      let filename := Python.strip text
      if opens (savePath filename) then
        let received := readBody (fun _ ↦ .ask 4096) (c.stream.length + 1) [] c
        (received.1, some (savePath filename, received.2.1))
      else (.raised, none)

/-! ### What is sent and what is received -/

variable {opens : List Char → Bool} {c : Conn UInt8} {content : Bytes} {filepath name : List Char}

/-- The loop sends the whole file. -/
theorem flatten_sendChunks {rounds : ℕ} {left : Bytes} (h : left.length < rounds) :
    (sendChunks rounds left).flatten = left := by
  induction rounds generalizing left with
  | zero => exact absurd h (Nat.not_lt_zero _)
  | succ rounds ih =>
    rw [sendChunks]
    split
    next hnil => rw [hnil, List.flatten_nil]
    next hne =>
      have hpos : 0 < left.length := List.length_pos_of_ne_nil hne
      rw [List.flatten_cons, ih (by rw [List.length_drop]; omega), List.take_append_drop]

/-- The stream: the name and the content. -/
theorem flatten_sendFile (filepath : List Char) (content : Bytes) :
    (sendFile filepath content).flatten = encode (basename filepath) ++ content := by
  rw [sendFile, List.flatten_cons, flatten_sendChunks (Nat.lt_succ_self _)]

/-- The loop of the receiver reads the rest of the stream, if the peer closes the connection. -/
theorem readBody_rest (hending : c.ending = .closed) :
    ∃ c', readBody (fun _ ↦ .ask 4096) (c.stream.length + 1) [] c = (.returned, c.stream, c') := by
  have hask : ∀ r n : ℕ, Want.ask 4096 = .ask n → 0 < n := by
    rintro r n ⟨⟩
    decide
  have hne : (readBody (fun _ ↦ .ask 4096) (c.stream.length + 1) [] c).1 ≠ .waiting :=
    readBody_ne_waiting hask (Nat.lt_succ_self _)
  rcases hread : readBody (fun _ ↦ .ask 4096) (c.stream.length + 1) [] c with ⟨o, got, c'⟩
  rw [hread] at hne
  obtain ⟨hended, -, hending', x, rfl, hx⟩ :=
    readBody_spec (P := fun _ ↦ True) hask (fun _ _ _ _ _ _ ↦ trivial) trivial hread
  cases hended with
  | stop hwant => cases hwant
  | closed hwant hstream =>
    rw [hstream, List.append_nil] at hx
    exact ⟨c', by rw [hx]⟩
  | fail hwant => cases hwant
  | broken hwant hstream hbroken => cases (hending'.symm.trans hbroken).symm.trans hending
  | waiting => exact absurd rfl hne

/-- What the first `recv` returns, and what is left. -/
theorem exists_recv (hending : c.ending = .closed) :
    ∃ data c', c.recv 1024 = some (data, c') ∧ c.stream = data ++ c'.stream ∧
      c'.ending = .closed := by
  have hrecv := received_recv (by decide : 0 < 1024) c
  generalize c.recv 1024 = result at hrecv
  cases hrecv with
  | broken _ hbroken => cases hbroken.symm.trans hending
  | closed hstream _ hstream' hending' =>
    exact ⟨[], _, rfl, by rw [hstream, hstream', List.append_nil], hending'⟩
  | data hstream _ hending' => exact ⟨_, _, rfl, hstream, hending'.trans hending⟩

/-- What the receiver makes of the first result and the rest. -/
theorem serve_eq {data : Bytes} {c' : Conn UInt8} (hrecv : c.recv 1024 = some (data, c'))
    (hending : c'.ending = .closed) : serve opens c =
      match decodeStrict data with
      | none => (.raised, none)
      | some text =>
        if opens (savePath (Python.strip text)) then
          (.returned, some (savePath (Python.strip text), c'.stream))
        else (.raised, none) := by
  obtain ⟨c'', hread⟩ := readBody_rest hending
  rw [serve, hrecv]
  simp only [hread]

/-! ### When a file arrives -/

/-- The receiver has stored the sender's file under the sender's name. -/
def Arrived (opens : List Char → Bool) (filepath : List Char) (content : Bytes)
    (c : Conn UInt8) : Prop :=
  serve opens c = (.returned, some (savePath (basename filepath), content))

/-- **A file arrives** exactly if the first `recv` returns the bytes of the name and nothing else,
the name has no white space around it, and the receiver can open such a file. -/
theorem transfer_iff (hstream : c.stream = (sendFile filepath content).flatten)
    (hending : c.ending = .closed) :
    Arrived opens filepath content c ↔
      (c.recv 1024).map Prod.fst = some (encode (basename filepath)) ∧
        Python.strip (basename filepath) = basename filepath ∧
        opens (savePath (basename filepath)) = true := by
  obtain ⟨data, c', hrecv, hsplit, hending'⟩ := exists_recv hending
  rw [hstream, flatten_sendFile] at hsplit
  rw [Arrived, serve_eq hrecv hending', hrecv, Option.map_some, Option.some.injEq]
  constructor
  · intro hserve
    cases hdecode : decodeStrict data with
    | none =>
      rw [hdecode] at hserve
      cases hserve
    | some text =>
      rw [hdecode] at hserve
      dsimp only at hserve
      split at hserve
      next hopens =>
        obtain ⟨hpath, hcontent⟩ :=
          Prod.ext_iff.1 (Option.some.inj (Prod.ext_iff.1 hserve).2)
        have hname : Python.strip text = basename filepath := List.append_cancel_left hpath
        -- what is left is as long as the content, so the first result is as long as the name
        have hdata : encode (basename filepath) = data := by
          rw [show c'.stream = content from hcontent] at hsplit
          exact List.append_cancel_right hsplit
        rw [← hdata, decodeStrict_encode, Option.some.injEq] at hdecode
        rw [← hdecode] at hname hopens
        exact ⟨hdata.symm, hname, hname ▸ hopens⟩
      next => cases hserve
  · rintro ⟨rfl, hstrip, hopens⟩
    have hcontent : content = c'.stream := List.append_cancel_left hsplit
    rw [decodeStrict_encode]
    dsimp only
    rw [hstrip, if_pos hopens, hcontent]

/-- A name and a content that arrive one after the other. -/
theorem transfer_two_segments : Arrived (fun _ ↦ true) ['a'] [98] ⟨[[97], [98]], .closed⟩ :=
  (transfer_iff (by decide +kernel) rfl).2 (by decide +kernel)

/-- A name and a content that arrive together are taken for a name. -/
theorem not_arrived_one_segment :
    Conn.stream ⟨[[97, 98]], .closed⟩ = (sendFile ['a'] [98]).flatten ∧
      ¬ Arrived (fun _ ↦ true) ['a'] [98] ⟨[[97, 98]], .closed⟩ := by
  refine ⟨by decide +kernel, ?_⟩
  rw [Arrived]
  decide +kernel

end JuliusOS.Apps
