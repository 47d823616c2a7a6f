import JuliusOS.Foundations.Inet
import JuliusOS.Foundations.PackedTable
import Mathlib.Data.List.Forall2

/-!
# The connection table of julius_net

`collect_connections` reads `/proc/net/tcp` line by line into the static table `conn_track`. The
kernel prints an address as the hexadecimal number that its four bytes are on this machine, and
a port in host order; so the address is right as it is read, and so is the port, which the
code then swaps with `ntohs`. The text of an address goes into a field of 16 bytes through
`inet_ntop` with a size of 15: a text of 15 characters does not fit, and the field keeps what an
earlier collection left there.

* `procLine` is what the kernel prints of a socket, `sscanf_procLine` what is read of it;
* `Decoded` is what the table is for: one entry for each socket, with its addresses, ports and
  state;
* `decoded_iff` says that this is so exactly if every port reads the same in both byte orders and
  no address needs 15 characters.
-/

open Bytes CString Stdio Inet

namespace JuliusOS.Net

/-! ### The program -/

/-- The fields of `ConnTrackEntry` that `collect_connections` sets. -/
structure ConnTrackEntry where
  localIp : Buf 16
  localPort : ℕ
  remoteIp : Buf 16
  remotePort : ℕ
  state : Buf 16

/-- The static array before the first collection. -/
abbrev ConnTrack := PackedTable ConnTrackEntry 512

/-- `conn_track` and `conn_count` when the program starts. -/
def connTrack : ConnTrack := .empty ⟨.zero 16, 0, .zero 16, 0, .zero 16⟩

/-- The locals `la`, `lp`, `ra`, `rp`, `st`. -/
structure Scanned where
  la : ℕ
  lp : ℕ
  ra : ℕ
  rp : ℕ
  st : ℕ
deriving DecidableEq

/-- `" %*d: %x:%x %x:%x %x"`. -/
def connFormat : List Directive :=
  [.space, .int false, .char 58, .space, .hex, .char 58, .hex, .space, .hex, .char 58, .hex,
    .space, .hex]

/-- Value number `i`, if it was assigned. -/
def assigned (values : List Value) (i old : ℕ) : ℕ :=
  match values[i]? with
  | some (.number z) => z.toNat
  | _ => old

/-- The locals after `sscanf`; one that is not assigned keeps what it held. -/
def Scanned.scan (v : Scanned) (line : Bytes) : Scanned :=
  let values := sscanf connFormat (cstr line)
  ⟨assigned values 0 v.la, assigned values 1 v.lp, assigned values 2 v.ra, assigned values 3 v.rp,
    assigned values 4 v.st⟩

/-- `states`. -/
def states : List Bytes :=
  ["UNKNOWN", "ESTABLISHED", "SYN_SENT", "SYN_RECV", "FIN_WAIT1", "FIN_WAIT2", "TIME_WAIT", "CLOSE",
    "CLOSE_WAIT", "LAST_ACK", "LISTEN", "CLOSING"].map ofAscii

/-- `st < 12 ? states[st] : "UNKNOWN"`. -/
def stateName (st : ℕ) : Bytes := if st < 12 then states.getD st [] else ofAscii "UNKNOWN"

/-- What an iteration writes to the next slot. -/
def ConnTrackEntry.fill (v : Scanned) (c : ConnTrackEntry) : ConnTrackEntry where
  localIp := c.localIp.inetNtop (.ofWord v.la) 15 Buf.le_16
  localPort := ntohs v.lp
  remoteIp := c.remoteIp.inetNtop (.ofWord v.ra) 15 Buf.le_16
  remotePort := ntohs v.rp
  state := c.state.strncpy (stateName v.st) 15 Buf.le_16

/-- The loop over the lines. -/
def collectLoop : Scanned → ConnTrack → List Bytes → ConnTrack
  | _, t, [] => t
  | v, t, line :: lines =>
    if h : t.count < 512 then
      collectLoop (v.scan line) (t.append h (.fill (v.scan line))) lines
    else t

/-- `collect_connections`. `stack` is what the locals hold at first, and `file` the content of
`/proc/net/tcp` if it can be opened. -/
def collectConnections (stack : Scanned) (t : ConnTrack) (file : Option Bytes) : ConnTrack :=
  match file with
  | none => t.clear
  | some content => collectLoop stack t.clear (pieces 512 content).tail

/-! ### Sockets and the file -/

/-- The states of a TCP socket. -/
inductive TcpState
  | established | synSent | synRecv | finWait1 | finWait2 | timeWait | close | closeWait | lastAck
  | listen | closing
deriving DecidableEq

namespace TcpState

/-- The kernel's number of a state. -/
def code : TcpState → ℕ
  | established => 1
  | synSent => 2
  | synRecv => 3
  | finWait1 => 4
  | finWait2 => 5
  | timeWait => 6
  | close => 7
  | closeWait => 8
  | lastAck => 9
  | listen => 10
  | closing => 11

/-- The name of a state. -/
def name : TcpState → String
  | established => "ESTABLISHED"
  | synSent => "SYN_SENT"
  | synRecv => "SYN_RECV"
  | finWait1 => "FIN_WAIT1"
  | finWait2 => "FIN_WAIT2"
  | timeWait => "TIME_WAIT"
  | close => "CLOSE"
  | closeWait => "CLOSE_WAIT"
  | lastAck => "LAST_ACK"
  | listen => "LISTEN"
  | closing => "CLOSING"

end TcpState

/-- A TCP socket as the kernel lists it. -/
structure TcpSocket where
  localAddr : InAddr
  localPort : UInt16
  remoteAddr : InAddr
  remotePort : UInt16
  state : TcpState
  /-- What the kernel prints behind the state: queues, timers and so on. -/
  rest : Bytes
  /-- That is the rest of a line of text. -/
  zero_notMem : (0 : UInt8) ∉ rest
  newline_notMem : (10 : UInt8) ∉ rest
  /-- The whole line fits the reader's buffer; the kernel pads it to 149 characters. -/
  length_le : rest.length ≤ 400

/-- What the kernel prints of socket number `i`. -/
def procLine (i : ℕ) (s : TcpSocket) : Bytes :=
  List.replicate (4 - (decimal i).length) 32 ++ (decimal i ++ 58 :: 32 ::
    (hex 8 s.localAddr.word ++ 58 :: (hex 4 s.localPort.toNat ++ 32 ::
      (hex 8 s.remoteAddr.word ++ 58 :: (hex 4 s.remotePort.toNat ++ 32 ::
        (hex 2 s.state.code ++ 32 :: s.rest))))))

/-- The lines of the sockets, numbered from `i` on. -/
def procLines (i : ℕ) : List TcpSocket → Bytes
  | [] => []
  | s :: ss => procLine i s ++ 10 :: procLines (i + 1) ss

/-- `/proc/net/tcp`: a line with the names of the columns, and one line a socket. -/
def procNetTcp (columns : Bytes) (sockets : List TcpSocket) : Bytes :=
  columns ++ 10 :: procLines 0 sockets

/-- What a reader of the table sees of an entry. -/
def ConnTrackEntry.view (c : ConnTrackEntry) : Bytes × ℕ × Bytes × ℕ × Bytes :=
  (cstr c.localIp.bytes, c.localPort, cstr c.remoteIp.bytes, c.remotePort, cstr c.state.bytes)

/-- What there is to be seen of a socket. -/
def TcpSocket.view (s : TcpSocket) : Bytes × ℕ × Bytes × ℕ × Bytes :=
  (s.localAddr.text, s.localPort.toNat, s.remoteAddr.text, s.remotePort.toNat, ofAscii s.state.name)

/-- The tables that any number of collections leave, whatever the files held. -/
inductive Collected : ConnTrack → Prop
  | start : Collected connTrack
  | collect {t : ConnTrack} (stack : Scanned) (file : Option Bytes) :
      Collected t → Collected (collectConnections stack t file)

/-- **What the table is for**: one entry for each socket, in order. -/
def Decoded (stack : Scanned) (t : ConnTrack) (columns : Bytes) (sockets : List TcpSocket) : Prop :=
  (collectConnections stack t (some (procNetTcp columns sockets))).live.map ConnTrackEntry.view =
    sockets.map TcpSocket.view

/-- The ports read the same in both byte orders, and no address needs 15 characters. -/
def TcpSocket.Fits (s : TcpSocket) : Prop :=
  s.localPort.toNat / 256 = s.localPort.toNat % 256 ∧
    s.remotePort.toNat / 256 = s.remotePort.toNat % 256 ∧
      s.localAddr.text.length < 15 ∧ s.remoteAddr.text.length < 15

instance (s : TcpSocket) : Decidable s.Fits := inferInstanceAs (Decidable (_ ∧ _ ∧ _ ∧ _))

/-! ### A line -/

variable {v : Scanned} {t : ConnTrack} {s : TcpSocket} {c : ConnTrackEntry}

theorem TcpState.code_lt (st : TcpState) : st.code < 12 := by
  cases st <;> decide

/-- The program's name of a state is the kernel's. -/
theorem stateName_code (st : TcpState) : stateName st.code = ofAscii st.name := by
  cases st <;> decide

theorem notMem_procLine {b : UInt8} (hdigit : isDigit 16 b = false) (hdigit' : isDigit 10 b = false)
    (hspace : b ≠ 32) (hcolon : b ≠ 58) (hrest : b ∉ s.rest) (i : ℕ) : b ∉ procLine i s := by
  simp [procLine, notMem_hex hdigit, notMem_decimal hdigit', hspace, hcolon, hrest]

theorem length_procLine_le {i : ℕ} (hi : i < 512) (s : TcpSocket) :
    (procLine i s).length ≤ 440 := by
  have hlen := s.length_le
  have hdec : (decimal i).length ≤ 3 := (length_decimal_le_iff (by decide)).2 (by omega)
  simp only [procLine, List.length_append, List.length_replicate, List.length_cons, length_hex]
  omega

/-- **What is read of a line** are the socket's numbers. -/
theorem sscanf_procLine (i : ℕ) (s : TcpSocket) :
    sscanf connFormat (procLine i s ++ [10]) =
      [.number s.localAddr.word, .number s.localPort.toNat, .number s.remoteAddr.word,
        .number s.remotePort.toNat, .number s.state.code] := by
  have hcolon : ∀ (rest : Bytes), ∀ b ∈ (58 :: rest).head?, isDigit 16 b = false ∧
      b ≠ 120 ∧ b ≠ 88 := by
    rintro rest b ⟨⟩
    decide
  have hblank : ∀ (rest : Bytes), ∀ b ∈ (32 :: rest).head?, isDigit 16 b = false ∧
      b ≠ 120 ∧ b ≠ 88 := by
    rintro rest b ⟨⟩
    decide
  have hskip : ∀ w n rest, skipSpace (32 :: (hex (w + 1) n ++ rest)) = hex (w + 1) n ++ rest := by
    intro w n rest
    have hhead := head_of_digits (List.ne_nil_of_length_pos (by rw [length_hex]; omega))
      (hex_spec (w + 1) n).1 rest
    exact skipSpace_of_head fun b hb ↦ (of_isDigit le_rfl (hhead b hb)).1
  have hlocal : s.localPort.toNat < 16 ^ 4 := s.localPort.toNat_lt
  have hremote : s.remotePort.toNat < 16 ^ 4 := s.remotePort.toNat_lt
  have hdec : skipSpace (procLine i s ++ [10]) = decimal i ++ 58 :: 32 ::
      (hex 8 s.localAddr.word ++ 58 :: (hex 4 s.localPort.toNat ++ 32 ::
        (hex 8 s.remoteAddr.word ++ 58 :: (hex 4 s.remotePort.toNat ++ 32 ::
          (hex 2 s.state.code ++ 32 :: (s.rest ++ [10])))))) := by
    have hhead := head_of_digits (decimal_ne_nil i) (decimal_spec i).1
    rw [procLine, List.append_assoc, skipSpace_append fun b hb ↦ by
      rw [List.eq_of_mem_replicate hb]; rfl]
    simp only [List.append_assoc, List.cons_append]
    exact skipSpace_of_head fun b hb ↦ (of_isDigit (by decide) (hhead _ b hb)).1
  have hcode := s.state.code_lt
  rw [connFormat, sscanf_space, hdec, sscanf_skip_decimal i, sscanf_char, sscanf_space, hskip,
    sscanf_hex (by decide) s.localAddr.word_lt (hcolon _), sscanf_char,
    sscanf_hex (by decide) hlocal (hblank _), sscanf_space, hskip,
    sscanf_hex (by decide) s.remoteAddr.word_lt (hcolon _), sscanf_char,
    sscanf_hex (by decide) hremote (hblank _), sscanf_space, hskip,
    sscanf_hex (by decide) (by omega) (hblank _)]
  · rfl
  · rintro b ⟨⟩
    decide

/-- The locals after a line are the socket's numbers. -/
theorem scan_procLine (v : Scanned) (i : ℕ) (s : TcpSocket) :
    v.scan (procLine i s ++ [10]) = ⟨s.localAddr.word, s.localPort.toNat, s.remoteAddr.word,
      s.remotePort.toNat, s.state.code⟩ := by
  have hfree : (0 : UInt8) ∉ procLine i s ++ [10] := by
    simp [notMem_procLine (b := 0) (by decide) (by decide) (by decide) (by decide) s.zero_notMem]
  rw [Scanned.scan, cstr_eq_self hfree, sscanf_procLine]
  simp [assigned]

/-! ### An entry -/

/-- What a collection relies on in a slot, used or not. -/
def ConnTrackEntry.Terminated (c : ConnTrackEntry) : Prop :=
  (cstr c.localIp.bytes).length < 15 ∧ (cstr c.remoteIp.bytes).length < 15 ∧ LastZero c.state.bytes

theorem ConnTrackEntry.Terminated.fill (h : c.Terminated) (v : Scanned) :
    (c.fill v).Terminated := by
  obtain ⟨hlocal, hremote, hstate⟩ := h
  have hip : ∀ (buf : Buf 16) (x : InAddr), (cstr buf.bytes).length < 15 →
      (cstr (buf.inetNtop x 15 Buf.le_16).bytes).length < 15 := by
    intro buf x hbuf
    rw [Buf.cstr_inetNtop]
    split
    next hlt => exact hlt
    next => exact hbuf
  exact ⟨hip _ _ hlocal, hip _ _ hremote, lastZero_strncpy c.state.length_bytes hstate⟩

/-- **An entry shows its socket** exactly if the socket fits. -/
theorem view_fill_iff (h : c.Terminated) :
    (c.fill ⟨s.localAddr.word, s.localPort.toNat, s.remoteAddr.word, s.remotePort.toNat,
      s.state.code⟩).view = s.view ↔ s.Fits := by
  obtain ⟨hlocal, hremote, hstate⟩ := h
  -- what was left in a slot is shorter than a text that does not fit
  have hip : ∀ (buf : Buf 16) (x : InAddr), (cstr buf.bytes).length < 15 →
      (cstr (buf.inetNtop (.ofWord x.word) 15 Buf.le_16).bytes = x.text ↔
        x.text.length < 15) := by
    intro buf x hbuf
    rw [Buf.cstr_inetNtop, InAddr.ofWord_word]
    split
    next hlt => exact iff_of_true rfl hlt
    next hge =>
      refine iff_of_false (fun heq ↦ ?_) hge
      rw [heq] at hbuf
      exact hge hbuf
  have hname : cstr (c.state.strncpy (stateName s.state.code) 15 Buf.le_16).bytes =
      ofAscii s.state.name := by
    have hfree : (0 : UInt8) ∉ ofAscii s.state.name ∧ (ofAscii s.state.name).length ≤ 15 := by
      cases s.state <;> decide
    rw [stateName_code, Buf.strncpy, cstr_strncpy c.state.length_bytes hstate,
      cstr_eq_self hfree.1, List.take_of_length_le hfree.2]
  simp only [ConnTrackEntry.view, ConnTrackEntry.fill, TcpSocket.view, Prod.mk.injEq,
    hip _ _ hlocal, hip _ _ hremote, hname, ntohs_eq_self_iff s.localPort.toNat_lt,
    ntohs_eq_self_iff s.remotePort.toNat_lt, TcpSocket.Fits, and_true]
  tauto

/-! ### A collection -/

theorem allSlots_collectLoop (h : t.AllSlots ConnTrackEntry.Terminated) (v : Scanned)
    (lines : List Bytes) : (collectLoop v t lines).AllSlots ConnTrackEntry.Terminated := by
  induction lines generalizing v t with
  | nil => exact h
  | cons line lines ih =>
    rw [collectLoop]
    split
    next hlt => exact ih (h.append fun c hc ↦ hc.fill _) _
    next => exact h

/-- **Whatever was collected**, no text of 15 characters is in the table. -/
theorem Collected.allSlots (h : Collected t) : t.AllSlots ConnTrackEntry.Terminated := by
  induction h with
  | start =>
    exact PackedTable.allSlots_empty ⟨by decide, by decide, lastZero_replicate (by decide)⟩
  | @collect t stack file _ ih =>
    have hclear : t.clear.AllSlots ConnTrackEntry.Terminated := ih
    cases file with
    | none => exact hclear
    | some content => exact allSlots_collectLoop hclear stack _

/-- **The loop adds one entry for each socket**, which shows it exactly if the socket fits. -/
theorem collectLoop_procLines {i : ℕ} {sockets : List TcpSocket}
    (ht : t.AllSlots ConnTrackEntry.Terminated) (hi : i + sockets.length ≤ 512)
    (hcount : t.count = i) (v : Scanned) :
    ∃ es, (collectLoop v t (pieces 512 (procLines i sockets))).live = t.live ++ es ∧
      List.Forall₂ (fun s e ↦ ConnTrackEntry.view e = s.view ↔ s.Fits) sockets es := by
  induction sockets generalizing i v t with
  | nil => exact ⟨[], (List.append_nil _).symm, .nil⟩
  | cons s ss ih =>
    rw [List.length_cons] at hi
    have hlen := length_procLine_le (show i < 512 by omega) s
    have hline := notMem_procLine (b := 10) (by decide) (by decide) (by decide) (by decide)
      s.newline_notMem i
    have hlt : t.count < 512 := by omega
    have hnext : (t.append hlt (.fill ⟨s.localAddr.word, s.localPort.toNat, s.remoteAddr.word,
        s.remotePort.toNat, s.state.code⟩)).AllSlots ConnTrackEntry.Terminated :=
      ht.append fun c hc ↦ hc.fill _
    rw [procLines, pieces_append hline (by omega), collectLoop, dif_pos hlt, scan_procLine]
    obtain ⟨es, hlive, hes⟩ := ih hnext (show i + 1 + ss.length ≤ 512 by omega)
      (congrArg (· + 1) hcount) _
    refine ⟨_ :: es, ?_, .cons (view_fill_iff (ht.nextSlot hlt)) hes⟩
    rw [hlive, PackedTable.live_append, List.append_assoc, List.singleton_append]

/-- Entries that show their sockets. -/
theorem map_view_eq_iff {sockets : List TcpSocket} {es : List ConnTrackEntry}
    (h : List.Forall₂ (fun s e ↦ ConnTrackEntry.view e = s.view ↔ s.Fits) sockets es) :
    es.map ConnTrackEntry.view = sockets.map TcpSocket.view ↔ ∀ s ∈ sockets, s.Fits := by
  induction h with
  | nil => exact iff_of_true rfl (List.forall_mem_nil _)
  | cons hs _ ih =>
    rw [List.map_cons, List.map_cons, List.cons.injEq, hs, ih, List.forall_mem_cons]

/-- **The exact condition for a right table.** Whatever was collected before, the table has one
entry for each of at most 512 sockets, with its addresses, ports and state, if and only if every
port has two equal bytes and the text of every address has at most 14 characters. -/
theorem decoded_iff (stack : Scanned) (t : ConnTrack) (columns : Bytes) (sockets : List TcpSocket)
    (ht : Collected t) (hcolumns : (10 : UInt8) ∉ columns ∧ columns.length < 511)
    (hlen : sockets.length ≤ 512) :
    Decoded stack t columns sockets ↔ ∀ s ∈ sockets, s.Fits := by
  obtain ⟨es, hlive, hes⟩ := collectLoop_procLines (t := t.clear) ht.allSlots
    (show 0 + sockets.length ≤ 512 by omega) rfl stack
  rw [Decoded, collectConnections, procNetTcp, pieces_append hcolumns.1 (by omega), List.tail_cons,
    hlive, PackedTable.live_clear, List.nil_append]
  exact map_view_eq_iff hes

/-- The loopback address. -/
def loopback : InAddr := ⟨127, 0, 0, 1⟩

/-- A server on the loopback address. -/
def listening (port : UInt16) : TcpSocket where
  localAddr := loopback
  localPort := port
  remoteAddr := ⟨0, 0, 0, 0⟩
  remotePort := 0
  state := .listen
  rest := []
  zero_notMem := List.not_mem_nil
  newline_notMem := List.not_mem_nil
  length_le := Nat.zero_le 400

theorem decoded_equal_bytes :
    Decoded ⟨0, 0, 0, 0, 0⟩ connTrack [] [listening 257] :=
  (decoded_iff _ _ _ _ .start ⟨by decide, by decide⟩ (by decide)).2 fun s hs ↦ by
    rw [List.mem_singleton.1 hs]
    decide +kernel

/-- A web server: the port 80 is 20480. -/
theorem not_decoded_web_server :
    ¬ Decoded ⟨0, 0, 0, 0, 0⟩ connTrack [] [listening 80] := by
  intro h
  have hview := congrArg (List.map fun x : Bytes × ℕ × Bytes × ℕ × Bytes ↦ x.2.1) h
  revert hview
  decide +kernel

end JuliusOS.Net
