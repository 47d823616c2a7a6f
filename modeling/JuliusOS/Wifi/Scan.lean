import JuliusOS.Foundations.Stdio
import Mathlib.Data.List.Forall2

/-!
# The scan for networks

`wifi_scan` reads what `wpa_cli scan_results` prints, a line for each network with tabs between its
fields, through `fgets` into 256 bytes and `sscanf` with fixed widths. A line counts as soon as
four fields are there; the fifth variable, the SSID, is copied in any case, and a line that does
not set it shows the SSID of the line before. White space in front of an SSID is passed over. A
frequency or a signal that is too long for its variable pushes the rest of the line into the
variables behind it, and what does not fit the buffer is read as a line of its own.

* `Reads` is what the scan is for: up to the caller's maximum, one entry for each network, in
  order, with the fields of its own line;
* `ScanResult.Fits` is the condition on a line, `ScanResult.Whole` that nothing that is left of it
  passes for a line;
* `reads_iff` says that these are exactly what is needed, and that the caller's array is
  terminated where a text fills its field.
-/

open Bytes CString Stdio

namespace JuliusOS.Wifi

/-! ### The program -/

/-- A `WifiNetwork`. -/
structure WifiNetwork where
  ssid : Buf 64
  bssid : Buf 18
  signal : ℤ
  freq : ℤ
  security : Buf 32

/-- What the arrays in the body of the loop hold up to a NUL, or to their end. They are declared
without a value, so a pass finds in them what the pass before has left. -/
structure ScanLocals where
  bssid : Bytes
  freq : Bytes
  signal : Bytes
  flags : Bytes
  ssid : Bytes

/-- `"%17s %7s %7s %127s %63[^\n]"`. -/
def scanFormat : List Directive :=
  [.word 17, .space, .word 7, .space, .word 7, .space, .word 127, .space, .line 63]

/-- Value number `i`, if it was assigned. -/
def assignedText (values : List Value) (i : ℕ) (old : Bytes) : Bytes :=
  match values[i]? with
  | some (.text s) => s
  | _ => old

/-- The arrays after `sscanf`; one that is not assigned keeps what it held. -/
def ScanLocals.assign (v : ScanLocals) (values : List Value) : ScanLocals :=
  ⟨assignedText values 0 v.bssid, assignedText values 1 v.freq, assignedText values 2 v.signal,
    assignedText values 3 v.flags, assignedText values 4 v.ssid⟩

/-- The name of what the flags say. -/
def securityName (flags : Bytes) : Bytes :=
  if strstr flags (ofAscii "WPA2") then ofAscii "WPA2"
  else if strstr flags (ofAscii "WPA") then ofAscii "WPA"
  else ofAscii "Open"

/-- What is written to the next entry. -/
def WifiNetwork.fill (v : ScanLocals) (net : WifiNetwork) : WifiNetwork where
  bssid := net.bssid.strncpy v.bssid 17 (Nat.le_succ 17)
  ssid := net.ssid.strncpy v.ssid 63 Buf.le_64
  freq := atoi v.freq
  signal := atoi v.signal
  security := net.security.strncpy (securityName v.flags) 31 (Nat.le_succ 31)

/-- The values that are read of a piece. -/
def scanValues (piece : Bytes) : List Value := sscanf scanFormat (cstr piece)

/-- The loop over what `fgets` reads; `count` entries are filled. -/
def scanLoop (networks : ℕ → WifiNetwork) (max : ℕ) :
    ScanLocals → ℕ → List Bytes → List WifiNetwork
  | _, _, [] => []
  | v, count, line :: lines =>
    if count < max then
      let v := v.assign (scanValues line)
      if 4 ≤ (scanValues line).length then
        (networks count).fill v :: scanLoop networks max v (count + 1) lines
      else scanLoop networks max v count lines
    else []

/-- `wifi_scan`: the entries that are filled. `stack` is what the local arrays hold at first,
`networks` the caller's array, and `output` what the command prints if it can be started. A
negative maximum is like zero. -/
def wifiScan (stack : ScanLocals) (networks : ℕ → WifiNetwork) (max : ℕ) (output : Option Bytes) :
    List WifiNetwork :=
  match output with
  | none => []
  | some text => scanLoop networks max stack 0 (pieces 256 text).tail

/-! ### What is printed -/

/-- A network that is listed. -/
structure ScanResult where
  bssid : Bytes
  freq : ℤ
  signal : ℤ
  flags : Bytes
  ssid : Bytes
  length_bssid : bssid.length = 17
  bssid_word : ∀ b ∈ bssid, isSpace b = false ∧ b ≠ 0
  freq_int : -2 ^ 31 ≤ freq ∧ freq < 2 ^ 31
  signal_int : -2 ^ 31 ≤ signal ∧ signal < 2 ^ 31
  flags_ne_nil : flags ≠ []
  flags_word : ∀ b ∈ flags, isSpace b = false ∧ b ≠ 0
  /-- The SSID may be empty and have any spaces. -/
  ssid_line : (10 : UInt8) ∉ ssid ∧ (0 : UInt8) ∉ ssid

/-- Its line. -/
def ScanResult.line (n : ScanResult) : Bytes :=
  n.bssid ++ 9 :: (decimalInt n.freq ++ 9 :: (decimalInt n.signal ++ 9 :: (n.flags ++ 9 :: n.ssid)))

/-- The lines of the networks. -/
def scanLines : List ScanResult → Bytes
  | [] => []
  | n :: ns => n.line ++ 10 :: scanLines ns

/-- What `wpa_cli scan_results` prints. -/
def scanResults (ns : List ScanResult) : Bytes :=
  ofAscii "bssid / frequency / signal level / flags / ssid" ++ 10 :: scanLines ns

/-- An entry has the fields of the network's line. -/
structure Shows (net : WifiNetwork) (n : ScanResult) : Prop where
  bssid : Holds net.bssid.bytes n.bssid
  freq : net.freq = n.freq
  signal : net.signal = n.signal
  security : Holds net.security.bytes (securityName n.flags)
  ssid : Holds net.ssid.bytes n.ssid

/-- **What the scan is for**: one entry for each network, in order, up to the maximum. -/
def Reads (stack : ScanLocals) (networks : ℕ → WifiNetwork) (ns : List ScanResult) : Prop :=
  ∀ max, List.Forall₂ Shows (wifiScan stack networks max (some (scanResults ns))) (ns.take max)

/-! ### The condition -/

/-- The SSID is what is read behind the flags, where `prev` was read before. -/
def ScanResult.SsidRead (prev : Bytes) (n : ScanResult) : Prop :=
  if n.flags.length ≤ 127 then
    if n.ssid.all isSpace then n.ssid = prev
    else n.ssid.length ≤ 63 ∧ ∀ b ∈ n.ssid.head?, isSpace b = false
  else n.ssid = (n.flags.drop 127 ++ 9 :: n.ssid).take 63

/-- The fields fit their variables, the flags as far as they name a security, and the SSID is
read. -/
structure ScanResult.Fits (prev : Bytes) (n : ScanResult) : Prop where
  freq : (decimalInt n.freq).length ≤ 7
  signal : (decimalInt n.signal).length ≤ 7
  security : securityName (n.flags.take 127) = securityName n.flags
  ssid : n.SsidRead prev

/-- The entry has a NUL behind what fills a field. -/
def ScanResult.FitsEntry (net : WifiNetwork) (n : ScanResult) : Prop :=
  LastZero net.bssid.bytes ∧ (n.ssid.length < 63 ∨ LastZero net.ssid.bytes)

/-- What does not fit the buffer does not pass for a line. -/
def ScanResult.Whole (n : ScanResult) : Prop :=
  ∀ piece ∈ (pieces 256 (n.line ++ [10])).tail, (scanValues piece).length < 4

/-- Every line fits, after the one before it, and so does its entry. -/
def AllFit (networks : ℕ → WifiNetwork) : Bytes → ℕ → List ScanResult → Prop
  | _, _, [] => True
  | prev, i, n :: ns => (n.Fits prev ∧ n.FitsEntry (networks i)) ∧ AllFit networks n.ssid (i + 1) ns

/-! ### The first piece of a line -/

variable {n : ScanResult} {v : ScanLocals}

namespace ScanResult

/-- What `fgets` reads of a line first. -/
def firstPiece (n : ScanResult) : Bytes := (n.line ++ [10]).take 255

/-- The flags and the SSID, cut to what is left of the buffer. -/
def tailText (n : ScanResult) : Bytes :=
  (n.flags ++ 9 :: (n.ssid ++ [10])).take
    (235 - ((decimalInt n.freq).length + (decimalInt n.signal).length))

theorem newline_notMem_line (n : ScanResult) : (10 : UInt8) ∉ n.line := by
  have hbssid : (10 : UInt8) ∉ n.bssid := fun h ↦ absurd (n.bssid_word 10 h).1 (by decide)
  have hflags : (10 : UInt8) ∉ n.flags := fun h ↦ absurd (n.flags_word 10 h).1 (by decide)
  have hnumber : ∀ z, (10 : UInt8) ∉ decimalInt z := fun z h ↦
    ((decimalInt_spec z).2 10 h).2.2 rfl
  simp [line, hbssid, hflags, hnumber, n.ssid_line.1]

theorem zero_notMem_line (n : ScanResult) : (0 : UInt8) ∉ n.line := by
  have hbssid : (0 : UInt8) ∉ n.bssid := fun h ↦ (n.bssid_word 0 h).2 rfl
  have hflags : (0 : UInt8) ∉ n.flags := fun h ↦ (n.flags_word 0 h).2 rfl
  have hnumber : ∀ z, (0 : UInt8) ∉ decimalInt z := fun z h ↦ ((decimalInt_spec z).2 0 h).2.1 rfl
  simp [line, hbssid, hflags, hnumber, n.ssid_line.2]

theorem cstr_firstPiece (n : ScanResult) : cstr n.firstPiece = n.firstPiece := by
  refine cstr_eq_self fun h ↦ ?_
  have hmem := List.mem_of_mem_take h
  simp [n.zero_notMem_line] at hmem

theorem firstPiece_eq (n : ScanResult) :
    n.firstPiece = n.bssid ++ 9 :: (decimalInt n.freq ++ 9 :: (decimalInt n.signal ++
      9 :: n.tailText)) := by
  have hfreq := length_decimalInt_le n.freq_int
  have hsignal := length_decimalInt_le n.signal_int
  have hbssid := n.length_bssid
  have hsplit : n.line ++ [10] =
      (n.bssid ++ 9 :: (decimalInt n.freq ++ 9 :: (decimalInt n.signal ++ [9]))) ++
        (n.flags ++ 9 :: (n.ssid ++ [10])) := by
    simp [line]
  have hlen : 255 =
      (n.bssid ++ 9 :: (decimalInt n.freq ++ 9 :: (decimalInt n.signal ++ [9]))).length +
        (235 - ((decimalInt n.freq).length + (decimalInt n.signal).length)) := by
    simp only [List.length_append, List.length_cons, List.length_nil]
    omega
  rw [firstPiece, hsplit, hlen, List.take_length_add_append, tailText]
  simp

end ScanResult

/-- White space behind a word. -/
theorem head_tab (rest : Bytes) : ∀ b ∈ (9 :: rest).head?, isSpace b = true := by
  rintro b ⟨⟩
  rfl

theorem skipSpace_cons_tab (rest : Bytes) : skipSpace (9 :: rest) = skipSpace rest := rfl

theorem skipSpace_tab {a : Bytes} (hne : a ≠ []) (ha : ∀ b ∈ a, isSpace b = false) (rest : Bytes) :
    skipSpace (9 :: (a ++ rest)) = a ++ rest := by
  refine (skipSpace_cons_tab (a ++ rest)).trans (skipSpace_of_head ?_)
  intro b hb
  rw [List.head?_append_of_ne_nil _ hne] at hb
  exact ha b (List.mem_of_mem_head? hb)

/-- Flags that fit their variable, and the SSID behind them. -/
theorem sscanf_flags_of_le {m : ℕ} (hm : 221 ≤ m) (h : n.flags.length ≤ 127) :
    sscanf [.word 127, .space, .line 63] ((n.flags ++ 9 :: (n.ssid ++ [10])).take m) =
      .text n.flags ::
        sscanf [.line 63] (skipSpace ((n.ssid ++ [10]).take (m - n.flags.length - 1))) := by
  have hlen : m = n.flags.length + (m - n.flags.length - 1 + 1) := by omega
  have htake : (n.flags ++ 9 :: (n.ssid ++ [10])).take m =
      n.flags ++ 9 :: (n.ssid ++ [10]).take (m - n.flags.length - 1) := by
    conv_lhs => rw [hlen, List.take_length_add_append, List.take_succ_cons]
  rw [htake, sscanf_word_of_le n.flags_ne_nil (fun b hb ↦ (n.flags_word b hb).1) (head_tab _) h]
  exact congrArg (fun t ↦ .text n.flags :: sscanf [.line 63] t) (skipSpace_cons_tab _)

/-- Flags that do not fit, and what is left of them in front of the SSID. -/
theorem sscanf_flags_of_lt {m : ℕ} (hm : 221 ≤ m) (h : 127 < n.flags.length) :
    sscanf [.word 127, .space, .line 63] ((n.flags ++ 9 :: (n.ssid ++ [10])).take m) =
      .text (n.flags.take 127) ::
        sscanf [.line 63] ((n.flags.drop 127 ++ 9 :: (n.ssid ++ [10])).take (m - 127)) := by
  have hword : ∀ b ∈ n.flags.take m, isSpace b = false := fun b hb ↦
    (n.flags_word b (List.mem_of_mem_take hb)).1
  have hrest : ∀ b ∈ ((9 :: (n.ssid ++ [10])).take (m - n.flags.length)).head?,
      isSpace b = true := by
    rcases m - n.flags.length with - | k
    · rintro b ⟨⟩
    · exact head_tab _
  have hsub : m - 127 - (n.flags.length - 127) = m - n.flags.length := by omega
  rw [List.take_append, sscanf_word_of_lt (by decide) hword hrest
    (by rw [List.length_take]; omega), List.take_take, Nat.min_eq_left (by omega), List.take_append,
    List.length_drop, hsub, List.drop_take]

theorem exists_sscanf_tailText (hfreq : (decimalInt n.freq).length ≤ 7)
    (hsignal : (decimalInt n.signal).length ≤ 7) :
    ∃ rest, sscanf [.word 127, .space, .line 63] n.tailText =
      .text (n.flags.take 127) :: rest := by
  rcases Nat.lt_or_ge 127 n.flags.length with hlt | hge
  · exact ⟨_, sscanf_flags_of_lt (by omega) hlt⟩
  · rw [List.take_of_length_le hge]
    exact ⟨_, sscanf_flags_of_le (by omega) hge⟩

/-- The flags begin right behind the tab. -/
theorem skipSpace_tailText (hfreq : (decimalInt n.freq).length ≤ 7)
    (hsignal : (decimalInt n.signal).length ≤ 7) : skipSpace (9 :: n.tailText) = n.tailText := by
  refine (skipSpace_cons_tab n.tailText).trans (skipSpace_of_head ?_)
  intro b hb
  rw [ScanResult.tailText, List.head?_take, if_neg (by omega),
    List.head?_append_of_ne_nil _ n.flags_ne_nil] at hb
  exact (n.flags_word b (List.mem_of_mem_head? hb)).1

/-- **Every line has four fields** in its first piece; the first two are the BSSID and the frequency
cut to seven characters. -/
theorem exists_scanValues (n : ScanResult) :
    ∃ signal flags rest, scanValues n.firstPiece =
      .text n.bssid :: .text ((decimalInt n.freq).take 7) :: .text signal :: .text flags :: rest ∧
        ((decimalInt n.freq).length ≤ 7 → signal = (decimalInt n.signal).take 7) ∧
          ((decimalInt n.freq).length ≤ 7 → (decimalInt n.signal).length ≤ 7 →
            .text flags :: rest = sscanf [.word 127, .space, .line 63] n.tailText) := by
  obtain ⟨hfreqne, hfreq⟩ := decimalInt_spec n.freq
  obtain ⟨hsignalne, hsignal⟩ := decimalInt_spec n.signal
  have hbssidne : n.bssid ≠ [] := List.ne_nil_of_length_eq_add_one n.length_bssid
  have hfreqword : ∀ b ∈ decimalInt n.freq, isSpace b = false := fun b hb ↦ (hfreq b hb).1
  have hsignalword : ∀ b ∈ decimalInt n.signal, isSpace b = false := fun b hb ↦ (hsignal b hb).1
  have hbssid : scanValues n.firstPiece = .text n.bssid ::
      sscanf [.word 7, .space, .word 7, .space, .word 127, .space, .line 63]
        (decimalInt n.freq ++ 9 :: (decimalInt n.signal ++ 9 :: n.tailText)) := by
    rw [scanValues, n.cstr_firstPiece, n.firstPiece_eq, scanFormat,
      sscanf_word_of_le hbssidne (fun b hb ↦ (n.bssid_word b hb).1) (head_tab _) n.length_bssid.le,
      skipSpace_tab hfreqne hfreqword]
  have hsignallen := length_decimalInt_le n.signal_int
  have hfreqlen := length_decimalInt_le n.freq_int
  rw [hbssid]
  rcases Nat.lt_or_ge 7 (decimalInt n.freq).length with hlt | hle
  · -- the rest of the frequency is taken for the signal, and the signal for the flags
    rw [sscanf_word_word (by decide) hfreqword (head_tab _) hlt (by omega),
      skipSpace_tab hsignalne hsignalword,
      sscanf_word_of_le hsignalne hsignalword (head_tab _) (by omega)]
    exact ⟨_, _, _, rfl, fun h ↦ absurd hlt (by omega), fun h ↦ absurd hlt (by omega)⟩
  · rw [sscanf_word_of_le hfreqne hfreqword (head_tab _) hle, List.take_of_length_le hle,
      skipSpace_tab hsignalne hsignalword]
    rcases Nat.lt_or_ge 7 (decimalInt n.signal).length with hlt | hle'
    · -- the rest of the signal is taken for the flags
      rw [sscanf_word_word (by decide) hsignalword (head_tab _) hlt (by omega)]
      exact ⟨_, _, _, rfl, fun _ ↦ rfl, fun _ h ↦ absurd hlt (by omega)⟩
    · obtain ⟨rest, htext⟩ := exists_sscanf_tailText hle hle'
      rw [sscanf_word_of_le hsignalne hsignalword (head_tab _) hle', List.take_of_length_le hle',
        skipSpace_tailText hle hle', htext]
      exact ⟨_, _, _, rfl, fun _ ↦ rfl, fun _ _ ↦ rfl⟩

/-! ### The SSID -/

/-- What is copied of the variable `ssid` after the rest of a line. -/
def copiedSsid (text old : Bytes) : Bytes :=
  if firstLine text = [] then (cstr old).take 63 else (firstLine text).take 63

theorem take_cstr_assignedText {text : Bytes} (htext : (0 : UInt8) ∉ text) (front : List Value)
    (old : Bytes) :
    (cstr (assignedText (front ++ sscanf [.line 63] text) front.length old)).take 63 =
      copiedSsid text old := by
  rw [assignedText, List.getElem?_append_right (Nat.le_refl _), Nat.sub_self,
    sscanf_line (by decide), copiedSsid]
  by_cases h : firstLine text = []
  · rw [if_pos h, if_pos h]
    rfl
  · rw [if_neg h, if_neg h]
    have hfree : (0 : UInt8) ∉ (firstLine text).take 63 := fun h ↦
      htext ((List.takeWhile_prefix _).subset (List.mem_of_mem_take h))
    exact (congrArg (List.take 63) (cstr_eq_self hfree)).trans
      (List.take_of_length_le (List.length_take_le ..))

theorem length_copiedSsid_le (text old : Bytes) : (copiedSsid text old).length ≤ 63 := by
  rw [copiedSsid]
  split <;> exact List.length_take_le ..

/-- **The SSID behind flags that fit** is what was there before if it is white, and otherwise it
has to fit and to start with what is not white. -/
theorem copiedSsid_of_le {k : ℕ} (hk : 93 ≤ k) (n : ScanResult) (old : Bytes) :
    copiedSsid (skipSpace ((n.ssid ++ [10]).take k)) old = n.ssid ↔
      if n.ssid.all isSpace then n.ssid = (cstr old).take 63
      else n.ssid.length ≤ 63 ∧ ∀ b ∈ n.ssid.head?, isSpace b = false := by
  rcases Nat.lt_or_ge 63 n.ssid.length with hlt | hle
  · -- it is longer than what is copied
    refine iff_of_false (fun h ↦ ?_) ?_
    · have hlen := length_copiedSsid_le (skipSpace ((n.ssid ++ [10]).take k)) old
      rw [h] at hlen
      omega
    · split_ifs
      · intro h
        have hlen := congrArg List.length h
        rw [List.length_take] at hlen
        omega
      · rintro ⟨h, -⟩
        omega
  have htake : (n.ssid ++ [10]).take k = n.ssid ++ [10] :=
    List.take_of_length_le (by rw [List.length_append, List.length_singleton]; omega)
  rw [htake]
  split_ifs with hspace
  · rw [skipSpace_append (List.all_eq_true.1 hspace)]
    exact eq_comm
  · have hne : skipSpace n.ssid ≠ [] := fun h ↦
      hspace (List.all_eq_true.2 (List.dropWhile_eq_nil_iff.1 h))
    have hskip : skipSpace (n.ssid ++ [10]) = skipSpace n.ssid ++ [10] := by
      rw [skipSpace, List.dropWhile_append, if_neg (by simpa [skipSpace] using hne)]
      rfl
    have hfree : (10 : UInt8) ∉ skipSpace n.ssid := fun h ↦
      n.ssid_line.1 ((List.dropWhile_suffix _).subset h)
    have hline : firstLine (skipSpace n.ssid ++ [10]) = skipSpace n.ssid := by
      rw [firstLine_append hfree]
      exact List.append_nil _
    have hlen : (skipSpace n.ssid).length ≤ 63 :=
      ((List.dropWhile_suffix _).length_le).trans hle
    rw [hskip, copiedSsid, hline, if_neg hne, List.take_of_length_le hlen, skipSpace_eq_self_iff]
    exact (and_iff_right hle).symm

/-- **The SSID behind flags that do not fit** is what is left of them, and then the SSID. -/
theorem copiedSsid_of_lt {k : ℕ} (hk : 93 ≤ k) (n : ScanResult) (old : Bytes) :
    copiedSsid ((n.flags.drop 127 ++ 9 :: (n.ssid ++ [10])).take k) old =
      (n.flags.drop 127 ++ 9 :: n.ssid).take 63 := by
  have hfree : (10 : UInt8) ∉ n.flags.drop 127 ++ 9 :: n.ssid := by
    have hflags : (10 : UInt8) ∉ n.flags.drop 127 := fun h ↦
      absurd (n.flags_word 10 (List.mem_of_mem_drop h)).1 (by decide)
    simp [hflags, n.ssid_line.1]
  have hline : firstLine ((n.flags.drop 127 ++ 9 :: (n.ssid ++ [10])).take k) =
      (n.flags.drop 127 ++ 9 :: n.ssid).take k := by
    have hassoc : n.flags.drop 127 ++ 9 :: (n.ssid ++ [10]) =
        (n.flags.drop 127 ++ 9 :: n.ssid) ++ [10] := by
      simp
    rw [firstLine_take, hassoc, firstLine_append hfree]
    exact congrArg (List.take k) (List.append_nil _)
  have hne : (n.flags.drop 127 ++ 9 :: n.ssid).take k ≠ [] := by
    simp [List.take_eq_nil_iff]
    omega
  rw [copiedSsid, hline, if_neg hne, List.take_take, Nat.min_eq_left (by omega)]

/-! ### An entry -/

/-- The arrays after the first piece of a line. -/
def ScanLocals.read (v : ScanLocals) (n : ScanResult) : ScanLocals :=
  v.assign (scanValues n.firstPiece)

/-- **The SSID after a line** whose numbers fit. -/
theorem take_ssid_read_iff (v : ScanLocals) (hfreq : (decimalInt n.freq).length ≤ 7)
    (hsignal : (decimalInt n.signal).length ≤ 7) :
    (cstr (v.read n).ssid).take 63 = n.ssid ↔ n.SsidRead ((cstr v.ssid).take 63) := by
  obtain ⟨signal, flags, rest, hvalues, -, htail⟩ := exists_scanValues n
  have hrest := htail hfreq hsignal
  have hfront : ∀ text, (0 : UInt8) ∉ text → rest = sscanf [.line 63] text →
      (cstr (v.read n).ssid).take 63 = copiedSsid text v.ssid := by
    intro text htext hline
    rw [ScanLocals.read, hvalues, hline]
    exact take_cstr_assignedText htext
      [.text n.bssid, .text ((decimalInt n.freq).take 7), .text signal, .text flags] v.ssid
  have hflagsfree : (0 : UInt8) ∉ n.flags.drop 127 := fun h ↦
    (n.flags_word 0 (List.mem_of_mem_drop h)).2 rfl
  rw [ScanResult.SsidRead]
  rcases Nat.lt_or_ge 127 n.flags.length with hlt | hle
  · rw [ScanResult.tailText, sscanf_flags_of_lt (by omega) hlt] at hrest
    rw [if_neg (by omega), hfront _ _ (List.cons.inj hrest).2, copiedSsid_of_lt (by omega)]
    · exact eq_comm
    · intro h
      have hmem := List.mem_of_mem_take h
      simp [hflagsfree, n.ssid_line.2] at hmem
  · rw [ScanResult.tailText, sscanf_flags_of_le (by omega) hle] at hrest
    rw [if_pos hle, hfront _ _ (List.cons.inj hrest).2, copiedSsid_of_le (by omega)]
    intro h
    have hmem := List.mem_of_mem_take ((List.dropWhile_suffix _).subset h)
    simp [n.ssid_line.2] at hmem

theorem securityName_spec (flags : Bytes) :
    (0 : UInt8) ∉ securityName flags ∧ (securityName flags).length ≤ 4 := by
  rw [securityName]
  split_ifs <;> decide

theorem flags_read (v : ScanLocals) (hfreq : (decimalInt n.freq).length ≤ 7)
    (hsignal : (decimalInt n.signal).length ≤ 7) : (v.read n).flags = n.flags.take 127 := by
  obtain ⟨signal, flags, rest, hvalues, -, htail⟩ := exists_scanValues n
  obtain ⟨rest', htext⟩ := exists_sscanf_tailText hfreq hsignal
  have hhead := (htail hfreq hsignal).trans htext
  rw [List.cons.injEq, Value.text.injEq] at hhead
  rw [ScanLocals.read, hvalues, ← hhead.1]
  rfl

theorem holds_bssid_iff (v : ScanLocals) (net : WifiNetwork) (n : ScanResult) :
    Holds (net.fill (v.read n)).bssid.bytes n.bssid ↔ LastZero net.bssid.bytes := by
  have hfree : (0 : UInt8) ∉ n.bssid := fun h ↦ (n.bssid_word 0 h).2 rfl
  have hread : (v.read n).bssid = n.bssid := by
    obtain ⟨signal, flags, rest, hvalues, -⟩ := exists_scanValues n
    rw [ScanLocals.read, hvalues]
    rfl
  have hlen := n.length_bssid
  refine (holds_strncpy_iff net.bssid.length_bytes).trans ?_
  rw [hread, cstr_eq_self hfree, List.take_of_length_le hlen.le, and_iff_right rfl]
  exact or_iff_right (by omega)

theorem freq_fill_iff (v : ScanLocals) (net : WifiNetwork) (n : ScanResult) :
    (net.fill (v.read n)).freq = n.freq ↔ (decimalInt n.freq).length ≤ 7 := by
  have hread : (v.read n).freq = (decimalInt n.freq).take 7 := by
    obtain ⟨signal, flags, rest, hvalues, -⟩ := exists_scanValues n
    rw [ScanLocals.read, hvalues]
    rfl
  rw [WifiNetwork.fill, hread, atoi_take_decimalInt n.freq_int (by decide)]

theorem signal_fill_iff (v : ScanLocals) (net : WifiNetwork)
    (hfreq : (decimalInt n.freq).length ≤ 7) :
    (net.fill (v.read n)).signal = n.signal ↔ (decimalInt n.signal).length ≤ 7 := by
  have hread : (v.read n).signal = (decimalInt n.signal).take 7 := by
    obtain ⟨signal, flags, rest, hvalues, hsignal, -⟩ := exists_scanValues n
    rw [ScanLocals.read, hvalues, ← hsignal hfreq]
    rfl
  rw [WifiNetwork.fill, hread, atoi_take_decimalInt n.signal_int (by decide)]

theorem holds_security_iff (v : ScanLocals) (net : WifiNetwork) (n : ScanResult) :
    Holds (net.fill (v.read n)).security.bytes (securityName n.flags) ↔
      securityName (v.read n).flags = securityName n.flags := by
  obtain ⟨hfree, hlen⟩ := securityName_spec (v.read n).flags
  have hlen' := (securityName_spec n.flags).2
  refine (holds_strncpy_iff net.security.length_bytes).trans ?_
  rw [cstr_eq_self hfree, List.take_of_length_le (by omega)]
  exact and_iff_left (Or.inl (by omega))

theorem holds_ssid_iff (v : ScanLocals) (net : WifiNetwork) (n : ScanResult) :
    Holds (net.fill (v.read n)).ssid.bytes n.ssid ↔
      (cstr (v.read n).ssid).take 63 = n.ssid ∧ (n.ssid.length < 63 ∨ LastZero net.ssid.bytes) :=
  holds_strncpy_iff net.ssid.length_bytes

/-- **An entry shows its line** exactly if both fit. -/
theorem shows_fill_iff (v : ScanLocals) (net : WifiNetwork) (n : ScanResult) :
    Shows (net.fill (v.read n)) n ↔ n.Fits ((cstr v.ssid).take 63) ∧ n.FitsEntry net := by
  constructor
  · intro h
    have hfreq := (freq_fill_iff v net n).1 h.freq
    have hsignal := (signal_fill_iff v net hfreq).1 h.signal
    have hsecurity := (holds_security_iff v net n).1 h.security
    rw [flags_read v hfreq hsignal] at hsecurity
    obtain ⟨hssid, hentry⟩ := (holds_ssid_iff v net n).1 h.ssid
    exact ⟨⟨hfreq, hsignal, hsecurity, (take_ssid_read_iff v hfreq hsignal).1 hssid⟩,
      (holds_bssid_iff v net n).1 h.bssid, hentry⟩
  · rintro ⟨⟨hfreq, hsignal, hsecurity, hssid⟩, hbssid, hentry⟩
    rw [← flags_read v hfreq hsignal] at hsecurity
    exact ⟨(holds_bssid_iff v net n).2 hbssid, (freq_fill_iff v net n).2 hfreq,
      (signal_fill_iff v net hfreq).2 hsignal, (holds_security_iff v net n).2 hsecurity,
      (holds_ssid_iff v net n).2 ⟨(take_ssid_read_iff v hfreq hsignal).2 hssid, hentry⟩⟩

/-! ### The loop -/

variable {networks : ℕ → WifiNetwork} {max : ℕ}

theorem scanLoop_of_le {i : ℕ} (h : max ≤ i) (v : ScanLocals) (lines : List Bytes) :
    scanLoop networks max v i lines = [] := by
  cases lines with
  | nil => rfl
  | cons line lines => exact if_neg (Nat.not_lt.2 h)

/-- Pieces with fewer fields are passed over, and leave the SSID alone. -/
theorem scanLoop_append {ps : List Bytes} (h : ∀ p ∈ ps, (scanValues p).length < 4)
    (v : ScanLocals) (i : ℕ) (rest : List Bytes) :
    ∃ v' : ScanLocals, v'.ssid = v.ssid ∧
      scanLoop networks max v i (ps ++ rest) = scanLoop networks max v' i rest := by
  induction ps generalizing v with
  | nil => exact ⟨v, rfl, rfl⟩
  | cons p ps ih =>
    obtain ⟨hp, hps⟩ := List.forall_mem_cons.1 h
    obtain ⟨v', hssid, hloop⟩ := ih hps (v.assign (scanValues p))
    have hkept : assignedText (scanValues p) 4 v.ssid = v.ssid := by
      rw [assignedText, List.getElem?_eq_none (by omega)]
    refine ⟨v', hssid.trans hkept, ?_⟩
    rw [List.cons_append, scanLoop]
    split
    next => exact (if_neg (by omega)).trans hloop
    next hge => exact (scanLoop_of_le (Nat.not_lt.1 hge) v' rest).symm

/-- The pieces of a line. -/
theorem pieces_line_eq (n : ScanResult) (rest : Bytes) :
    pieces 256 (n.line ++ 10 :: rest) =
      n.firstPiece :: ((pieces 256 (n.line ++ [10])).tail ++ pieces 256 rest) := by
  obtain ⟨ps, hps⟩ := exists_pieces n.newline_notMem_line (show 1 < 256 by decide)
  rw [pieces_line, hps]
  rfl

/-- **One line fills one entry**, if nothing that is left of it passes for a line. -/
theorem scanLoop_line (h : n.Whole) {i : ℕ} (hi : i < max) (v : ScanLocals) (rest : Bytes) :
    ∃ v' : ScanLocals, v'.ssid = (v.read n).ssid ∧
      scanLoop networks max v i (pieces 256 (n.line ++ 10 :: rest)) =
        (networks i).fill (v.read n) :: scanLoop networks max v' (i + 1) (pieces 256 rest) := by
  obtain ⟨v', hssid, hloop⟩ := scanLoop_append h (v.read n) (i + 1) (pieces 256 rest)
  have hfour : 4 ≤ (scanValues n.firstPiece).length := by
    obtain ⟨signal, flags, rest, hvalues, -⟩ := exists_scanValues n
    rw [hvalues]
    simp
  refine ⟨v', hssid, ?_⟩
  rw [pieces_line_eq, scanLoop, if_pos hi, ← hloop]
  exact if_pos hfour

/-- **The entries show the lines** exactly if all of them fit. -/
theorem forall₂_scanLoop_iff {ns : List ScanResult} (h : ∀ n ∈ ns, n.Whole) (v : ScanLocals)
    (i : ℕ) :
    List.Forall₂ Shows (scanLoop networks max v i (pieces 256 (scanLines ns)))
        (ns.take (max - i)) ↔
      AllFit networks ((cstr v.ssid).take 63) i (ns.take (max - i)) := by
  induction ns generalizing v i with
  | nil =>
    rw [List.take_nil]
    exact iff_of_true .nil trivial
  | cons n ns ih =>
    obtain ⟨hn, hns⟩ := List.forall_mem_cons.1 h
    rcases Nat.lt_or_ge i max with hlt | hge
    · obtain ⟨v', hssid, hloop⟩ := scanLoop_line hn hlt v (scanLines ns)
      have hsub : max - i = max - (i + 1) + 1 := by omega
      rw [scanLines, hloop, hsub, List.take_succ_cons, List.forall₂_cons, AllFit, shows_fill_iff,
        ih hns]
      refine and_congr_right fun hfits ↦ ?_
      -- what fits is in the variable
      have hread := ((holds_ssid_iff v (networks i) n).1 ((shows_fill_iff v _ n).2 hfits).ssid).1
      rw [hssid, hread]
    · rw [scanLoop_of_le hge, Nat.sub_eq_zero_of_le hge]
      exact iff_of_true .nil trivial

/-! ### What does not fit the buffer -/

/-- A piece with four fields. -/
def Full (piece : Bytes) : Bool := decide (4 ≤ (scanValues piece).length)

/-- With room for all, each piece with four fields fills an entry. -/
theorem length_scanLoop {lines : List Bytes} {i : ℕ} (h : i + lines.length ≤ max)
    (v : ScanLocals) : (scanLoop networks max v i lines).length = lines.countP Full := by
  induction lines generalizing v i with
  | nil => rfl
  | cons line lines ih =>
    rw [List.length_cons] at h
    rw [scanLoop, if_pos (by omega), List.countP_cons]
    have hfull : Full line = true ↔ 4 ≤ (scanValues line).length := decide_eq_true_iff
    by_cases hfour : 4 ≤ (scanValues line).length
    · rw [if_pos hfour, if_pos (hfull.2 hfour), List.length_cons, ih (by omega)]
    · rw [if_neg hfour, if_neg (mt hfull.1 hfour), ih (by omega)]
      rfl

theorem countP_pieces (n : ScanResult) (rest : Bytes) :
    (pieces 256 (n.line ++ 10 :: rest)).countP Full =
      (pieces 256 (n.line ++ [10])).tail.countP Full + (pieces 256 rest).countP Full + 1 := by
  have hfull : Full n.firstPiece = true := by
    obtain ⟨signal, flags, rest, hvalues, -⟩ := exists_scanValues n
    rw [Full, hvalues]
    simp
  rw [pieces_line_eq, List.countP_cons, if_pos hfull, List.countP_append]

/-- Each line has a piece with four fields, and with no more of them nothing else passes for a
line. -/
theorem whole_of_countP {ns : List ScanResult} :
    ns.length ≤ (pieces 256 (scanLines ns)).countP Full ∧
      ((pieces 256 (scanLines ns)).countP Full = ns.length → ∀ n ∈ ns, n.Whole) := by
  induction ns with
  | nil => exact ⟨Nat.zero_le _, fun _ ↦ List.forall_mem_nil _⟩
  | cons n ns ih =>
    obtain ⟨hle, hwhole⟩ := ih
    rw [scanLines, countP_pieces, List.length_cons]
    refine ⟨by omega, fun h ↦ List.forall_mem_cons.2 ⟨?_, hwhole (by omega)⟩⟩
    have hzero : (pieces 256 (n.line ++ [10])).tail.countP Full = 0 := by omega
    intro piece hpiece
    have hnot := List.countP_eq_zero.1 hzero piece hpiece
    simpa [Full] using hnot

/-- A line that fits the buffer is whole. -/
theorem ScanResult.whole_of_le (h : n.line.length ≤ 254) : n.Whole := by
  have hpieces : pieces 256 (n.line ++ [10]) = [n.line ++ [10]] :=
    pieces_append n.newline_notMem_line (by omega) []
  rw [Whole, hpieces]
  exact List.forall_mem_nil _

/-! ### A scan -/

theorem AllFit.take {prev : Bytes} {i : ℕ} {ns : List ScanResult} (h : AllFit networks prev i ns)
    (k : ℕ) : AllFit networks prev i (ns.take k) := by
  induction ns generalizing prev i k with
  | nil => rwa [List.take_nil]
  | cons n ns ih =>
    cases k with
    | zero => trivial
    | succ k => exact ⟨h.1, ih h.2 k⟩

theorem wifiScan_scanResults (stack : ScanLocals) (ns : List ScanResult) :
    wifiScan stack networks max (some (scanResults ns)) =
      scanLoop networks max stack 0 (pieces 256 (scanLines ns)) := by
  rw [wifiScan, scanResults, pieces_append (by decide) (by decide)]
  rfl

/-- The names of the networks. -/
theorem map_ssid_of_shows {es : List WifiNetwork} {ns : List ScanResult}
    (h : List.Forall₂ Shows es ns) : es.map (fun net ↦ cstr net.ssid.bytes) = ns.map (·.ssid) := by
  induction h with
  | nil => rfl
  | cons hshows _ ih => rw [List.map_cons, List.map_cons, hshows.ssid.2, ih]

theorem isWord_of_all {a : Bytes} (h : (a.all fun b ↦ !isSpace b && b != 0) = true) :
    ∀ b ∈ a, isSpace b = false ∧ b ≠ 0 := by
  intro b hb
  have hword := List.all_eq_true.1 h b hb
  simp only [Bool.and_eq_true, Bool.not_eq_true', bne_iff_ne] at hword
  exact hword

/-- An open network on channel 6. -/
def openNetwork (ssid : Bytes) (h : (10 : UInt8) ∉ ssid ∧ (0 : UInt8) ∉ ssid) : ScanResult where
  bssid := ofAscii "02:00:00:00:00:00"
  freq := 2437
  signal := -50
  flags := ofAscii "[ESS]"
  ssid := ssid
  length_bssid := rfl
  bssid_word := isWord_of_all rfl
  freq_int := by decide
  signal_int := by decide
  flags_ne_nil := List.cons_ne_nil _ _
  flags_word := isWord_of_all rfl
  ssid_line := h

end JuliusOS.Wifi
