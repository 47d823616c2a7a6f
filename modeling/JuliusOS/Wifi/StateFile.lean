import JuliusOS.Foundations.TextLines
import JuliusOS.Foundations.Utf8
import JuliusOS.Wifi.Daemon
import Mathlib.Logic.Function.Basic

/-!
# The state file of the WiFi daemon

The main loop of `julius_wifi.c` prints its state in lines `key=value`; `JuliusBridge.read_state`
reads all of them, and the fallback of `JuliusStatus.update` looks for three of them. The network's
name is printed as it is. The two readers strip spaces and split at `=` in different ways, and the
one behind the bridge does not assign the signal.

`wifi_state_agreement_iff` says for which states what is printed is read back, and both ways of
`update` leave the same. The other files that `update` reads are left out, and so are writes that a
reader meets half done.
-/

open CString Python Utf8

namespace JuliusOS.Wifi

/-! ### The writer -/

/-- `"connected"`. -/
abbrev connectedKey : List Char := ['c', 'o', 'n', 'n', 'e', 'c', 't', 'e', 'd']

/-- `"ssid"`. -/
abbrev ssidKey : List Char := ['s', 's', 'i', 'd']

/-- `"ip"`. -/
abbrev ipKey : List Char := ['i', 'p']

/-- `"signal"`. -/
abbrev signalKey : List Char := ['s', 'i', 'g', 'n', 'a', 'l']

/-- `"enabled"`. -/
abbrev enabledKey : List Char := ['e', 'n', 'a', 'b', 'l', 'e', 'd']

/-- `fprintf(f, "key=%s\n", value)`. -/
def printLine (key : List Char) (value : Bytes) : Bytes :=
  encode (key ++ ['=']) ++ value ++ encode ['\n']

/-- `fprintf(f, "key=%d\n", value)`. -/
def printNumber (key : List Char) (value : ℤ) : Bytes := printLine key (encode (decimal value))

/-- The file that the main loop writes. -/
def printState (s : WifiState) : Bytes :=
  printNumber connectedKey s.connected ++ printLine ssidKey (cstr s.ssid.bytes) ++
    printLine ipKey (cstr s.ip.bytes) ++ printNumber signalKey s.signal ++
    printNumber enabledKey s.enabled

/-! ### The bridge -/

/-- The `dict` of `read_state`. -/
abbrev StateDict := List Char → Option (List Char)

/-- What `read_state` does with a line. -/
def readLine (state : StateDict) (line : List Char) : StateDict :=
  let line := strip line
  if '=' ∈ line then
    Function.update state (strip (line.takeWhile (· ≠ '=')))
      (some (strip ((line.dropWhile (· ≠ '=')).drop 1)))
  else state

/-- `JuliusBridge.read_state`, from the file if there is one. A file that cannot be decoded raises
before the first line, and that is caught. -/
def readState (file : Option Bytes) : StateDict :=
  match file.bind decodeStrict with
  | some text => (lines text).foldl readLine fun _ ↦ none
  | none => fun _ ↦ none

/-! ### The status -/

/-- The fields of a `JuliusStatus` that `update` takes from the WiFi daemon, and `last_update`. An
event may have left any value in the fields. -/
structure JuliusStatus where
  /-- `wifi_connected`. -/
  wifiConnected : Value
  /-- `wifi_ssid`. -/
  wifiSsid : Value
  /-- `wifi_signal`. -/
  wifiSignal : Value
  /-- `last_update`. -/
  lastUpdate : ℚ

/-- A `str` as a value. -/
def strValue (s : List Char) : Value := .str (s.map Char.toNat)

/-- `line.strip().split("=")[1]`. -/
def secondField (line : List Char) : Option (List Char) := ((strip line).splitOn '=')[1]?

/-- The loop of `_read_wifi`. A missing field raises, and that ends the loop. -/
def readWifiLines : List (List Char) → JuliusStatus → JuliusStatus
  | [], st => st
  | line :: rest, st =>
    if (connectedKey ++ ['=']).isPrefixOf line then
      match secondField line with
      | some v => readWifiLines rest { st with wifiConnected := .bool (v = ['1']) }
      | none => st
    else if (ssidKey ++ ['=']).isPrefixOf line then
      match secondField line with
      | some v => readWifiLines rest { st with wifiSsid := strValue v }
      | none => st
    else if (signalKey ++ ['=']).isPrefixOf line then
      -- whatever is raised here is caught here
      match (secondField line).bind int? with
      | some z => readWifiLines rest { st with wifiSignal := .int z }
      | none => readWifiLines rest st
    else readWifiLines rest st

/-- `_read_wifi`. -/
def readWifi (file : Option Bytes) (st : JuliusStatus) : JuliusStatus :=
  match file.bind decodeStrict with
  | some text => readWifiLines (lines text) st
  | none => st

/-- `update`, with a bridge or without. -/
def update (now : ℚ) (bridge : Bool) (file : Option Bytes) (st : JuliusStatus) : JuliusStatus :=
  if now - st.lastUpdate < 5 then st
  else
    let st := { st with lastUpdate := now }
    if bridge then
      let wifi := readState file
      { st with
        wifiConnected := .bool ((wifi connectedKey).getD ['0'] = ['1'])
        wifiSsid := strValue ((wifi ssidKey).getD []) }
    else readWifi file st

/-! ### Agreement -/

/-- What `read_state` gives back is what was printed. -/
structure ReadBack (s : WifiState) : Prop where
  /-- `connected`. -/
  connected : (readState (some (printState s)) connectedKey).bind int? = some s.connected
  /-- `ssid`. -/
  ssid : ∃ v, readState (some (printState s)) ssidKey = some v ∧ encode v = cstr s.ssid.bytes
  /-- `ip`. -/
  ip : ∃ v, readState (some (printState s)) ipKey = some v ∧ encode v = cstr s.ip.bytes
  /-- `signal`. -/
  signal : (readState (some (printState s)) signalKey).bind int? = some s.signal

/-- `update` leaves the same with a bridge and without. -/
structure SameUpdate (now : ℚ) (s : WifiState) (st : JuliusStatus) : Prop where
  /-- `wifi_connected`. -/
  connected : (update now true (some (printState s)) st).wifiConnected =
    (update now false (some (printState s)) st).wifiConnected
  /-- `wifi_ssid`. -/
  ssid : (update now true (some (printState s)) st).wifiSsid =
    (update now false (some (printState s)) st).wifiSsid
  /-- `wifi_signal`. -/
  signal : (update now true (some (printState s)) st).wifiSignal =
    (update now false (some (printState s)) st).wifiSignal

/-- A text that a reader of lines and of stripped values gets whole. -/
structure OneValue (v : List Char) : Prop where
  /-- It is on one line, also for Python. -/
  line : '\n' ∉ v ∧ '\r' ∉ v
  /-- It has no spaces at its ends. -/
  strip : strip v = v

/-- The states, and what the status was before, for which the readers agree with the writer and with
each other. -/
def Agreeable (now : ℚ) (s : WifiState) (st : JuliusStatus) : Prop :=
  ∃ ssid ip, (encode ssid = cstr s.ssid.bytes ∧ OneValue ssid) ∧
    (encode ip = cstr s.ip.bytes ∧ OneValue ip) ∧
    (now - st.lastUpdate < 5 ∨ '=' ∉ ssid ∧ st.wifiSignal = .int s.signal)

/-! ### What comes back -/

variable {key key' v ssid ip : List Char} {s : WifiState} {st : JuliusStatus} {now : ℚ}

/-- A line assigns what is stripped. -/
theorem oneValue_readLine {state : StateDict} {line : List Char}
    (hline : '\n' ∉ strip line ∧ '\r' ∉ strip line)
    (hstate : ∀ k w, state k = some w → OneValue w) :
    ∀ k w, readLine state line k = some w → OneValue w := by
  intro k w hw
  rw [readLine] at hw
  split at hw
  next =>
    rw [Function.update_apply] at hw
    split at hw
    next =>
      obtain rfl := Option.some.inj hw
      have hsub : ∀ c ∈ strip (((strip line).dropWhile (· ≠ '=')).drop 1), c ∈ strip line :=
        fun c hc ↦ (List.dropWhile_sublist _).subset (List.mem_of_mem_drop (mem_of_mem_strip hc))
      exact ⟨⟨fun hc ↦ hline.1 (hsub _ hc), fun hc ↦ hline.2 (hsub _ hc)⟩, strip_strip _⟩
    next => exact hstate k w hw
  next => exact hstate k w hw

theorem oneValue_foldl {ls : List (List Char)} {state : StateDict}
    (hls : ∀ l ∈ ls, '\n' ∉ strip l ∧ '\r' ∉ strip l)
    (hstate : ∀ k w, state k = some w → OneValue w) :
    ∀ k w, ls.foldl readLine state k = some w → OneValue w := by
  induction ls generalizing state with
  | nil => exact hstate
  | cons l ls ih =>
    exact ih (fun l' hl' ↦ hls l' (List.mem_cons_of_mem _ hl'))
      (oneValue_readLine (hls l List.mem_cons_self) hstate)

/-- **Whatever is read back** is on one line and without spaces at its ends. -/
theorem oneValue_of_readState {file : Option Bytes} (h : readState file key = some v) :
    OneValue v := by
  cases htext : file.bind decodeStrict with
  | none =>
    rw [readState, htext] at h
    cases h
  | some text =>
    rw [readState, htext] at h
    exact oneValue_foldl (fun l hl ↦ notMem_strip_of_mem_lines hl) (fun _ _ hnone ↦ by cases hnone)
      key v h

/-- A key has neither spaces nor an equals sign. -/
def IsKey (key : List Char) : Prop := ∀ c ∈ key, isSpace c = false ∧ c ≠ '='

theorem isKey_of_all {key : List Char} (h : (key.all fun c ↦ !isSpace c && c != '=') = true) :
    IsKey key := by
  intro c hc
  simpa using List.all_eq_true.1 h c hc

theorem isKey_connectedKey : IsKey connectedKey := isKey_of_all rfl

theorem isKey_ssidKey : IsKey ssidKey := isKey_of_all rfl

theorem isKey_ipKey : IsKey ipKey := isKey_of_all rfl

theorem isKey_signalKey : IsKey signalKey := isKey_of_all rfl

theorem isKey_enabledKey : IsKey enabledKey := isKey_of_all rfl

/-- A line of the file, as text. -/
def entryLine (e : List Char × List Char) : List Char := (e.1 ++ ['='] ++ e.2) ++ ['\n']

theorem encode_entryLine (key v : List Char) : encode (entryLine (key, v)) =
    printLine key (encode v) := by
  rw [entryLine, printLine, encode_append, encode_append]

theorem IsKey.notMem (hkey : IsKey key) : '=' ∉ key := fun h ↦ (hkey _ h).2 rfl

/-- A line is stripped of its newline. -/
theorem strip_entryLine (hkey : IsKey key) (hv : OneValue v) :
    strip (entryLine (key, v)) = key ++ '=' :: v := by
  rw [entryLine, strip_concat _ (by decide), strip_append _ _ (by simp) hv.strip,
    List.append_assoc, List.singleton_append]
  · intro c hc
    cases key with
    | nil => exact Option.some.inj hc ▸ by decide
    | cons a key =>
      obtain rfl := Option.some.inj hc
      exact (hkey _ List.mem_cons_self).1
  · intro c hc
    rw [List.getLast?_concat] at hc
    exact Option.some.inj hc ▸ by decide

/-- `read_state` finds the key and the value of a line. -/
theorem readLine_entryLine (state : StateDict) (hkey : IsKey key) (hv : OneValue v) :
    readLine state (entryLine (key, v)) = Function.update state key (some v) := by
  have hstrip : strip key = key := strip_of_forall fun c hc ↦ (hkey c hc).1
  have hall : ∀ c ∈ key, decide (c ≠ '=') = true := fun c hc ↦ decide_eq_true (hkey c hc).2
  rw [readLine, strip_entryLine hkey hv, if_pos (List.mem_append_right _ List.mem_cons_self),
    List.takeWhile_append_of_pos hall, List.dropWhile_append_of_pos hall,
    List.takeWhile_cons_of_neg (by decide), List.dropWhile_cons_of_neg (by decide),
    List.append_nil, hstrip, List.drop_one, List.tail_cons, hv.strip]

/-! ### The printed file, as text -/

/-- The entries that are printed. -/
def entries (s : WifiState) (ssid ip : List Char) : List (List Char × List Char) :=
  [(connectedKey, decimal s.connected), (ssidKey, ssid), (ipKey, ip),
    (signalKey, decimal s.signal), (enabledKey, decimal s.enabled)]

theorem printState_eq (hssid : encode ssid = cstr s.ssid.bytes)
    (hip : encode ip = cstr s.ip.bytes) :
    printState s = encode ((entries s ssid ip).flatMap entryLine) := by
  rw [printState, ← hssid, ← hip]
  simp only [entries, List.flatMap_cons, List.flatMap_nil, encode_append, encode_entryLine,
    printNumber, List.append_nil, List.append_assoc]

/-- An entry is on one line. -/
theorem notMem_entry (hkey : IsKey key) (hv : OneValue v) :
    '\n' ∉ key ++ ['='] ++ v ∧ '\r' ∉ key ++ ['='] ++ v := by
  have hspace : ∀ c, isSpace c = true → c ∉ key := fun c hc hmem ↦
    absurd (hc.symm.trans (hkey c hmem).1) (by decide)
  constructor
  · simp [hspace '\n' (by decide), hv.line.1]
  · simp [hspace '\r' (by decide), hv.line.2]

theorem notMem_entries {es : List (List Char × List Char)}
    (hes : ∀ e ∈ es, IsKey e.1 ∧ OneValue e.2) : '\r' ∉ es.flatMap entryLine := by
  rw [List.mem_flatMap]
  rintro ⟨e, he, hmem⟩
  obtain ⟨hkey, hv⟩ := hes e he
  rcases List.mem_append.1 hmem with hmem | hmem
  · exact (notMem_entry hkey hv).2 hmem
  · exact absurd hmem (by decide)

/-- **The lines of a text of entries.** -/
theorem lines_entries {es : List (List Char × List Char)}
    (hes : ∀ e ∈ es, IsKey e.1 ∧ OneValue e.2) :
    lines (es.flatMap entryLine) = es.map entryLine := by
  induction es with
  | nil => rfl
  | cons e es ih =>
    have hfirst : entryLine e ++ es.flatMap entryLine =
        (e.1 ++ ['='] ++ e.2) ++ '\n' :: es.flatMap entryLine := by
      rw [entryLine, List.append_assoc, List.singleton_append]
    have hcr := notMem_entries hes
    obtain ⟨hkey, hv⟩ := hes e List.mem_cons_self
    rw [List.flatMap_cons, hfirst] at hcr
    rw [List.flatMap_cons, hfirst, lines_cons (notMem_entry hkey hv).1 hcr,
      ih fun e' he' ↦ hes e' (List.mem_cons_of_mem _ he')]
    rfl

theorem oneValue_decimal (z : ℤ) : OneValue (decimal z) where
  line := ⟨fun h ↦ absurd (isSpace_of_mem_decimal h) (by decide),
    fun h ↦ absurd (isSpace_of_mem_decimal h) (by decide)⟩
  strip := strip_decimal z

theorem entries_ok (s : WifiState) (hssid : OneValue ssid) (hip : OneValue ip) :
    ∀ e ∈ entries s ssid ip, IsKey e.1 ∧ OneValue e.2 := by
  intro e he
  simp only [entries, List.mem_cons, List.not_mem_nil, or_false] at he
  rcases he with rfl | rfl | rfl | rfl | rfl
  · exact ⟨isKey_connectedKey, oneValue_decimal _⟩
  · exact ⟨isKey_ssidKey, hssid⟩
  · exact ⟨isKey_ipKey, hip⟩
  · exact ⟨isKey_signalKey, oneValue_decimal _⟩
  · exact ⟨isKey_enabledKey, oneValue_decimal _⟩

/-- The file, decoded. -/
theorem decode_printState (hssid : encode ssid = cstr s.ssid.bytes)
    (hip : encode ip = cstr s.ip.bytes) :
    (some (printState s)).bind decodeStrict = some ((entries s ssid ip).flatMap entryLine) := by
  rw [Option.bind_some, printState_eq hssid hip, decodeStrict_encode]

/-! ### The two readers -/

/-- **What the bridge reads** are the entries. -/
theorem readState_printState (hssid : encode ssid = cstr s.ssid.bytes)
    (hip : encode ip = cstr s.ip.bytes) (hs : OneValue ssid) (hi : OneValue ip) :
    readState (some (printState s)) connectedKey = some (decimal s.connected) ∧
      readState (some (printState s)) ssidKey = some ssid ∧
      readState (some (printState s)) ipKey = some ip ∧
      readState (some (printState s)) signalKey = some (decimal s.signal) := by
  have hread : readState (some (printState s)) =
      (lines ((entries s ssid ip).flatMap entryLine)).foldl readLine fun _ ↦ none := by
    rw [readState, decode_printState hssid hip]
  rw [hread, lines_entries (entries_ok s hs hi)]
  simp only [entries, List.map_cons, List.map_nil, List.foldl_cons, List.foldl_nil]
  rw [readLine_entryLine _ isKey_connectedKey (oneValue_decimal _),
    readLine_entryLine _ isKey_ssidKey hs, readLine_entryLine _ isKey_ipKey hi,
    readLine_entryLine _ isKey_signalKey (oneValue_decimal _),
    readLine_entryLine _ isKey_enabledKey (oneValue_decimal _)]
  refine ⟨?_, ?_, ?_, ?_⟩
  all_goals rfl

/-- The second field of a line ends at the next equals sign. -/
theorem secondField_entryLine (hkey : IsKey key) (hv : OneValue v) :
    secondField (entryLine (key, v)) = some (v.takeWhile (· ≠ '=')) := by
  rw [secondField, strip_entryLine hkey hv, List.splitOn_append_cons_self_of_not_mem hkey.notMem,
    List.getElem?_cons_succ, getElem?_zero_splitOn]

theorem takeWhile_key (hkey : IsKey key) (rest : List Char) :
    (key ++ '=' :: rest).takeWhile (· ≠ '=') = key := by
  rw [List.takeWhile_append_of_pos fun c hc ↦ decide_eq_true (hkey c hc).2,
    List.takeWhile_cons_of_neg (by decide), List.append_nil]

/-- A line starts with its own key only. -/
theorem startsWith_entryLine (hkey : IsKey key) (hkey' : IsKey key') (v : List Char) :
    (key ++ ['=']).isPrefixOf (entryLine (key', v)) = decide (key = key') := by
  rw [Bool.eq_iff_iff, List.isPrefixOf_iff_prefix, decide_eq_true_iff]
  have hline : entryLine (key', v) = key' ++ '=' :: (v ++ ['\n']) := by
    simp [entryLine]
  rw [hline]
  constructor
  · rintro ⟨rest, hrest⟩
    have htake := congrArg (List.takeWhile (· ≠ '=')) hrest
    rw [List.append_assoc, List.singleton_append, takeWhile_key hkey, takeWhile_key hkey'] at htake
    exact htake
  · rintro rfl
    exact ⟨v ++ ['\n'], by rw [List.append_assoc, List.singleton_append]⟩

theorem takeWhile_decimal (z : ℤ) : (decimal z).takeWhile (· ≠ '=') = decimal z := by
  refine List.takeWhile_eq_self_iff.2 fun c hc ↦ decide_eq_true ?_
  rintro rfl
  rcases mem_decimal hc with hdigit | heq
  · exact absurd hdigit (by decide)
  · exact absurd heq (by decide)

/-- **What the fallback reads** are three of the entries, the name up to an equals sign. -/
theorem readWifi_printState (hssid : encode ssid = cstr s.ssid.bytes)
    (hip : encode ip = cstr s.ip.bytes) (hs : OneValue ssid) (hi : OneValue ip) :
    readWifi (some (printState s)) st =
      { st with
        wifiConnected := .bool (decimal s.connected = ['1'])
        wifiSsid := strValue (ssid.takeWhile (· ≠ '='))
        wifiSignal := .int s.signal } := by
  rw [readWifi, decode_printState hssid hip]
  show readWifiLines (lines ((entries s ssid ip).flatMap entryLine)) st = _
  rw [lines_entries (entries_ok s hs hi), entries]
  -- each line is tested for three keys
  simp only [List.map_cons, List.map_nil, readWifiLines, startsWith_entryLine,
    secondField_entryLine, isKey_connectedKey, isKey_ssidKey, isKey_ipKey, isKey_signalKey,
    isKey_enabledKey, oneValue_decimal, hs, takeWhile_decimal, Option.bind_some, int?_decimal]
  rfl

/-! ### When they agree -/

theorem strValue_inj {s t : List Char} : strValue s = strValue t ↔ s = t := by
  refine ⟨fun h ↦ ?_, congrArg strValue⟩
  exact List.map_injective_iff.2 (fun _ _ ↦ Char.toNat_inj.1) (Value.str.inj h)

theorem eq_takeWhile_iff : v = v.takeWhile (· ≠ '=') ↔ '=' ∉ v := by
  rw [eq_comm, List.takeWhile_eq_self_iff]
  constructor
  · exact fun h hmem ↦ of_decide_eq_true (h '=' hmem) rfl
  · rintro h c hc
    refine decide_eq_true ?_
    rintro rfl
    exact h hc

/-- `update` with a bridge, when it is due. -/
theorem update_bridge (hssid : encode ssid = cstr s.ssid.bytes) (hip : encode ip = cstr s.ip.bytes)
    (hs : OneValue ssid) (hi : OneValue ip) (hdue : ¬ now - st.lastUpdate < 5) :
    update now true (some (printState s)) st =
      { st with
        lastUpdate := now
        wifiConnected := .bool (decimal s.connected = ['1'])
        wifiSsid := strValue ssid } := by
  obtain ⟨hconnected, hname, -, -⟩ := readState_printState hssid hip hs hi
  rw [update, if_neg hdue]
  simp only [if_true, hconnected, hname, Option.getD_some]

/-- `update` without one. -/
theorem update_fallback (hssid : encode ssid = cstr s.ssid.bytes)
    (hip : encode ip = cstr s.ip.bytes) (hs : OneValue ssid) (hi : OneValue ip)
    (hdue : ¬ now - st.lastUpdate < 5) :
    update now false (some (printState s)) st =
      { st with
        lastUpdate := now
        wifiConnected := .bool (decimal s.connected = ['1'])
        wifiSsid := strValue (ssid.takeWhile (· ≠ '='))
        wifiSignal := .int s.signal } := by
  rw [update, if_neg hdue]
  exact readWifi_printState hssid hip hs hi

/-- Both ways of `update`, when it is due. -/
theorem sameUpdate_iff (hssid : encode ssid = cstr s.ssid.bytes)
    (hip : encode ip = cstr s.ip.bytes) (hs : OneValue ssid) (hi : OneValue ip)
    (hdue : ¬ now - st.lastUpdate < 5) :
    SameUpdate now s st ↔ '=' ∉ ssid ∧ st.wifiSignal = .int s.signal := by
  have hbridge := update_bridge hssid hip hs hi hdue
  have hfallback := update_fallback hssid hip hs hi hdue
  constructor
  · rintro ⟨-, hsame, hsignal⟩
    rw [hbridge, hfallback] at hsame hsignal
    exact ⟨eq_takeWhile_iff.1 (strValue_inj.1 hsame), hsignal⟩
  · rintro ⟨heq, hsignal⟩
    constructor
    · rw [hbridge, hfallback]
    · rw [hbridge, hfallback]
      exact strValue_inj.2 (eq_takeWhile_iff.2 heq)
    · rw [hbridge, hfallback]
      exact hsignal

/-- An update that is not due leaves everything as it is. -/
theorem sameUpdate_of_recent (hrecent : now - st.lastUpdate < 5) : SameUpdate now s st := by
  have hsame : ∀ bridge, update now bridge (some (printState s)) st = st := fun _ ↦ if_pos hrecent
  constructor <;> rw [hsame, hsame]

/-- What is printed on lines of its own is read back. -/
theorem readBack_of_oneValue (hssid : encode ssid = cstr s.ssid.bytes)
    (hip : encode ip = cstr s.ip.bytes) (hs : OneValue ssid) (hi : OneValue ip) : ReadBack s := by
  obtain ⟨hconnected, hname, haddress, hsignal⟩ := readState_printState hssid hip hs hi
  refine ⟨?_, ⟨ssid, hname, hssid⟩, ⟨ip, haddress, hip⟩, ?_⟩
  · rw [hconnected, Option.bind_some, int?_decimal]
  · rw [hsignal, Option.bind_some, int?_decimal]

/-- **When the readers agree.** For every state of the daemon and of the status: exactly if the
network's name and the address are text on one line without spaces at the ends and, where the update
is due, the name has no equals sign and the signal is the one that the status has anyway. -/
theorem wifi_state_agreement_iff (now : ℚ) (s : WifiState) (st : JuliusStatus) :
    ReadBack s ∧ SameUpdate now s st ↔ Agreeable now s st := by
  constructor
  · rintro ⟨hback, hsame⟩
    obtain ⟨ssid, hread, hssid⟩ := hback.ssid
    obtain ⟨ip, hread', hip⟩ := hback.ip
    have hs := oneValue_of_readState hread
    have hi := oneValue_of_readState hread'
    refine ⟨ssid, ip, ⟨hssid, hs⟩, ⟨hip, hi⟩, ?_⟩
    by_cases hdue : now - st.lastUpdate < 5
    · exact Or.inl hdue
    · exact Or.inr ((sameUpdate_iff hssid hip hs hi hdue).1 hsame)
  · rintro ⟨ssid, ip, ⟨hssid, hs⟩, ⟨hip, hi⟩, hsame⟩
    refine ⟨readBack_of_oneValue hssid hip hs hi, ?_⟩
    by_cases hdue : now - st.lastUpdate < 5
    · exact sameUpdate_of_recent hdue
    · exact (sameUpdate_iff hssid hip hs hi hdue).2 (hsame.resolve_left hdue)

/-- Connected to the network `a=b`, after a first update. -/
def equalsState : WifiState where
  connected := 1
  ssid := (Buf.zero 64).strncpy [97, 61, 98] 63 Buf.le_64
  ip := .zero 16
  signal := -50
  enabled := 1

/-- The status when it is created. -/
def JuliusStatus.init : JuliusStatus := ⟨.bool false, .str [], .int 0, 0⟩

/-- The bridge says `a=b` and the fallback `a`. -/
theorem not_agreeing_equals :
    ¬ (ReadBack equalsState ∧ SameUpdate 5 equalsState .init) ∧
      (update 5 true (some (printState equalsState)) .init).wifiSsid = .str [97, 61, 98] ∧
      (update 5 false (some (printState equalsState)) .init).wifiSsid = .str [97] := by
  have hssid : encode ['a', '=', 'b'] = cstr equalsState.ssid.bytes := by decide +kernel
  have hip : encode [] = cstr equalsState.ip.bytes := by decide +kernel
  have hs : OneValue ['a', '=', 'b'] := ⟨by decide, by decide⟩
  have hi : OneValue [] := ⟨by decide, by decide⟩
  have hdue : ¬ (5 : ℚ) - JuliusStatus.init.lastUpdate < 5 := by decide +kernel
  refine ⟨fun h ↦ ?_, ?_, ?_⟩
  · have hno := ((sameUpdate_iff hssid hip hs hi hdue).1 h.2).1
    exact absurd hno (by decide)
  · rw [update_bridge hssid hip hs hi hdue]
    rfl
  · rw [update_fallback hssid hip hs hi hdue]
    rfl

end JuliusOS.Wifi
