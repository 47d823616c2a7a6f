import JuliusOS.Foundations.Stdio

/-!
# The saved network

`wifi_save_config` writes a network to `/etc/julius/wifi.conf` and `wifi_auto_connect` reads it
back when the daemon starts. The reader looks for lines that start with `ssid=` and `password=`.
The password is copied where it is found; the SSID is copied `ssid[0] && strncpy(…)`, that is only
if there is one already, and there never is one.

`savedNetwork_read` says that the password of a saved network is read back and the SSID is empty;
`autoConnect_never` that no file, saved or not, leads to a connection.
-/

open Bytes CString Stdio

namespace JuliusOS.Wifi

/-- What `wifi_save_config` writes. -/
def wifiSaveConfig (ssid password : Bytes) : Bytes :=
  ofAscii "ssid=" ++ ssid ++ [10] ++ (ofAscii "password=" ++ password ++ [10])

/-- The buffers `ssid` and `password` of `wifi_auto_connect`. -/
structure SavedConfig where
  ssid : Buf 64
  password : Buf 64

/-- What is done with a line. -/
def SavedConfig.readLine (c : SavedConfig) (line : Bytes) : SavedConfig :=
  if startsWith line (ofAscii "ssid=") then
    if cstr c.ssid.bytes = [] then c
    else { c with ssid := c.ssid.strncpy (line.drop 5) 63 Buf.le_64 }
  else if startsWith line (ofAscii "password=") then
    { c with password := c.password.strncpy (line.drop 9) 63 Buf.le_64 }
  else c

/-- The buffers after the loop over a file. -/
def readSavedConfig (content : Bytes) : SavedConfig :=
  (pieces 128 content).foldl SavedConfig.readLine ⟨.zero 64, .zero 64⟩

/-- `wifi_auto_connect`: the network and the password that `wifi_connect` is called with, if it
is called; otherwise the result is -1. -/
def wifiAutoConnect (file : Option Bytes) : Option (Bytes × Bytes) :=
  match file with
  | none => none
  | some content =>
    let c := readSavedConfig content
    let ssid := cstr (cutNewline c.ssid.bytes)
    let password := cstr (cutNewline c.password.bytes)
    if ssid = [] then none else some (ssid, password)

/-- A network that can be saved. -/
structure SavedNetwork where
  ssid : Bytes
  password : Bytes
  ssid_ne_nil : ssid ≠ []
  length_ssid_le : ssid.length ≤ 63
  length_password_le : password.length ≤ 63
  /-- Neither text has a newline or a NUL. -/
  ssid_line : (10 : UInt8) ∉ ssid ∧ (0 : UInt8) ∉ ssid
  password_line : (10 : UInt8) ∉ password ∧ (0 : UInt8) ∉ password

/-- **What saving is for**: the daemon connects to the network that was saved. -/
def Reconnects (n : SavedNetwork) : Prop :=
  wifiAutoConnect (some (wifiSaveConfig n.ssid n.password)) = some (n.ssid, n.password)

/-! ### The SSID -/

/-- A line does not set the SSID where there is none. -/
theorem SavedConfig.ssid_readLine {c : SavedConfig} (h : cstr c.ssid.bytes = []) (line : Bytes) :
    cstr (c.readLine line).ssid.bytes = [] := by
  rw [readLine]
  split_ifs <;> exact h

theorem cstr_ssid_foldl {c : SavedConfig} (h : cstr c.ssid.bytes = []) (lines : List Bytes) :
    cstr (lines.foldl SavedConfig.readLine c).ssid.bytes = [] := by
  induction lines generalizing c with
  | nil => exact h
  | cons line lines ih => exact ih (c.ssid_readLine h line)

/-- **No file has an SSID**, whatever is in it. -/
theorem cstr_ssid_readSavedConfig (content : Bytes) :
    cstr (readSavedConfig content).ssid.bytes = [] := cstr_ssid_foldl (by decide) _

theorem wifiAutoConnect_eq_none (file : Option Bytes) : wifiAutoConnect file = none := by
  cases file with
  | none => rfl
  | some content =>
    have hssid : cstr (cutNewline (readSavedConfig content).ssid.bytes) = [] := by
      rw [cstr_cutNewline, cstr_ssid_readSavedConfig]
      rfl
    rw [wifiAutoConnect]
    exact if_pos hssid

/-! ### The password -/

/-- **The password of a saved network is read back**, and only that. -/
theorem savedNetwork_read (n : SavedNetwork) :
    cstr (cutNewline (readSavedConfig (wifiSaveConfig n.ssid n.password)).password.bytes) =
      n.password := by
  obtain ⟨hline, hfree⟩ := n.password_line
  have hssid : (10 : UInt8) ∉ ofAscii "ssid=" ++ n.ssid :=
    List.mem_append.not.2 (not_or.2 ⟨by decide, n.ssid_line.1⟩)
  have hpassword : (10 : UInt8) ∉ ofAscii "password=" ++ n.password :=
    List.mem_append.not.2 (not_or.2 ⟨by decide, hline⟩)
  have hssidlen := n.length_ssid_le
  have hpasswordlen := n.length_password_le
  have hkey : (ofAscii "ssid=").length = 5 ∧ (ofAscii "password=").length = 9 := by decide
  -- both lines fit the reader's buffer
  have hpieces : pieces 128 (wifiSaveConfig n.ssid n.password) =
      [ofAscii "ssid=" ++ n.ssid ++ [10], ofAscii "password=" ++ n.password ++ [10]] := by
    rw [wifiSaveConfig, List.append_assoc, List.singleton_append,
      pieces_append hssid (by rw [List.length_append]; omega),
      pieces_append hpassword (by rw [List.length_append]; omega)]
    rfl
  have hfirst : ∀ c : SavedConfig,
      (c.readLine (ofAscii "ssid=" ++ n.ssid ++ [10])).password = c.password := by
    intro c
    rw [SavedConfig.readLine, List.append_assoc, if_pos (startsWith_append (by decide) _)]
    split <;> rfl
  have hsecond : ∀ c : SavedConfig,
      (c.readLine (ofAscii "password=" ++ n.password ++ [10])).password =
        c.password.strncpy (n.password ++ [10]) 63 Buf.le_64 := by
    intro c
    have hnot : ¬ startsWith (ofAscii "password=" ++ (n.password ++ [10]))
        (ofAscii "ssid=") = true := by
      rw [startsWith, List.isPrefixOf_iff_prefix]
      rintro ⟨rest, hrest⟩
      have hhead : some (115 : UInt8) = some 112 := congrArg List.head? hrest
      exact absurd hhead (by decide)
    rw [SavedConfig.readLine, List.append_assoc, if_neg hnot,
      if_pos (startsWith_append (by decide) _), List.drop_left' hkey.2]
  have htext : (0 : UInt8) ∉ n.password ++ [10] :=
    List.mem_append.not.2 (not_or.2 ⟨hfree, by decide⟩)
  rw [readSavedConfig, hpieces, List.foldl_cons, List.foldl_cons, List.foldl_nil, hsecond, hfirst,
    cstr_cutNewline, Buf.strncpy,
    cstr_strncpy (Buf.zero 64).length_bytes (lastZero_replicate (by decide)), cstr_eq_self htext,
    firstLine_take, firstLine_append hline]
  rw [show firstLine [10] = [] from rfl, List.append_nil, List.take_of_length_le hpasswordlen]

/-- **Never.** No saved network is connected to, and nothing is called whatever the file holds, or
if there is none. -/
theorem autoConnect_never (n : SavedNetwork) :
    ¬ Reconnects n ∧ ∀ file, wifiAutoConnect file = none := by
  refine ⟨fun h ↦ ?_, wifiAutoConnect_eq_none⟩
  rw [Reconnects, wifiAutoConnect_eq_none] at h
  cases h

/-- An open network of one letter. -/
theorem not_reconnects_one_letter :
    ¬ Reconnects ⟨[97], [], by decide, by decide, by decide, by decide, by decide⟩ := by
  intro h
  rw [Reconnects] at h
  revert h
  decide +kernel

end JuliusOS.Wifi
