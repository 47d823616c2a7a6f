import JuliusOS.Foundations.CString
import JuliusOS.Foundations.FlatText

/-!
# The configuration for wpa_supplicant

`wifi_connect` prints the network's name and the password between quotes into
`/tmp/julius_wpa.conf`, and a root daemon reads the file. A quoted string of its grammar ends at
the last quote of the line, so quotes, backslashes and braces in a name do no harm; a newline does,
because what follows it is a line of its own.

* `wpaConf` is the file that is printed, `readWpaConf` the grammar;
* `Faithful` is what the file is for: one network with the name and the password, and nothing else;
* `faithful_iff` says that this is so exactly if neither text has a newline.
-/

open Bytes

namespace JuliusOS.Wifi

/-! ### The writer -/

/-- What `wifi_connect` prints. -/
def wpaConf (ssid password : Bytes) : Bytes :=
  ofAscii "ctrl_interface=/var/run/wpa_supplicant" ++ 10 ::
    (ofAscii "network=\x7b" ++ 10 ::
      (ofAscii "    ssid=\"" ++ ssid ++ ofAscii "\"" ++ 10 ::
        ((if password ≠ [] then ofAscii "    psk=\"" ++ password ++ ofAscii "\""
          else ofAscii "    key_mgmt=NONE") ++ 10 ::
          (ofAscii "\x7d" ++ [10]))))

/-- The file that `wifi_connect` writes for two C strings; it refuses if it cannot open the file.
The password may be a null pointer. -/
def wifiConnectConf (fopen : Bool) (ssid : Bytes) (password : Option Bytes) : Option Bytes :=
  if fopen then some (wpaConf ssid (password.getD [])) else none

/-! ### The grammar -/

/-- The value of a setting. -/
inductive ConfValue
  /-- In quotes. -/
  | quoted (s : Bytes)
  /-- Without quotes. -/
  | plain (s : Bytes)
deriving DecidableEq

/-- The text of a value. -/
def ConfValue.text : ConfValue → Bytes
  | quoted s => s
  | plain s => s

/-- A value: a quoted string ends at the last quote, which ends the line. -/
def readValue : Bytes → Option ConfValue
  | [] => some (.plain [])
  | b :: rest =>
    if b = 34 then
      if rest.getLast? = some 34 then some (.quoted rest.dropLast) else none
    else some (.plain (b :: rest))

/-- A line `key=value`. -/
def readSetting (line : Bytes) : Option (Bytes × ConfValue) :=
  if 61 ∈ line then
    (readValue ((line.dropWhile (· ≠ 61)).drop 1)).map fun v ↦ (line.takeWhile (· ≠ 61), v)
  else none

/-- What has been read. -/
structure WpaReader where
  globals : List (Bytes × ConfValue)
  networks : List (List (Bytes × ConfValue))
  /-- The settings of the block that is open. -/
  block : Option (List (Bytes × ConfValue))
deriving DecidableEq

/-- A line, with blanks in front; empty lines and comments are skipped. -/
def WpaReader.step (r : WpaReader) (line : Bytes) : Option WpaReader :=
  let line := line.dropWhile fun b ↦ b = 32 || b = 9
  if line = [] ∨ line.head? = some 35 then some r
  else match r.block with
    | none =>
      if line = ofAscii "network=\x7b" then some { r with block := some [] }
      else (readSetting line).map fun x ↦ { r with globals := r.globals ++ [x] }
    | some settings =>
      if line = ofAscii "\x7d" then
        some { r with networks := r.networks ++ [settings], block := none }
      else (readSetting line).map fun x ↦ { r with block := some (settings ++ [x]) }

/-- The lines, one after the other. -/
def WpaReader.run : WpaReader → List Bytes → Option WpaReader
  | r, [] => some r
  | r, line :: lines => (r.step line).bind fun r' ↦ run r' lines

/-- What is read of a file: the settings outside of networks, and the networks. -/
def readWpaConf (text : Bytes) :
    Option (List (Bytes × ConfValue) × List (List (Bytes × ConfValue))) :=
  (WpaReader.run ⟨[], [], none⟩ (text.splitOn 10)).bind fun r ↦
    if r.block = none then some (r.globals, r.networks) else none

/-- **What the file is for**: one network with the name and the password, or without a password
an open one, and no other setting. -/
def Faithful (fopen : Bool) (ssid : Bytes) (password : Option Bytes) : Prop :=
  ∀ text, wifiConnectConf fopen ssid password = some text →
    readWpaConf text = some
      ([(ofAscii "ctrl_interface", .plain (ofAscii "/var/run/wpa_supplicant"))],
        [[(ofAscii "ssid", .quoted ssid),
          if password.getD [] = [] then (ofAscii "key_mgmt", .plain (ofAscii "NONE"))
          else (ofAscii "psk", .quoted (password.getD []))]])

/-! ### No value has a newline -/

variable {line : Bytes} {r r' : WpaReader}

theorem text_readValue {s : Bytes} {v : ConfValue} (h : readValue s = some v) : v.text ⊆ s := by
  rw [readValue.eq_def] at h
  split at h
  · obtain rfl := Option.some.inj h
    exact List.Subset.refl _
  · split_ifs at h
    · obtain rfl := Option.some.inj h
      exact fun b hb ↦ List.mem_cons_of_mem _ (List.dropLast_subset _ hb)
    · obtain rfl := Option.some.inj h
      exact List.Subset.refl _

/-- The value of a setting is part of its line. -/
theorem text_readSetting {x : Bytes × ConfValue} (h : readSetting line = some x) :
    x.2.text ⊆ line := by
  rw [readSetting] at h
  split at h
  · obtain ⟨v, hv, rfl⟩ := Option.map_eq_some_iff.1 h
    exact fun b hb ↦ (List.dropWhile_sublist _).subset (List.mem_of_mem_drop (text_readValue hv hb))
  · cases h

/-- All settings that have been read. -/
def WpaReader.settings (r : WpaReader) : List (Bytes × ConfValue) :=
  r.globals ++ r.networks.flatten ++ r.block.getD []

/-- A line adds at most one setting, whose value is part of it. -/
theorem WpaReader.mem_settings_step (h : r.step line = some r') {x : Bytes × ConfValue}
    (hx : x ∈ r'.settings) : x ∈ r.settings ∨ x.2.text ⊆ line := by
  have hread : ∀ y, readSetting (line.dropWhile fun b ↦ b = 32 || b = 9) = some y →
      y.2.text ⊆ line := fun y hy b hb ↦ (List.dropWhile_sublist _).subset (text_readSetting hy hb)
  rw [step] at h
  split at h
  · obtain rfl := Option.some.inj h
    exact Or.inl hx
  · split at h
    next hblock =>
      split at h
      · obtain rfl := Option.some.inj h
        rw [settings, hblock]
        exact Or.inl hx
      · obtain ⟨y, hy, rfl⟩ := Option.map_eq_some_iff.1 h
        simp only [settings, hblock, Option.getD_none, List.append_nil, List.mem_append,
          List.mem_singleton] at hx ⊢
        rcases hx with (hx | rfl) | hx
        · exact Or.inl (Or.inl hx)
        · exact Or.inr (hread _ hy)
        · exact Or.inl (Or.inr hx)
    next settings hblock =>
      split at h
      · obtain rfl := Option.some.inj h
        simp only [WpaReader.settings, hblock, Option.getD_none, Option.getD_some,
          List.flatten_append, List.flatten_singleton, List.append_nil, List.append_assoc] at hx ⊢
        exact Or.inl hx
      · obtain ⟨y, hy, rfl⟩ := Option.map_eq_some_iff.1 h
        simp only [WpaReader.settings, hblock, Option.getD_some, List.mem_append,
          List.mem_singleton] at hx ⊢
        rcases hx with hx | hx | rfl
        · exact Or.inl (Or.inl hx)
        · exact Or.inl (Or.inr hx)
        · exact Or.inr (hread _ hy)

/-- **No value has a newline**, if no line has. -/
theorem WpaReader.newline_notMem {lines : List Bytes} (h : r.run lines = some r')
    (hlines : ∀ line ∈ lines, (10 : UInt8) ∉ line) (hr : ∀ x ∈ r.settings, 10 ∉ x.2.text) :
    ∀ x ∈ r'.settings, 10 ∉ x.2.text := by
  induction lines generalizing r with
  | nil => exact Option.some.inj h ▸ hr
  | cons line lines ih =>
    obtain ⟨r₁, h₁, h⟩ := Option.bind_eq_some_iff.1 h
    obtain ⟨hline, hlines⟩ := List.forall_mem_cons.1 hlines
    refine ih h hlines fun x hx ↦ ?_
    rcases mem_settings_step h₁ hx with hx | hsub
    · exact hr x hx
    · exact fun hmem ↦ hline (hsub hmem)

/-- What is read of a file has no newline in it. -/
theorem newline_notMem_of_readWpaConf {text : Bytes} {globals : List (Bytes × ConfValue)}
    {networks : List (List (Bytes × ConfValue))} (h : readWpaConf text = some (globals, networks)) :
    ∀ x ∈ globals ++ networks.flatten, 10 ∉ x.2.text := by
  obtain ⟨r, hr, hfile⟩ := Option.bind_eq_some_iff.1 h
  split at hfile
  · rename_i hblock
    obtain ⟨rfl, rfl⟩ := Prod.mk.inj (Option.some.inj hfile)
    have hall := WpaReader.newline_notMem hr (fun l hl ↦ FlatText.notMem_of_mem_splitOn hl)
      (List.forall_mem_nil _)
    rwa [WpaReader.settings, hblock, Option.getD_none, List.append_nil] at hall
  · cases hfile

/-! ### What was printed -/

variable {ssid password : Bytes}

/-- A quoted text without newlines is read back, with the quotes and backslashes in it. -/
theorem readValue_quoted (s : Bytes) : readValue (34 :: (s ++ [34])) = some (.quoted s) := by
  rw [readValue, if_pos rfl, List.getLast?_concat, if_pos rfl, List.dropLast_concat]

/-- A line of a block that begins with the name of a setting. -/
theorem step_setting {globals settings : List (Bytes × ConfValue)} {l : Bytes} {b : UInt8}
    {x : Bytes × ConfValue}
    (hline : line.dropWhile (fun b ↦ b = 32 || b = 9) = l) (hhead : l.head? = some b)
    (hcomment : b ≠ 35) (hclose : b ≠ 125) (hread : readSetting l = some x) :
    WpaReader.step ⟨globals, [], some settings⟩ line =
      some ⟨globals, [], some (settings ++ [x])⟩ := by
  have hskip : ¬ (l = [] ∨ l.head? = some 35) := by
    rw [hhead, Option.some.injEq]
    rintro (rfl | h)
    · cases hhead
    · exact hcomment h
  have hend : l ≠ ofAscii "\x7d" := by
    rintro rfl
    exact hclose (Option.some.inj hhead).symm
  rw [WpaReader.step]
  simp only [hline, if_neg hskip, if_neg hend, hread, Option.map_some]

/-- A line with a quoted value. -/
theorem readSetting_quoted {key : Bytes} (hkey : (61 : UInt8) ∉ key) (s : Bytes) :
    readSetting (key ++ 61 :: 34 :: (s ++ [34])) = some (key, .quoted s) := by
  have hne : ∀ b ∈ key, decide (b ≠ 61) = true := fun b hb ↦
    decide_eq_true fun h ↦ hkey (h ▸ hb)
  rw [readSetting, if_pos (List.mem_append_right _ (List.mem_cons_self ..)),
    List.takeWhile_append_of_pos hne, List.dropWhile_append_of_pos hne]
  simp [readValue_quoted]

/-- The lines of the file. -/
theorem splitOn_wpaConf (hssid : (10 : UInt8) ∉ ssid) (hpassword : (10 : UInt8) ∉ password) :
    (wpaConf ssid password).splitOn 10 =
      [ofAscii "ctrl_interface=/var/run/wpa_supplicant", ofAscii "network=\x7b",
        ofAscii "    ssid=\"" ++ ssid ++ ofAscii "\"",
        if password ≠ [] then ofAscii "    psk=\"" ++ password ++ ofAscii "\""
          else ofAscii "    key_mgmt=NONE", ofAscii "\x7d", []] := by
  have hnamed : ∀ (key s : Bytes), (10 : UInt8) ∉ key → (10 : UInt8) ∉ s →
      (10 : UInt8) ∉ key ++ s ++ ofAscii "\"" := by
    intro key s hkey hs
    simp only [List.mem_append, not_or]
    exact ⟨⟨hkey, hs⟩, by decide⟩
  have hsecret : (10 : UInt8) ∉ (if password ≠ [] then
      ofAscii "    psk=\"" ++ password ++ ofAscii "\"" else ofAscii "    key_mgmt=NONE") := by
    split
    · exact hnamed _ _ (by decide) hpassword
    · decide
  rw [wpaConf, List.splitOn_append_cons_self_of_not_mem (by decide),
    List.splitOn_append_cons_self_of_not_mem (by decide),
    List.splitOn_append_cons_self_of_not_mem (hnamed _ _ (by decide) hssid),
    List.splitOn_append_cons_self_of_not_mem hsecret,
    List.splitOn_append_cons_self_of_not_mem (by decide), List.splitOn_nil]

/-- The line of the name. -/
theorem step_ssid (globals : List (Bytes × ConfValue)) (ssid : Bytes) :
    WpaReader.step ⟨globals, [], some []⟩ (ofAscii "    ssid=\"" ++ ssid ++ ofAscii "\"") =
      some ⟨globals, [], some [(ofAscii "ssid", .quoted ssid)]⟩ := by
  have hread : readSetting (ofAscii "ssid" ++ 61 :: 34 :: (ssid ++ [34])) =
      some (ofAscii "ssid", .quoted ssid) := readSetting_quoted (by decide) ssid
  have hline : (ofAscii "    ssid=\"" ++ ssid ++ ofAscii "\"").dropWhile
      (fun b ↦ b = 32 || b = 9) = ofAscii "ssid" ++ 61 :: 34 :: (ssid ++ [34]) := rfl
  exact step_setting (b := 115) hline rfl (by decide) (by decide) hread

/-- The line of the password, or of an open network. -/
theorem step_psk (globals settings : List (Bytes × ConfValue)) (password : Bytes) :
    WpaReader.step ⟨globals, [], some settings⟩
      (if password ≠ [] then ofAscii "    psk=\"" ++ password ++ ofAscii "\""
        else ofAscii "    key_mgmt=NONE") =
      some ⟨globals, [], some (settings ++
        [if password = [] then (ofAscii "key_mgmt", .plain (ofAscii "NONE"))
          else (ofAscii "psk", .quoted password)])⟩ := by
  by_cases hempty : password = []
  · rw [if_neg (not_not.2 hempty), if_pos hempty]
    have hread : readSetting (ofAscii "key_mgmt=NONE") =
        some (ofAscii "key_mgmt", .plain (ofAscii "NONE")) := by decide +kernel
    have hline : (ofAscii "    key_mgmt=NONE").dropWhile (fun b ↦ b = 32 || b = 9) =
        ofAscii "key_mgmt=NONE" := rfl
    exact step_setting (b := 107) hline rfl (by decide) (by decide) hread
  · rw [if_pos hempty, if_neg hempty]
    have hread : readSetting (ofAscii "psk" ++ 61 :: 34 :: (password ++ [34])) =
        some (ofAscii "psk", .quoted password) := readSetting_quoted (by decide) password
    have hline : (ofAscii "    psk=\"" ++ password ++ ofAscii "\"").dropWhile
        (fun b ↦ b = 32 || b = 9) = ofAscii "psk" ++ 61 :: 34 :: (password ++ [34]) := rfl
    exact step_setting (b := 112) hline rfl (by decide) (by decide) hread

/-- **Texts without newlines are read back.** -/
theorem readWpaConf_wpaConf (hssid : (10 : UInt8) ∉ ssid) (hpassword : (10 : UInt8) ∉ password) :
    readWpaConf (wpaConf ssid password) =
      some ([(ofAscii "ctrl_interface", .plain (ofAscii "/var/run/wpa_supplicant"))],
        [[(ofAscii "ssid", .quoted ssid),
          if password = [] then (ofAscii "key_mgmt", .plain (ofAscii "NONE"))
          else (ofAscii "psk", .quoted password)]]) := by
  set globals := [(ofAscii "ctrl_interface", ConfValue.plain (ofAscii "/var/run/wpa_supplicant"))]
  have hglobal : WpaReader.step ⟨[], [], none⟩ (ofAscii "ctrl_interface=/var/run/wpa_supplicant") =
      some ⟨globals, [], none⟩ := by decide +kernel
  have hopen : WpaReader.step ⟨globals, [], none⟩ (ofAscii "network=\x7b") =
      some ⟨globals, [], some []⟩ := by decide +kernel
  rw [readWpaConf, splitOn_wpaConf hssid hpassword, WpaReader.run, hglobal, Option.bind_some,
    WpaReader.run, hopen, Option.bind_some, WpaReader.run, step_ssid, Option.bind_some,
    WpaReader.run, step_psk]
  rfl

/-- **The exact condition for a faithful file.** The file has one network with the name and the
password, or is refused, if and only if it cannot be opened or neither text has a newline. -/
theorem faithful_iff (fopen : Bool) (ssid : Bytes) (password : Option Bytes) :
    Faithful fopen ssid password ↔
      fopen = false ∨ ((10 : UInt8) ∉ ssid ∧ (10 : UInt8) ∉ password.getD []) := by
  cases fopen with
  | false =>
    refine iff_of_true ?_ (Or.inl rfl)
    rintro text ⟨⟩
  | true =>
    rw [or_iff_right (by decide), Faithful, wifiConnectConf, if_pos rfl]
    simp only [Option.some.injEq, forall_eq']
    constructor
    · intro h
      have hall := newline_notMem_of_readWpaConf h
      refine ⟨hall (ofAscii "ssid", .quoted ssid) (by simp), ?_⟩
      by_cases hempty : password.getD [] = []
      · rw [hempty]
        exact List.not_mem_nil
      · exact hall (ofAscii "psk", .quoted (password.getD [])) (by simp [hempty])
    · rintro ⟨hssid, hpassword⟩
      exact readWpaConf_wpaConf hssid hpassword

/-- A name with a newline adds a setting of its own. -/
theorem not_faithful_newline :
    ¬ Faithful true (ofAscii "x\"\n    priority=9\n    scan_ssid=\"1") none := by
  intro h
  have hread := h _ rfl
  revert hread
  decide +kernel

end JuliusOS.Wifi
