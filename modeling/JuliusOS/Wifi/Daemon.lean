import JuliusOS.Foundations.CString
import JuliusOS.Foundations.Machine

/-!
# The WiFi daemon

`services/julius_wifi/julius_wifi.c`: a `WifiState` beside the processes that make the connection,
which are started and stopped by shell commands. A call comes with the outcomes of the commands and
of `fopen` and `popen`, and the commands that have been issued are kept with their outcomes, though
no function reads them.

`connected` is 1 from the end of a successful `wifi_connect` on until a call that sets it to 0. That
is honest as long as the calls in between do not stop what is running: `wifi_connect` does so before
it knows whether it will succeed, and `wifi_disable` before it knows whether the link goes down.
`wifi_honest_iff` is the exact condition.

The configuration file is written for the network that is connected to, and `wpa_supplicant` is
started with it; its text and the password are left out.
-/

open CString

namespace JuliusOS.Wifi

/-! ### Commands -/

/-- The commands that the shell is given. -/
inductive Command where
  /-- `ip link set wlan0 up`. -/
  | linkUp
  /-- `ip link set wlan0 down`. -/
  | linkDown
  /-- `wpa_cli -i wlan0 disconnect`. -/
  | disconnect
  /-- `killall wpa_supplicant`. -/
  | killall
  /-- `wpa_supplicant -B`, configured for a network. -/
  | supplicant (ssid : Bytes)
  /-- `udhcpc -i wlan0 -q`. -/
  | udhcpc
  /-- `ip addr flush dev wlan0`. -/
  | flush
deriving DecidableEq

/-- A command that was issued, and whether it succeeded. -/
structure Issued where
  /-- The command. -/
  command : Command
  /-- `system` returned 0. -/
  ok : Bool
deriving DecidableEq

/-- After this command an earlier start is not what is running: another start, or a killall, a
disconnect or a link-down that succeeded. -/
def Issued.Ends (c : Issued) : Prop :=
  match c.command with
  | .supplicant _ => True
  | .killall | .disconnect | .linkDown => c.ok = true
  | _ => False

/-- The last start succeeded, it was for the network, and nothing has ended it. -/
def ServedBy (issued : List Issued) (ssid : Bytes) : Prop :=
  ∃ before after, issued = before ++ ⟨.supplicant ssid, true⟩ :: after ∧ ∀ c ∈ after, ¬ c.Ends

/-- **One more command.** -/
theorem servedBy_append_singleton {issued : List Issued} {c : Issued} {ssid : Bytes} :
    ServedBy (issued ++ [c]) ssid ↔
      c = ⟨.supplicant ssid, true⟩ ∨ ServedBy issued ssid ∧ ¬ c.Ends := by
  constructor
  · rintro ⟨before, after, heq, hafter⟩
    rcases List.eq_nil_or_concat after with rfl | ⟨after, c', rfl⟩
    · exact Or.inl (List.append_inj' heq rfl |>.2 |> List.singleton_inj.1)
    · rw [List.concat_eq_append] at heq hafter
      rw [← List.cons_append, ← List.append_assoc] at heq
      obtain ⟨rfl, hc⟩ := List.append_inj' heq rfl
      obtain rfl := List.singleton_inj.1 hc
      exact Or.inr ⟨⟨before, after, rfl, fun c hc ↦ hafter c (List.mem_append_left _ hc)⟩,
        hafter _ (List.mem_append_right _ List.mem_cons_self)⟩
  · rintro (rfl | ⟨⟨before, after, rfl, hafter⟩, hc⟩)
    · exact ⟨issued, [], rfl, fun c hc ↦ absurd hc List.not_mem_nil⟩
    · refine ⟨before, after ++ [c], by rw [List.append_assoc, List.cons_append], ?_⟩
      exact List.forall_mem_append.2 ⟨hafter, List.forall_mem_singleton.2 hc⟩

/-! ### The state and the functions -/

/-- A `WifiState`. -/
structure WifiState where
  /-- `connected`. -/
  connected : ℤ
  /-- `ssid`. -/
  ssid : Buf 64
  /-- `ip`. -/
  ip : Buf 16
  /-- `signal`. -/
  signal : ℤ
  /-- `enabled`. -/
  enabled : ℤ

/-- The static variable when the program starts. -/
def WifiState.init : WifiState := ⟨0, .zero 64, .zero 16, 0, 0⟩

/-- `connected = 0` and the two `memset`s. -/
def WifiState.clear (state : WifiState) : WifiState :=
  { state with
    connected := 0
    ssid := .zero 64
    ip := .zero 16 }

/-- The daemon's state, and the commands so far. -/
structure System where
  /-- `state`. -/
  state : WifiState
  /-- The commands that were issued, in order (ghost). -/
  issued : List Issued

/-- The system when the program starts. -/
def System.init : System := ⟨.init, []⟩

/-- `system(...)`. -/
def System.issue (s : System) (command : Command) (ok : Bool) : System :=
  { s with issued := s.issued ++ [⟨command, ok⟩] }

/-- `wifi_enable`. -/
def wifiEnable (s : System) (up : Bool) : ℤ × System :=
  let s := s.issue .linkUp up
  if up then (0, { s with state := { s.state with enabled := 1 } }) else (-1, s)

/-- `wifi_disable`. -/
def wifiDisable (s : System) (disconnected down : Bool) : ℤ × System :=
  let s := (s.issue .disconnect disconnected).issue .linkDown down
  if down then (0, { s with state := { s.state.clear with enabled := 0 } }) else (-1, s)

/-- What the environment contributes to a call of `wifi_connect`. -/
structure Outcome where
  /-- Whether the configuration file opens. -/
  conf : Bool
  /-- The outcome of `killall`. -/
  killed : Bool
  /-- The outcome of `wpa_supplicant`. -/
  started : Bool
  /-- The outcome of `udhcpc`. -/
  leased : Bool
  /-- What `popen` has to read, if it succeeds. -/
  ip : Option Bytes

/-- The assignments of `wifi_connect`. -/
def WifiState.connect (state : WifiState) (ssid ip : Bytes) : WifiState :=
  { state with
    ip := state.ip.fgetsLine ip
    ssid := state.ssid.strncpy ssid 63 Buf.le_64
    connected := 1 }

/-- `wifi_connect`. -/
def wifiConnect (s : System) (ssid : Bytes) (o : Outcome) : ℤ × System :=
  if o.conf then
    let s := (s.issue .killall o.killed).issue (.supplicant (cstr ssid)) o.started
    if o.started then
      let s := s.issue .udhcpc o.leased
      if o.leased then
        match o.ip with
        | some ip => (0, { s with state := s.state.connect ssid ip })
        | none => (0, s)
      else (-1, s)
    else (-1, s)
  else (-1, s)

/-- `wifi_disconnect`. -/
def wifiDisconnect (s : System) (disconnected killed flushed : Bool) : System :=
  let s := ((s.issue .disconnect disconnected).issue .killall killed).issue .flush flushed
  { s with state := s.state.clear }

/-- A call, with the outcomes of its commands. -/
inductive Call where
  /-- `wifi_enable()`. -/
  | enable (up : Bool)
  /-- `wifi_disable()`. -/
  | disable (disconnected down : Bool)
  /-- `wifi_connect(ssid, password)`. -/
  | connect (ssid : Bytes) (o : Outcome)
  /-- `wifi_disconnect()`. -/
  | disconnect (disconnected killed flushed : Bool)

/-- The state after a call. -/
def call (s : System) : Call → System
  | .enable up => (wifiEnable s up).2
  | .disable disconnected down => (wifiDisable s disconnected down).2
  | .connect ssid o => (wifiConnect s ssid o).2
  | .disconnect disconnected killed flushed => wifiDisconnect s disconnected killed flushed

/-- The daemon as a machine, one call at a time. -/
def daemon : Machine System Call where
  Init s := s = .init
  step s l := some (call s l)

/-! ### Honesty -/

/-- What the state says of the connection is so. -/
structure Honest (s : System) : Prop where
  /-- Who is connected is served by the network. -/
  connected : s.state.connected = 1 → ServedBy s.issued (cstr s.state.ssid.bytes)
  /-- Who is not has neither a network nor an address. -/
  idle : s.state.connected = 0 → cstr s.state.ssid.bytes = [] ∧ cstr s.state.ip.bytes = []

/-- The call goes through to the end. -/
def Outcome.Full (o : Outcome) : Prop := o.started = true ∧ o.leased = true ∧ o.ip.isSome

/-- The calls that leave an honest state honest. -/
def Keeps (s : System) : Call → Prop
  | .enable _ | .disconnect _ _ _ => True
  | .disable disconnected down => s.state.connected = 0 ∨ down = true ∨ disconnected = false
  | .connect ssid o => o.conf = true →
      o.Full ∧ (cstr ssid).length ≤ 63 ∨
        ¬ o.Full ∧ (s.state.connected = 0 ∨
          o.started = true ∧ cstr ssid = cstr s.state.ssid.bytes)

/-- What holds of every state. -/
structure Sound (s : System) : Prop where
  /-- `connected` is a truth value. -/
  connected : s.state.connected = 0 ∨ s.state.connected = 1
  /-- `ssid` is terminated. -/
  ssid : LastZero s.state.ssid.bytes

variable {s : System}

/-- A command that starts and ends nothing. -/
theorem servedBy_issue {command : Command} {ok : Bool} {ssid : Bytes}
    (hends : ¬ (Issued.mk command ok).Ends) :
    ServedBy (s.issue command ok).issued ssid ↔ ServedBy s.issued ssid := by
  refine servedBy_append_singleton.trans ((or_iff_right ?_).trans (and_iff_left hends))
  intro h
  rw [h] at hends
  exact hends trivial

/-- A command that ends what is running. -/
theorem not_servedBy_issue {command : Command} {ssid : Bytes}
    (hends : (Issued.mk command true).Ends) (hstart : command ≠ .supplicant ssid) :
    ¬ ServedBy (s.issue command true).issued ssid := by
  rintro h
  rcases servedBy_append_singleton.1 h with heq | ⟨-, hno⟩
  · exact hstart (congrArg Issued.command heq)
  · exact hno hends

/-- A start serves the network it is for, if it succeeds. -/
theorem servedBy_issue_supplicant {ssid ssid' : Bytes} {ok : Bool} :
    ServedBy (s.issue (.supplicant ssid') ok).issued ssid ↔ ok = true ∧ ssid' = ssid := by
  refine servedBy_append_singleton.trans ⟨?_, ?_⟩
  · rintro (h | ⟨-, hno⟩)
    · obtain ⟨hssid, hok⟩ := Issued.mk.inj h
      exact ⟨hok, Command.supplicant.inj hssid⟩
    · exact absurd trivial hno
  · rintro ⟨rfl, rfl⟩
    exact Or.inl rfl

theorem sound_init : Sound .init := ⟨Or.inl rfl, lastZero_replicate (by decide)⟩

theorem honest_init : Honest .init :=
  ⟨fun h ↦ absurd h (by decide), fun _ ↦ ⟨rfl, rfl⟩⟩

/-- Whoever is disconnected has an honest state. -/
theorem honest_clear {issued : List Issued} {state : WifiState} (hconnected : state.connected = 0)
    (hssid : state.ssid = .zero 64) (hip : state.ip = .zero 16) : Honest ⟨state, issued⟩ := by
  constructor
  · intro h
    exact absurd (hconnected.symm.trans h) (by decide)
  · intro _
    dsimp only
    rw [hssid, hip]
    exact ⟨rfl, rfl⟩

/-- A state that stays as it is, honest before, is honest exactly if what it is served by is. -/
theorem honest_iff_of_state_eq {s' : System} (hsound : Sound s) (hs : Honest s)
    (hstate : s'.state = s.state) :
    Honest s' ↔ s.state.connected = 0 ∨ ServedBy s'.issued (cstr s.state.ssid.bytes) := by
  constructor
  · intro h
    refine hsound.connected.imp_right fun hone ↦ ?_
    rw [← hstate]
    exact h.connected (hstate ▸ hone)
  · intro h
    refine ⟨fun hone ↦ ?_, fun hzero ↦ ?_⟩
    · rw [hstate] at hone ⊢
      exact h.resolve_left fun hzero ↦ absurd (hzero.symm.trans hone) (by decide)
    · rw [hstate] at hzero ⊢
      exact hs.idle hzero

/-- `wifi_disable` stops the connection before it knows whether it may say so. -/
theorem honest_disable_iff {disconnected down : Bool} (hsound : Sound s) (hs : Honest s) :
    Honest (wifiDisable s disconnected down).2 ↔ Keeps s (.disable disconnected down) := by
  cases down with
  | true => exact iff_of_true (honest_clear rfl rfl rfl) (Or.inr (Or.inl rfl))
  | false =>
    have hdown : ¬ (Issued.mk .linkDown false).Ends := Bool.false_ne_true
    have hstate : (wifiDisable s disconnected false).2.state = s.state := rfl
    rw [honest_iff_of_state_eq hsound hs hstate, Keeps]
    show _ ∨ ServedBy ((s.issue .disconnect disconnected).issue .linkDown false).issued _ ↔ _
    rw [servedBy_issue hdown]
    rcases hsound.connected with hzero | hone
    · exact iff_of_true (Or.inl hzero) (Or.inl hzero)
    · refine or_congr_right ?_
      cases disconnected with
      | true => exact iff_of_false (not_servedBy_issue rfl (by rintro ⟨⟩)) (by decide)
      | false =>
        have hdisconnect : ¬ (Issued.mk .disconnect false).Ends := Bool.false_ne_true
        exact iff_of_true ((servedBy_issue hdisconnect).2 (hs.connected hone)) (Or.inr rfl)

/-- Once there is a configuration, what is running is the network of the call, or nothing. -/
theorem servedBy_wifiConnect {ssid ssid' : Bytes} {o : Outcome} (hconf : o.conf = true) :
    ServedBy (wifiConnect s ssid o).2.issued ssid' ↔ o.started = true ∧ cstr ssid = ssid' := by
  rw [wifiConnect, if_pos hconf]
  cases hstarted : o.started with
  | false => exact servedBy_issue_supplicant
  | true =>
    dsimp only
    rw [if_pos rfl]
    have hends : ¬ (Issued.mk .udhcpc o.leased).Ends := not_false
    have hleased : ServedBy (((s.issue .killall o.killed).issue (.supplicant (cstr ssid))
        true).issue .udhcpc o.leased).issued ssid' ↔ true = true ∧ cstr ssid = ssid' :=
      (servedBy_issue hends).trans servedBy_issue_supplicant
    split
    · split <;> exact hleased
    · exact hleased

/-- A call that goes through says that it has. -/
theorem state_wifiConnect_of_full (s : System) (ssid : Bytes) {o : Outcome} (hconf : o.conf = true)
    (hfull : o.Full) : ∃ ip, (wifiConnect s ssid o).2.state = s.state.connect ssid ip := by
  obtain ⟨hstarted, hleased, hip⟩ := hfull
  obtain ⟨ip, hip⟩ := Option.isSome_iff_exists.1 hip
  rw [wifiConnect, if_pos hconf, if_pos hstarted]
  dsimp only
  rw [if_pos hleased, hip]
  exact ⟨ip, rfl⟩

/-- Any other call leaves the state alone. -/
theorem state_wifiConnect_of_not_full {ssid : Bytes} {o : Outcome}
    (hfull : ¬ (o.conf = true ∧ o.Full)) : (wifiConnect s ssid o).2.state = s.state := by
  rw [wifiConnect]
  split
  next hconf =>
    dsimp only
    split
    next hstarted =>
      split
      next hleased =>
        split
        next hip => exact absurd ⟨hconf, hstarted, hleased, hip ▸ rfl⟩ hfull
        next => rfl
      next => rfl
    next => rfl
  next => rfl

/-- `wifi_connect` is honest if it goes through, with a name that fits, or if the start alone is
what the state already says. -/
theorem honest_connect_iff {ssid : Bytes} {o : Outcome} (hsound : Sound s) (hs : Honest s) :
    Honest (wifiConnect s ssid o).2 ↔ Keeps s (.connect ssid o) := by
  rw [Keeps]
  cases hconf : o.conf with
  | false =>
    rw [wifiConnect, hconf]
    exact iff_of_true hs (by rintro ⟨⟩)
  | true =>
    rw [forall_prop_of_true rfl]
    by_cases hfull : o.Full
    · obtain ⟨ip, hstate⟩ := state_wifiConnect_of_full s ssid hconf hfull
      have hssid : cstr (wifiConnect s ssid o).2.state.ssid.bytes = (cstr ssid).take 63 := by
        rw [hstate]
        exact cstr_strncpy s.state.ssid.length_bytes hsound.ssid
      have hone : (wifiConnect s ssid o).2.state.connected = 1 := by rw [hstate]; rfl
      refine Iff.trans ?_ ((or_iff_left fun h ↦ h.1 hfull).trans (and_iff_right hfull)).symm
      constructor
      · intro h
        have hserved := h.connected hone
        rw [hssid, servedBy_wifiConnect hconf] at hserved
        have hlen := congrArg List.length hserved.2
        rw [List.length_take] at hlen
        omega
      · intro hle
        refine ⟨fun _ ↦ ?_, fun hzero ↦ absurd (hzero.symm.trans hone) (by decide)⟩
        rw [hssid, servedBy_wifiConnect hconf, List.take_of_length_le hle]
        exact ⟨hfull.1, rfl⟩
    · rw [honest_iff_of_state_eq hsound hs (state_wifiConnect_of_not_full fun h ↦ hfull h.2),
        servedBy_wifiConnect hconf]
      exact ((or_iff_right fun h ↦ hfull h.1).trans (and_iff_right hfull)).symm

/-- `wifi_enable` leaves the connection alone. -/
theorem honest_enable {up : Bool} (hs : Honest s) : Honest (wifiEnable s up).2 := by
  have hserved : ∀ ssid, ServedBy (s.issue .linkUp up).issued ssid ↔ ServedBy s.issued ssid :=
    fun _ ↦ servedBy_issue (show ¬ (Issued.mk .linkUp up).Ends from not_false)
  cases up with
  | true => exact ⟨fun h ↦ (hserved _).2 (hs.connected h), hs.idle⟩
  | false => exact ⟨fun h ↦ (hserved _).2 (hs.connected h), hs.idle⟩

/-- **One call.** -/
theorem honest_call_iff {c : Call} (hsound : Sound s) (hs : Honest s) :
    Honest (call s c) ↔ Keeps s c := by
  cases c with
  | enable up => exact iff_of_true (honest_enable hs) trivial
  | disable disconnected down => exact honest_disable_iff hsound hs
  | connect ssid o => exact honest_connect_iff hsound hs
  | disconnect disconnected killed flushed =>
    exact iff_of_true (honest_clear rfl rfl rfl) trivial

theorem Sound.of_state_eq {s' : System} (h : Sound s) (hstate : s'.state = s.state) : Sound s' :=
  ⟨hstate ▸ h.connected, hstate ▸ h.ssid⟩

/-- **One call** keeps the state sound. -/
theorem Sound.call (h : Sound s) (c : Call) : Sound (call s c) := by
  have hclear : Sound ⟨s.state.clear, []⟩ := ⟨Or.inl rfl, lastZero_replicate (by decide)⟩
  cases c with
  | enable up =>
    cases up with
    | true => exact ⟨h.connected, h.ssid⟩
    | false => exact h.of_state_eq rfl
  | disable disconnected down =>
    cases down with
    | true => exact ⟨hclear.connected, hclear.ssid⟩
    | false => exact h.of_state_eq rfl
  | connect ssid o =>
    by_cases hfull : o.conf = true ∧ o.Full
    · obtain ⟨ip, hstate⟩ := state_wifiConnect_of_full s ssid hfull.1 hfull.2
      show Sound (wifiConnect s ssid o).2
      constructor
      · rw [hstate]
        exact Or.inr rfl
      · rw [hstate]
        exact lastZero_strncpy s.state.ssid.length_bytes h.ssid
    · exact h.of_state_eq (state_wifiConnect_of_not_full hfull)
  | disconnect disconnected killed flushed => exact hclear.of_state_eq rfl

/-- **When the state is honest.** For every sequence of calls and all outcomes of the commands:
the state says the truth after every call exactly if no call stops or replaces the connection
without saying so. -/
theorem wifi_honest_iff (calls : List Call) :
    daemon.Guarded Keeps .init calls ↔
      ∀ n s, daemon.run .init (calls.take n) = some s → Honest s := by
  obtain ⟨t, hrun⟩ := daemon.exists_run_of_total (fun _ _ ↦ ⟨_, rfl⟩) .init calls
  refine Machine.guarded_iff_forall_take (fun s c s' hsound hs hstep ↦ ?_) sound_init honest_init
    hrun
  obtain rfl := Option.some.inj hstep
  exact ⟨hsound.call c, (honest_call_iff hsound hs).symm⟩

/-- A connection, and another that fails when the first has been stopped. -/
def replaced : List Call :=
  [.connect [97] ⟨true, true, true, true, some [49, 10]⟩,
    .connect [98] ⟨true, true, false, true, none⟩]

/-- The state still says that the first one is there. -/
theorem not_honest_replaced :
    ∃ s, daemon.run .init replaced = some s ∧ s.state.connected = 1 ∧
      cstr s.state.ssid.bytes = [97] ∧ ¬ Honest s := by
  refine ⟨_, rfl, rfl, rfl, fun h ↦ ?_⟩
  have hserved := h.connected rfl
  have hconf : (Outcome.mk true true false true none).conf = true := rfl
  exact Bool.false_ne_true ((servedBy_wifiConnect hconf).1 hserved).1

end JuliusOS.Wifi
