import JuliusOS.Foundations.Hex

/-!
# The packet that wakes a device

`send_magic` of `src/apps/wakeonlan/wakeonlan.py`: the address is what has been typed, without its
colons and dashes; the packet is read from hexadecimal text with sixteen copies of it. The text is
not checked before, and sixteen copies of any number of digits are an even number of digits, so
digits of any number are sent. The packet is well formed exactly if there are twelve (`magic_spec`).
-/

namespace JuliusOS.Apps.MagicPacket

/-- `mac.replace(":", "").replace("-", "")`. -/
def plain (mac : List Char) : List Char := mac.filter fun c ↦ !(c == ':') && !(c == '-')

/-- `bytes.fromhex("FF" * 6 + mac * 16)`. -/
def magic (mac : List Char) : Option Bytes :=
  Hex.decode
    ((List.replicate 6 ['F', 'F']).flatten ++ (List.replicate 16 (plain mac)).flatten)

/-- What comes of `sendto`: nothing, or the text of the exception. -/
abbrev SendResult := Except String Unit

/-- `send_magic`: what is sent, and the `status` afterwards. `message` is the text of the exception
that `fromhex` raises. -/
def sendMagic (mac : List Char) (message : String) (sent : SendResult) : Option Bytes × String :=
  match magic mac with
  | none => (none, "Error: " ++ message)
  | some packet =>
    match sent with
    | .ok () => (some packet, "Magic packet sent!")
    | .error text => (none, "Error: " ++ text)

/-- Six bytes of ones, and sixteen times an address of six bytes. -/
def WellFormed (packet : Bytes) : Prop :=
  ∃ address : Bytes, address.length = 6 ∧
    packet = List.replicate 6 0xFF ++ (List.replicate 16 address).flatten

variable {mac : List Char} {packet : Bytes}

theorem length_copies {α : Type*} (n : ℕ) (l : List α) :
    (List.replicate n l).flatten.length = n * l.length := by
  induction n with
  | zero => rw [Nat.zero_mul]; rfl
  | succ n ih =>
    rw [List.replicate_succ, List.flatten_cons, List.length_append, ih, Nat.succ_mul, Nat.add_comm]

theorem forall_mem_copies {α : Type*} {p : α → Prop} (n : ℕ) {l : List α} (h : ∀ x ∈ l, p x) :
    ∀ x ∈ (List.replicate n l).flatten, p x := by
  intro x hx
  obtain ⟨copy, hcopy, hxcopy⟩ := List.mem_flatten.1 hx
  rw [List.eq_of_mem_replicate hcopy] at hxcopy
  exact h x hxcopy

/-- The digits of the text are counted. -/
theorem length_of_magic (h : magic mac = some packet) :
    packet.length = 6 + 8 * (Hex.digits (plain mac)).length := by
  have hlen := Hex.length_digits h
  rw [Hex.digits_append, List.length_append, Hex.length_digits_flatten,
    Hex.length_digits_flatten] at hlen
  have htwo : (Hex.digits ['F', 'F']).length = 2 := by decide
  omega

/-- **Digits of any number make a packet.** -/
theorem exists_magic (hmac : ∀ c ∈ plain mac, (Hex.value c).isSome) :
    ∃ packet, magic mac = some packet := by
  refine Hex.exists_decode ?_ ?_
  · have hones : ∀ c ∈ ['F', 'F'], (Hex.value c).isSome := by
      intro c hc
      obtain rfl : c = 'F' := List.eq_of_mem_replicate (n := 2) hc
      decide
    exact List.forall_mem_append.2 ⟨forall_mem_copies 6 hones, forall_mem_copies 16 hmac⟩
  · have hlen : (List.replicate 16 (plain mac)).flatten.length = 16 * (plain mac).length :=
      length_copies 16 (plain mac)
    have htwelve : (List.replicate 6 ['F', 'F']).flatten.length = 12 := by decide
    rw [List.length_append, hlen, htwelve]
    omega

/-- With an even number of digits the copies of the address are read one by one. -/
theorem eq_of_magic (heven : (Hex.digits (plain mac)).length % 2 = 0)
    (h : magic mac = some packet) :
    ∃ address, Hex.decode (plain mac) = some address ∧
      packet = List.replicate 6 0xFF ++ (List.replicate 16 address).flatten := by
  obtain ⟨ones, copies, hones, hcopies, rfl⟩ := Hex.decode_append_of_even (by decide) h
  obtain ⟨address, haddress, rfl⟩ := Hex.decode_flatten_replicate heven hcopies
  have hsix : Hex.decode (List.replicate 6 ['F', 'F']).flatten =
      some (List.replicate 6 0xFF) := by decide
  obtain rfl := Option.some.inj (hones.symm.trans hsix)
  exact ⟨address, haddress, rfl⟩

/-- **What is sent for a text.** Digits of any number are sent, with eight bytes for each. The
packet is well formed exactly if there are twelve, and then it has the address that was typed. -/
theorem magic_spec (mac : List Char) :
    ((∀ c ∈ plain mac, (Hex.value c).isSome) → ∃ packet, magic mac = some packet) ∧
      ∀ packet, magic mac = some packet →
        packet.length = 6 + 8 * (Hex.digits (plain mac)).length ∧
        (WellFormed packet ↔ (Hex.digits (plain mac)).length = 12) ∧
        ((Hex.digits (plain mac)).length = 12 → ∃ address, Hex.decode (plain mac) = some address ∧
          packet = List.replicate 6 0xFF ++ (List.replicate 16 address).flatten) := by
  refine ⟨exists_magic, fun packet h ↦ ?_⟩
  have hlen := length_of_magic h
  refine ⟨hlen, ⟨?_, fun htwelve ↦ ?_⟩, fun htwelve ↦ eq_of_magic (by omega) h⟩
  · rintro ⟨address, hsix, rfl⟩
    have htotal : (List.replicate 6 (0xFF : UInt8) ++
        (List.replicate 16 address).flatten).length = 102 := by
      rw [List.length_append, List.length_replicate, length_copies, hsix]
    omega
  · obtain ⟨address, haddress, hpacket⟩ := eq_of_magic (by omega) h
    have hcount := Hex.length_digits haddress
    exact ⟨address, by omega, hpacket⟩

end JuliusOS.Apps.MagicPacket
