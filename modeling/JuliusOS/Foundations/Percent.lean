import JuliusOS.Foundations.Hex
import JuliusOS.Foundations.Utf8

/-!
# Percent-encoding

`quote` leaves the letters, the digits and a few marks as they are and writes every other byte of a
text as a percent sign with two digits. `unquote` decodes each run of ASCII characters of a text by
itself, as UTF-8 in which what is malformed is replaced, and leaves a percent sign alone that is not
followed by two digits.

What was quoted is unquoted (`unquote_quote`).
-/

namespace Percent

/-- The bytes that stay as they are. -/
def isSafe (b : UInt8) : Bool :=
  (65 ≤ b.toNat && b.toNat ≤ 90) || (97 ≤ b.toNat && b.toNat ≤ 122) ||
    (48 ≤ b.toNat && b.toNat ≤ 57) || b == 95 || b == 46 || b == 45 || b == 126 || b == 47

/-- What is written for a byte. -/
def quoteByte (b : UInt8) : List Char :=
  if isSafe b then [Char.ofNat b.toNat] else '%' :: Hex.ofByte Hex.upper b

/-- `quote`. -/
def quote (s : List Char) : List Char := (Utf8.encode s).flatMap quoteByte

/-- The byte of a character of ASCII. -/
def byteOf (c : Char) : UInt8 := UInt8.ofNat c.toNat

/-- `unquote_to_bytes`, of a text of ASCII. -/
def unquoteToBytes : List Char → Bytes
  | [] => []
  | [c] => [byteOf c]
  | [c, d] => [byteOf c, byteOf d]
  | c :: d :: e :: rest =>
    if c = '%' then
      match Hex.toByte d e with
      | some b => b :: unquoteToBytes rest
      | none => byteOf c :: unquoteToBytes (d :: e :: rest)
    else byteOf c :: unquoteToBytes (d :: e :: rest)

/-- A run of ASCII. -/
def unquoteRun (run : List Char) : List Char := Utf8.decodeReplace (unquoteToBytes run)

/-- The runs of ASCII in a text, the first of which has begun. -/
def unquoteFrom (run : List Char) : List Char → List Char
  | [] => unquoteRun run
  | c :: cs =>
    if c.toNat < 128 then unquoteFrom (run ++ [c]) cs else unquoteRun run ++ c :: unquoteFrom [] cs

/-- `unquote`. -/
def unquote (s : List Char) : List Char := if s.contains '%' then unquoteFrom [] s else s

/-! ### Runs of ASCII -/

variable {c : Char} {s : List Char}

/-- A text of ASCII is one run. -/
theorem unquoteFrom_ascii (run : List Char) (h : ∀ c ∈ s, c.toNat < 128) :
    unquoteFrom run s = unquoteRun (run ++ s) := by
  induction s generalizing run with
  | nil => rw [List.append_nil]; rfl
  | cons c s ih =>
    obtain ⟨hc, hs⟩ := List.forall_mem_cons.1 h
    rw [unquoteFrom, if_pos hc, ih (run ++ [c]) hs, List.append_assoc, List.singleton_append]

/-- A character other than a percent sign stands for itself. -/
theorem unquoteToBytes_cons (h : c ≠ '%') (s : List Char) :
    unquoteToBytes (c :: s) = byteOf c :: unquoteToBytes s := by
  rcases s with _ | ⟨d, _ | ⟨e, rest⟩⟩
  · rfl
  · rfl
  · exact if_neg h

/-- A percent sign with two digits stands for a byte. -/
theorem unquoteToBytes_percent {d e : Char} {b : UInt8} (h : Hex.toByte d e = some b)
    (s : List Char) : unquoteToBytes ('%' :: d :: e :: s) = b :: unquoteToBytes s := by
  rw [unquoteToBytes, if_pos rfl, h]

/-- Text without a percent sign is decoded to itself. -/
theorem unquoteRun_of_not_mem (hascii : ∀ c ∈ s, c.toNat < 128) (h : '%' ∉ s) :
    unquoteRun s = s := by
  have hbytes : unquoteToBytes s = Utf8.encode s := by
    induction s with
    | nil => rfl
    | cons c s ih =>
      obtain ⟨hc, hs⟩ := List.forall_mem_cons.1 hascii
      rw [List.mem_cons, not_or] at h
      rw [unquoteToBytes_cons (Ne.symm h.1), ih hs h.2, Utf8.encode_cons, Utf8.encodeChar_of_lt hc]
      rfl
  rw [unquoteRun, hbytes, Utf8.decodeReplace_encode]

/-! ### Quoting and unquoting -/

theorem isSafe_lt {b : UInt8} (h : isSafe b = true) : b.toNat < 128 ∧ b.toNat ≠ 37 := by
  simp only [isSafe, Bool.or_eq_true, Bool.and_eq_true, decide_eq_true_eq, beq_iff_eq] at h
  rcases h with ((((((h | h) | h) | rfl) | rfl) | rfl) | rfl) | rfl
  · omega
  · omega
  · omega
  all_goals decide

theorem toNat_ofNat_of_lt {n : ℕ} (h : n < 128) : (Char.ofNat n).toNat = n := by
  have hvalid : n.isValidChar := Or.inl (by omega)
  rw [Char.ofNat, dif_pos hvalid]
  rfl

/-- What is quoted is ASCII. -/
theorem quoteByte_lt (b : UInt8) : ∀ c ∈ quoteByte b, c.toNat < 128 := by
  have hb := b.toNat_lt
  by_cases hsafe : isSafe b = true
  · have hlt := (isSafe_lt hsafe).1
    rw [quoteByte, if_pos hsafe]
    intro c hc
    rw [List.mem_singleton.1 hc, toNat_ofNat_of_lt hlt]
    exact hlt
  · rw [quoteByte, if_neg hsafe]
    refine List.forall_mem_cons.2 ⟨by decide, List.forall_mem_cons.2
      ⟨Hex.digit_upper_lt (by omega), List.forall_mem_cons.2
        ⟨Hex.digit_upper_lt (by omega), List.forall_mem_nil _⟩⟩⟩

theorem quote_lt (s : List Char) : ∀ c ∈ quote s, c.toNat < 128 := by
  intro c hc
  obtain ⟨b, -, hb⟩ := List.mem_flatMap.1 hc
  exact quoteByte_lt b c hb

/-- A quoted byte is unquoted. -/
theorem unquoteToBytes_quoteByte (b : UInt8) (s : List Char) :
    unquoteToBytes (quoteByte b ++ s) = b :: unquoteToBytes s := by
  have hb := b.toNat_lt
  by_cases hsafe : isSafe b = true
  · obtain ⟨hlt, hne⟩ := isSafe_lt hsafe
    have hc := toNat_ofNat_of_lt hlt
    have hpercent : Char.ofNat b.toNat ≠ '%' := by
      intro h
      rw [h] at hc
      exact hne hc.symm
    rw [quoteByte, if_pos hsafe, List.singleton_append, unquoteToBytes_cons hpercent, byteOf, hc,
      UInt8.ofNat_toNat]
  · rw [quoteByte, if_neg hsafe]
    exact unquoteToBytes_percent (Hex.toByte_eq (Hex.value_digit_upper (by omega))
      (Hex.value_digit_upper (by omega))) s

theorem unquoteToBytes_quote (x : Bytes) : unquoteToBytes (x.flatMap quoteByte) = x := by
  induction x with
  | nil => rfl
  | cons b x ih => rw [List.flatMap_cons, unquoteToBytes_quoteByte, ih]

/-- **What was quoted is unquoted**, also where nothing had to be. -/
theorem unquote_quote (s : List Char) : unquote (quote s) = s := by
  have hrun : unquoteRun (quote s) = s := by
    rw [unquoteRun, quote, unquoteToBytes_quote, Utf8.decodeReplace_encode]
  by_cases hpercent : (quote s).contains '%' = true
  · rw [unquote, if_pos hpercent, unquoteFrom_ascii [] (quote_lt s), List.nil_append, hrun]
  · rw [unquote, if_neg hpercent]
    refine (unquoteRun_of_not_mem (quote_lt s) fun hmem ↦ hpercent ?_).symm.trans hrun
    exact List.contains_iff_mem.2 hmem

end Percent
