import JuliusOS.Foundations.Bytes

/-!
# UTF-8, strict and with errors ignored

`encode` is the UTF-8 encoding of a text, built on Lean's encoding of a character, `decodeStrict`
is the decoder that refuses what is no encoding (`decodeStrict_eq_some_iff`), and
`decodeIgnore` is the decoder that skips what it cannot decode: at each position it takes the
character that is encoded there, and drops one byte if there is none. (Dropping a whole
malformed sequence at once comes to the same thing, because the bytes of a sequence after its
first cannot start a character.)

* `decodeIgnore_encode_append`: well-formed text in front is decoded as it is;
* `length_encode_decodeIgnore_le`: what is decoded is no longer than what was there;
* `decodeIgnore_drop`: of a text that is entered in the middle of a character only the rest of
  that character is lost.
-/

namespace Utf8

/-- `s.encode()`. -/
def encode (s : List Char) : Bytes := s.flatMap String.utf8EncodeChar

/-- The character encoded at the front. -/
def decodeChar? (b : Bytes) : Option Char := b.toByteArray.utf8DecodeChar? 0

/-- Decode after skipping some bytes. -/
def decodeFrom : ℕ → Bytes → List Char
  | _, [] => []
  | skip + 1, _ :: bs => decodeFrom skip bs
  | 0, b :: bs =>
    match decodeChar? (b :: bs) with
    | some c => c :: decodeFrom (c.utf8Size - 1) bs
    | none => decodeFrom 0 bs

/-- `b.decode(errors='ignore')`. -/
def decodeIgnore (b : Bytes) : List Char := decodeFrom 0 b

/-- Decode after skipping some bytes, and refuse what cannot be decoded. -/
def decodeStrictFrom : ℕ → Bytes → Option (List Char)
  | _, [] => some []
  | skip + 1, _ :: bs => decodeStrictFrom skip bs
  | 0, b :: bs =>
    match decodeChar? (b :: bs) with
    | some c => (decodeStrictFrom (c.utf8Size - 1) bs).map (c :: ·)
    | none => none

/-- `b.decode()`. -/
def decodeStrict (b : Bytes) : Option (List Char) := decodeStrictFrom 0 b

/-! ### Encoding -/

@[simp] theorem encode_nil : encode [] = [] := rfl

@[simp]
theorem encode_cons (c : Char) (s : List Char) :
    encode (c :: s) = String.utf8EncodeChar c ++ encode s := rfl

@[simp]
theorem encode_append (s t : List Char) : encode (s ++ t) = encode s ++ encode t :=
  List.flatMap_append

/-- A byte below 128 is the encoding of a character. -/
theorem exists_encodeChar_eq {a : UInt8} (h : a < 128) :
    ∃ c, String.utf8EncodeChar c = [a] := by
  have hlt : a.toNat < 128 := UInt8.lt_iff_toNat_lt.1 h
  have hvalid : a.toNat.isValidChar := Or.inl (by omega)
  have hval : (Char.ofNat a.toNat).val.toNat = a.toNat := by
    rw [Char.ofNat, dif_pos hvalid]
    rfl
  refine ⟨Char.ofNat a.toNat, ?_⟩
  rw [String.utf8EncodeChar]
  simp only [hval]
  rw [if_pos (by omega), UInt8.ofNat_toNat]

/-- Bytes below 128 are the encoding of a text. -/
theorem exists_encode_eq {x : Bytes} (h : ∀ a ∈ x, a < 128) : ∃ s, encode s = x := by
  induction x with
  | nil => exact ⟨[], rfl⟩
  | cons a x ih =>
    obtain ⟨c, hc⟩ := exists_encodeChar_eq (h a (List.mem_cons_self ..))
    obtain ⟨s, hs⟩ := ih fun b hb ↦ h b (List.mem_cons_of_mem a hb)
    exact ⟨c :: s, by rw [encode_cons, hc, hs, List.singleton_append]⟩

/-! ### Decoding one character -/

variable {a b : UInt8} {c : Char} {x y : Bytes} {s t : List Char}

theorem decodeChar?_encodeChar_append (c : Char) (x : Bytes) :
    decodeChar? (String.utf8EncodeChar c ++ x) = some c := by
  rw [decodeChar?, List.toByteArray_append]
  exact ByteArray.utf8DecodeChar?_utf8EncodeChar_append

/-- What is decoded at the front was encoded there. -/
theorem eq_append_of_decodeChar?_eq_some (h : decodeChar? x = some c) :
    x = String.utf8EncodeChar c ++ x.drop c.utf8Size := by
  obtain ⟨l, hl⟩ := ByteArray.exists_of_utf8DecodeChar?_eq_some h
  have hx : x = String.utf8EncodeChar c ++ l.data.toList := by
    simpa using congrArg (fun d ↦ d.data.toList) hl
  have hdrop : x.drop c.utf8Size = l.data.toList := by
    rw [hx]
    exact List.drop_left' (String.length_utf8EncodeChar c)
  rw [hdrop]
  exact hx

/-- The first byte of a character can start one. -/
theorem first_of_encodeChar_eq (h : String.utf8EncodeChar c = a :: x) : a.IsUTF8FirstByte := by
  have hfirst := (@UInt8.isUTF8FirstByte_getElem_utf8EncodeChar c 0 (by simp [h])).2 rfl
  simpa [h] using hfirst

/-- No other byte of a character can. -/
theorem not_first_of_encodeChar_eq (h : String.utf8EncodeChar c = a :: x) :
    ∀ b ∈ x, ¬ b.IsUTF8FirstByte := by
  intro b hb hfirst
  obtain ⟨i, hi, rfl⟩ := List.getElem_of_mem hb
  have hlen : i + 1 < (String.utf8EncodeChar c).length := by
    rw [h, List.length_cons]
    omega
  have hget : (String.utf8EncodeChar c)[i + 1] = x[i] := by simp [h]
  exact absurd (UInt8.isUTF8FirstByte_getElem_utf8EncodeChar.1 (hget ▸ hfirst)) (by omega)

/-- A byte below 128 can start a character. -/
theorem first_of_lt (h : a < 128) : a.IsUTF8FirstByte := by
  obtain ⟨c, hc⟩ := exists_encodeChar_eq h
  exact first_of_encodeChar_eq hc

/-- A byte that cannot start a character does not. -/
theorem decodeChar?_of_not_first (h : ¬ a.IsUTF8FirstByte) : decodeChar? (a :: x) = none := by
  rw [Option.eq_none_iff_forall_ne_some]
  intro c hc
  have hx := eq_append_of_decodeChar?_eq_some hc
  cases henc : String.utf8EncodeChar c with
  | nil => exact absurd (congrArg List.length henc) (by simp [c.utf8Size_pos.ne'])
  | cons p ps =>
    rw [henc, List.cons_append, List.cons.injEq] at hx
    exact h (hx.1 ▸ first_of_encodeChar_eq henc)

/-- Nothing is decoded from nothing. -/
theorem decodeIgnore_nil : decodeIgnore [] = [] := rfl

theorem decodeFrom_eq (n : ℕ) (x : Bytes) : decodeFrom n x = decodeIgnore (x.drop n) := by
  induction x generalizing n with
  | nil => cases n <;> rfl
  | cons a x ih =>
    cases n with
    | zero => rfl
    | succ n => exact ih n

theorem decodeIgnore_of_none (h : decodeChar? (a :: x) = none) :
    decodeIgnore (a :: x) = decodeIgnore x := by
  rw [decodeIgnore, decodeFrom, h]
  rfl

theorem decodeIgnore_encodeChar_append (c : Char) (x : Bytes) :
    decodeIgnore (String.utf8EncodeChar c ++ x) = c :: decodeIgnore x := by
  have hdec := decodeChar?_encodeChar_append c x
  cases henc : String.utf8EncodeChar c with
  | nil => exact absurd (congrArg List.length henc) (by simp [c.utf8Size_pos.ne'])
  | cons p ps =>
    have hlen : ps.length = c.utf8Size - 1 := by
      rw [← String.length_utf8EncodeChar, henc, List.length_cons, Nat.add_sub_cancel]
    rw [henc, List.cons_append] at hdec
    rw [List.cons_append, decodeIgnore, decodeFrom, hdec]
    show c :: decodeFrom (c.utf8Size - 1) (ps ++ x) = _
    rw [decodeFrom_eq, List.drop_left' hlen]

/-- **Text in front is decoded as it is.** -/
theorem decodeIgnore_encode_append (s : List Char) (x : Bytes) :
    decodeIgnore (encode s ++ x) = s ++ decodeIgnore x := by
  induction s with
  | nil => rfl
  | cons c s ih =>
    rw [encode_cons, List.append_assoc, decodeIgnore_encodeChar_append, ih, List.cons_append]

/-- **Decoding undoes encoding.** -/
theorem decodeIgnore_encode (s : List Char) : decodeIgnore (encode s) = s := by
  have h := decodeIgnore_encode_append s []
  rwa [List.append_nil, decodeIgnore_nil, List.append_nil] at h

/-- Bytes that cannot start a character are dropped. -/
theorem decodeIgnore_not_first_append (h : ∀ a ∈ x, ¬ a.IsUTF8FirstByte) (y : Bytes) :
    decodeIgnore (x ++ y) = decodeIgnore y := by
  induction x with
  | nil => rfl
  | cons a x ih =>
    rw [List.cons_append,
      decodeIgnore_of_none (decodeChar?_of_not_first (h a (List.mem_cons_self ..)))]
    exact ih fun b hb ↦ h b (List.mem_cons_of_mem a hb)

/-- **Decoding never adds bytes.** -/
theorem length_encode_decodeIgnore_le (x : Bytes) :
    (encode (decodeIgnore x)).length ≤ x.length := by
  induction hn : x.length using Nat.strong_induction_on generalizing x with
  | _ n ih =>
    cases x with
    | nil => simp [decodeIgnore_nil]
    | cons a x =>
      cases hdec : decodeChar? (a :: x) with
      | none =>
        rw [decodeIgnore_of_none hdec]
        have := ih x.length (by simp at hn; omega) x rfl
        simp at hn
        omega
      | some c =>
        have hx := eq_append_of_decodeChar?_eq_some hdec
        have hpos := c.utf8Size_pos
        have hlen := congrArg List.length hx
        rw [List.length_append, String.length_utf8EncodeChar] at hlen
        rw [hx, decodeIgnore_encodeChar_append, encode_cons, List.length_append,
          String.length_utf8EncodeChar]
        have := ih _ (by omega) ((a :: x).drop c.utf8Size) rfl
        omega

/-- A one-byte character is a byte below 128, and a byte below 128 is not part of any other. -/
theorem mem_encodeChar_lt_iff (h : a ∈ String.utf8EncodeChar c) :
    a < 128 ↔ String.utf8EncodeChar c = [a] := by
  cases henc : String.utf8EncodeChar c with
  | nil => exact absurd (congrArg List.length henc) (by simp [c.utf8Size_pos.ne'])
  | cons p ps =>
    constructor
    · intro ha
      obtain ⟨d, hd⟩ := exists_encodeChar_eq ha
      have hap : a = p := by
        rcases List.mem_cons.1 (henc ▸ h) with rfl | hps
        · rfl
        · exact absurd (first_of_lt ha) (not_first_of_encodeChar_eq henc a hps)
      -- the byte alone already decodes, so it is the whole character
      have hdec := decodeChar?_encodeChar_append d ps
      rw [hd, List.singleton_append, hap, ← henc, ← List.append_nil (String.utf8EncodeChar c),
        decodeChar?_encodeChar_append] at hdec
      rw [← henc, Option.some.inj hdec, hd]
    · intro ha
      rw [ha] at henc
      have hone : c.utf8Size = 1 := by
        rw [← String.length_utf8EncodeChar, henc, List.length_singleton]
      have hle : c.val.toNat ≤ 127 := UInt32.le_iff_toNat_le.1 (Char.utf8Size_eq_one_iff.1 hone)
      have hval : a = c.val.toUInt8 := by
        have := String.utf8EncodeChar_eq_singleton hone
        rw [henc, List.singleton_inj] at this
        exact this
      rw [hval, UInt8.lt_iff_toNat_lt, UInt32.toNat_toUInt8]
      exact lt_of_le_of_lt (Nat.mod_le _ _) (Nat.lt_succ_of_le hle)

/-- A byte from 128 on in front of bytes below 128 is dropped. -/
theorem decodeIgnore_cons_ascii (ha : 128 ≤ a) (hx : ∀ b ∈ x, b < 128) :
    decodeIgnore (a :: x) = decodeIgnore x := by
  refine decodeIgnore_of_none (Option.eq_none_iff_forall_ne_some.2 fun c hc ↦ ?_)
  have hsplit := eq_append_of_decodeChar?_eq_some hc
  cases henc : String.utf8EncodeChar c with
  | nil => exact absurd (congrArg List.length henc) (by simp [c.utf8Size_pos.ne'])
  | cons p ps =>
    rw [henc, List.cons_append, List.cons.injEq] at hsplit
    obtain ⟨rfl, htail⟩ := hsplit
    cases ps with
    | nil =>
      have hlt := (mem_encodeChar_lt_iff (henc ▸ List.mem_singleton_self a)).2 henc
      exact absurd hlt (UInt8.not_lt.2 ha)
    | cons q qs =>
      have hq : q ∈ String.utf8EncodeChar c := by simp [henc]
      have hlt : q < 128 := hx q (by rw [htail]; exact List.mem_cons_self ..)
      have hsingle := (mem_encodeChar_lt_iff hq).1 hlt
      simp [henc] at hsingle

/-- **A text entered in the middle of a character** loses the rest of that character, which is
at most three bytes, and nothing else. The byte in front of the place is then 128 or more. -/
theorem exists_drop_encode (s : List Char) (k : ℕ) :
    ∃ junk t, (encode s).drop k = junk ++ encode t ∧ junk.length ≤ 3 ∧
      (∀ a ∈ junk, ¬ a.IsUTF8FirstByte) ∧
      (junk ≠ [] → 0 < k ∧ 128 ≤ (encode s).getD (k - 1) 0) := by
  induction s generalizing k with
  | nil => exact ⟨[], [], by simp, by simp, by simp, by simp⟩
  | cons c s ih =>
    have hlen := String.length_utf8EncodeChar c
    rcases Nat.lt_or_ge k c.utf8Size with hk | hk
    · rcases Nat.eq_zero_or_pos k with rfl | hpos
      · exact ⟨[], c :: s, rfl, by simp, by simp, by simp⟩
      · refine ⟨(String.utf8EncodeChar c).drop k, s, ?_, ?_, ?_, fun _ ↦ ⟨hpos, ?_⟩⟩
        · rw [encode_cons, List.drop_append_of_le_length (by omega)]
        · rw [List.length_drop, hlen]
          have := c.utf8Size_le_four
          omega
        · cases henc : String.utf8EncodeChar c with
          | nil => simp
          | cons p ps =>
            obtain ⟨k, rfl⟩ := Nat.exists_eq_succ_of_ne_zero hpos.ne'
            exact fun a ha ↦ not_first_of_encodeChar_eq henc a (List.mem_of_mem_drop ha)
        · have hmem : (String.utf8EncodeChar c)[k - 1] ∈ String.utf8EncodeChar c :=
            List.getElem_mem _
          rw [encode_cons, List.getD_append _ _ _ _ (by omega),
            List.getD_eq_getElem _ _ (by omega), ← UInt8.not_lt, mem_encodeChar_lt_iff hmem]
          intro hsingle
          rw [hsingle, List.length_singleton] at hlen
          omega
    · obtain ⟨junk, t, hdrop, hjunk, hfirst, hbefore⟩ := ih (k - c.utf8Size)
      refine ⟨junk, t, ?_, hjunk, hfirst, fun hne ↦ ?_⟩
      · rw [encode_cons, List.drop_append, hlen, List.drop_of_length_le (by omega),
          List.nil_append, hdrop]
      · obtain ⟨hpos, hle⟩ := hbefore hne
        refine ⟨by omega, ?_⟩
        rw [encode_cons, List.getD_append_right _ _ _ _ (by omega), hlen,
          show k - 1 - c.utf8Size = k - c.utf8Size - 1 by omega]
        exact hle

/-! ### Strict decoding -/

theorem decodeStrictFrom_eq (n : ℕ) (x : Bytes) :
    decodeStrictFrom n x = decodeStrict (x.drop n) := by
  induction x generalizing n with
  | nil => cases n <;> rfl
  | cons a x ih =>
    cases n with
    | zero => rfl
    | succ n => exact ih n

/-- A character in front is decoded first. -/
theorem decodeStrict_encodeChar_append (c : Char) (x : Bytes) :
    decodeStrict (String.utf8EncodeChar c ++ x) = (decodeStrict x).map (c :: ·) := by
  have hdec := decodeChar?_encodeChar_append c x
  cases henc : String.utf8EncodeChar c with
  | nil => exact absurd (congrArg List.length henc) (by simp [c.utf8Size_pos.ne'])
  | cons p ps =>
    have hlen : ps.length = c.utf8Size - 1 := by
      rw [← String.length_utf8EncodeChar, henc, List.length_cons, Nat.add_sub_cancel]
    rw [henc, List.cons_append] at hdec
    rw [List.cons_append, decodeStrict, decodeStrictFrom, hdec]
    show (decodeStrictFrom (c.utf8Size - 1) (ps ++ x)).map _ = _
    rw [decodeStrictFrom_eq, List.drop_left' hlen]

/-- **What is decoded was encoded**, and only that. -/
theorem decodeStrict_eq_some_iff : decodeStrict x = some s ↔ encode s = x := by
  constructor
  · intro h
    induction hn : x.length using Nat.strong_induction_on generalizing x s with
    | _ n ih =>
      cases x with
      | nil =>
        obtain rfl := Option.some.inj h
        rfl
      | cons a x =>
        cases hdec : decodeChar? (a :: x) with
        | none =>
          rw [decodeStrict, decodeStrictFrom, hdec] at h
          cases h
        | some c =>
          have hx := eq_append_of_decodeChar?_eq_some hdec
          rw [hx, decodeStrict_encodeChar_append] at h
          obtain ⟨t, ht, rfl⟩ := Option.map_eq_some_iff.1 h
          have hpos := c.utf8Size_pos
          have hlen : ((a :: x).drop c.utf8Size).length < n := by
            rw [List.length_drop, List.length_cons]
            rw [List.length_cons] at hn
            omega
          rw [encode_cons, ih _ hlen ht rfl]
          exact hx.symm
  · rintro rfl
    induction s with
    | nil => rfl
    | cons c s ih =>
      rw [encode_cons, decodeStrict_encodeChar_append, ih]
      rfl

theorem decodeStrict_encode (s : List Char) : decodeStrict (encode s) = some s :=
  decodeStrict_eq_some_iff.2 rfl

/-! ### Texts in one another -/

/-- Characters below 128 are encoded as they are. -/
theorem encodeChar_of_lt (h : c.toNat < 128) : String.utf8EncodeChar c = [UInt8.ofNat c.toNat] := by
  rw [String.utf8EncodeChar]
  exact if_pos (Nat.le_of_lt_succ h)

/-- An ASCII text is encoded as it is. -/
theorem encode_ascii (text : String) (h : (text.toList.all fun c ↦ c.toNat < 128) = true) :
    encode text.toList = Bytes.ofAscii text := by
  rw [Bytes.ofAscii]
  generalize text.toList = cs at h
  induction cs with
  | nil => rfl
  | cons c cs ih =>
    rw [List.all_cons, Bool.and_eq_true] at h
    rw [encode_cons, encodeChar_of_lt (of_decide_eq_true h.1), ih h.2, List.map_cons,
      List.singleton_append]

/-- No byte of an encoding has all bits set. -/
theorem notMem_encode (s : List Char) : (255 : UInt8) ∉ encode s := by
  have hbyte : ∀ n, n < 255 → UInt8.ofNat n ≠ 255 := by
    intro n hn heq
    have hnat := congrArg UInt8.toNat heq
    rw [UInt8.toNat_ofNat', Nat.mod_eq_of_lt (by omega)] at hnat
    exact absurd hnat (Nat.ne_of_lt hn)
  have hchar : ∀ c, ∀ b ∈ String.utf8EncodeChar c, b ≠ 255 := by
    intro c
    rw [String.utf8EncodeChar]
    split_ifs <;> simp only [List.forall_mem_cons, List.not_mem_nil, false_imp_iff, implies_true,
      and_true]
    · exact hbyte _ (by omega)
    · exact ⟨hbyte _ (by omega), hbyte _ (by omega)⟩
    · exact ⟨hbyte _ (by omega), hbyte _ (by omega), hbyte _ (by omega)⟩
    · exact ⟨hbyte _ (by omega), hbyte _ (by omega), hbyte _ (by omega), hbyte _ (by omega)⟩
  intro hmem
  obtain ⟨c, -, hc⟩ := List.mem_flatMap.1 hmem
  exact hchar c 255 hc rfl

theorem length_encode_of_lt (h : ∀ c ∈ s, c.toNat < 128) : (encode s).length = s.length := by
  induction s with
  | nil => rfl
  | cons c s ih =>
    obtain ⟨hc, hs⟩ := List.forall_mem_cons.1 h
    rw [encode_cons, encodeChar_of_lt hc, List.length_append, ih hs, List.length_cons]
    exact Nat.add_comm ..

/-- What follows an encoded text at the front is encoded, too. -/
theorem exists_of_encode_eq_append (h : encode s = encode t ++ y) :
    ∃ u, s = t ++ u ∧ encode u = y := by
  induction t generalizing s with
  | nil => exact ⟨s, rfl, h⟩
  | cons d t ih =>
    rw [encode_cons, List.append_assoc] at h
    have hdec := decodeStrict_encode s
    rw [h, decodeStrict_encodeChar_append] at hdec
    obtain ⟨s', hs', rfl⟩ := Option.map_eq_some_iff.1 hdec
    obtain ⟨u, rfl, hu⟩ := ih (decodeStrict_eq_some_iff.1 hs')
    exact ⟨u, rfl, hu⟩

/-- **A byte below 128** separates encoded texts. -/
theorem exists_of_encode_eq_append_cons (ha : a < 128) (h : encode s = x ++ a :: y) :
    ∃ t c u, s = t ++ c :: u ∧ encode t = x ∧ String.utf8EncodeChar c = [a] ∧ encode u = y := by
  induction s generalizing x with
  | nil => exact absurd h.symm (by simp)
  | cons d s ih =>
    rw [encode_cons] at h
    rcases List.append_eq_append_iff.1 h with ⟨m, rfl, hm⟩ | ⟨m, hd, hm⟩
    · obtain ⟨t, c, u, rfl, ht, hc, hu⟩ := ih hm
      exact ⟨d :: t, c, u, rfl, by rw [encode_cons, ht], hc, hu⟩
    · cases m with
      | nil =>
        obtain ⟨t, c, u, rfl, ht, hc, hu⟩ := ih (x := []) hm.symm
        refine ⟨d :: t, c, u, rfl, ?_, hc, hu⟩
        rw [encode_cons, ht, hd, List.append_nil, List.append_nil]
      | cons b m =>
        obtain ⟨rfl, hm⟩ := List.cons.inj hm
        -- the byte is in the encoding of `d`, so it is all of it
        have hmem : a ∈ String.utf8EncodeChar d := by
          rw [hd]
          exact List.mem_append_right x (List.mem_cons_self ..)
        have hone := (mem_encodeChar_lt_iff hmem).1 ha
        obtain ⟨rfl, hrest⟩ := List.append_eq_singleton_iff.1 (hd.symm.trans hone) |>.resolve_right
          fun h ↦ List.cons_ne_nil _ _ h.2
        obtain rfl := (List.cons.inj hrest).2
        exact ⟨[], d, s, rfl, rfl, hone, (List.cons.inj hm).2.symm⟩

/-- A text whose first character is below 128 separates encoded texts. -/
theorem exists_of_encode_eq {p : List Char} (hp : ∃ c t, p = c :: t ∧ c.toNat < 128)
    (h : encode s = x ++ (encode p ++ y)) :
    ∃ s₁ s₂, s = s₁ ++ (p ++ s₂) ∧ encode s₁ = x ∧ encode s₂ = y := by
  obtain ⟨c, t, rfl, hc⟩ := hp
  have hchar := encodeChar_of_lt hc
  have ha : UInt8.ofNat c.toNat < 128 := by
    rw [UInt8.lt_iff_toNat_lt, UInt8.toNat_ofNat']
    exact lt_of_le_of_lt (Nat.mod_le _ _) hc
  rw [encode_cons, hchar, List.append_assoc, List.singleton_append] at h
  obtain ⟨s₁, d, u, rfl, hs₁, hd, hu⟩ := exists_of_encode_eq_append_cons ha h
  obtain ⟨s₂, rfl, hs₂⟩ := exists_of_encode_eq_append hu
  have hdc : d = c := by
    have hdec := decodeChar?_encodeChar_append d []
    rw [hd, ← hchar, decodeChar?_encodeChar_append] at hdec
    exact (Option.some.inj hdec).symm
  exact ⟨s₁, s₂, by rw [hdc]; rfl, hs₁, hs₂⟩

/-! ### Decoding with replacement -/

/-- A byte that is not the first one of a sequence. -/
def isContinuation (b : UInt8) : Bool := 0x80 ≤ b.toNat && b.toNat ≤ 0xBF

/-- A byte that can come second in a sequence of three or four bytes. -/
def isSecond (a b : UInt8) : Bool :=
  if a.toNat < 0xE0 || 0xF4 < a.toNat then false
  else if a = 0xE0 then 0xA0 ≤ b.toNat && b.toNat ≤ 0xBF
  else if a = 0xED then 0x80 ≤ b.toNat && b.toNat ≤ 0x9F
  else if a = 0xF0 then 0x90 ≤ b.toNat && b.toNat ≤ 0xBF
  else if a = 0xF4 then 0x80 ≤ b.toNat && b.toNat ≤ 0x8F
  else isContinuation b

/-- How many bytes one replacement stands for: those in front that a sequence can begin with. -/
def malformedLength : Bytes → ℕ
  | a :: b :: rest =>
    if isSecond a b then
      match rest with
      | c :: _ => if 0xF0 ≤ a.toNat && isContinuation c then 3 else 2
      | [] => 2
    else 1
  | _ => 1

/-- `decodeReplace` after the next `n` bytes. -/
def decodeReplaceFrom : ℕ → Bytes → List Char
  | _, [] => []
  | skip + 1, _ :: bs => decodeReplaceFrom skip bs
  | 0, b :: bs =>
    match decodeChar? (b :: bs) with
    | some c => c :: decodeReplaceFrom (c.utf8Size - 1) bs
    | none => Char.ofNat 0xFFFD :: decodeReplaceFrom (malformedLength (b :: bs) - 1) bs

/-- `b.decode("utf-8", "replace")`. -/
def decodeReplace (b : Bytes) : List Char := decodeReplaceFrom 0 b

/-- Where nothing is malformed, nothing is replaced. -/
theorem decodeReplaceFrom_of_decodeStrictFrom {n : ℕ} (h : decodeStrictFrom n x = some s) :
    decodeReplaceFrom n x = s := by
  induction x generalizing n s with
  | nil =>
    have hs : ([] : List Char) = s := by cases n <;> exact Option.some.inj h
    cases n <;> exact hs
  | cons b x ih =>
    cases n with
    | succ n => exact ih h
    | zero =>
      rw [decodeStrictFrom] at h
      rw [decodeReplaceFrom]
      cases hc : decodeChar? (b :: x) with
      | none =>
        rw [hc] at h
        cases h
      | some c =>
        rw [hc] at h
        obtain ⟨t, ht, rfl⟩ := Option.map_eq_some_iff.1 h
        exact congrArg (c :: ·) (ih ht)

theorem decodeReplace_encode (s : List Char) : decodeReplace (encode s) = s :=
  decodeReplaceFrom_of_decodeStrictFrom (decodeStrict_encode s)

end Utf8
