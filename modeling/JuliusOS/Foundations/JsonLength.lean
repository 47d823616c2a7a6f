import JuliusOS.Foundations.Json

/-!
# How long a JSON text has to be

`Value.weight` is the length of the shortest text of a value: one character for a code point that
may stand for itself in a string, and two for one that has to be escaped. The reader's state has a
weight as well, of what has been read so far, and a character adds at most one to it.

* `weight_le_of_parse`: no text of a value is shorter than its weight.
-/

namespace Json

/-! ### The weight of a value -/

/-- What a code point takes in a string at least. -/
def codeWeight (n : ℕ) : ℕ := if n = 34 ∨ n = 92 ∨ n < 32 then 2 else 1

/-- What some code points take. -/
def codesWeight : List ℕ → ℕ
  | [] => 0
  | n :: s => codeWeight n + codesWeight s

mutual

/-- What a value takes. -/
def Value.weight : Value → ℕ
  | .null => 4
  | .bool b => if b then 4 else 5
  | .number spelling => spelling.length
  | .string s => codesWeight s + 2
  | .array items => itemsWeight items + max items.length 1 + 1
  | .object fields => fieldsWeight fields + max fields.length 1 + 1

/-- What some values take, without the commas. -/
def itemsWeight : List Value → ℕ
  | [] => 0
  | v :: items => v.weight + itemsWeight items

/-- What some fields take, without the commas. -/
def fieldsWeight : List (List ℕ × Value) → ℕ
  | [] => 0
  | (key, v) :: fields => codesWeight key + 3 + v.weight + fieldsWeight fields

end

theorem itemsWeight_append (a b : List Value) :
    itemsWeight (a ++ b) = itemsWeight a + itemsWeight b := by
  induction a with
  | nil => rw [List.nil_append, itemsWeight, Nat.zero_add]
  | cons v a ih => rw [List.cons_append, itemsWeight, itemsWeight, ih, Nat.add_assoc]

theorem itemsWeight_reverse (items : List Value) :
    itemsWeight items.reverse = itemsWeight items := by
  induction items with
  | nil => rfl
  | cons v items ih =>
    rw [List.reverse_cons, itemsWeight_append, ih, itemsWeight, itemsWeight, itemsWeight]
    omega

theorem codesWeight_append (s t : List ℕ) :
    codesWeight (s ++ t) = codesWeight s + codesWeight t := by
  induction s with
  | nil => rw [List.nil_append, codesWeight, Nat.zero_add]
  | cons n s ih => rw [List.cons_append, codesWeight, codesWeight, ih, Nat.add_assoc]

theorem codesWeight_reverse (s : List ℕ) : codesWeight s.reverse = codesWeight s := by
  induction s with
  | nil => rfl
  | cons n s ih =>
    rw [List.reverse_cons, codesWeight_append, ih, codesWeight, codesWeight, codesWeight]
    omega

theorem codeWeight_pos (n : ℕ) : 1 ≤ codeWeight n ∧ codeWeight n ≤ 2 := by
  rw [codeWeight]
  split <;> omega

/-! ### The weight of what has been read -/

/-- Arrays and objects, up to a value in the innermost. -/
def outerWeight : List Frame → ℕ
  | [] => 0
  | .array items :: fs => itemsWeight items + items.length + 1 + outerWeight fs
  | .object fields key :: fs =>
    fieldsWeight fields + fields.length + 1 + (codesWeight key + 3) + outerWeight fs

/-- Arrays and objects, up to a key in the innermost. -/
def keyWeight : List Frame → ℕ
  | .object fields _ :: fs => fieldsWeight fields + fields.length + 1 + outerWeight fs
  | fs => outerWeight fs

/-- Arrays and objects, up to a comma or the end of the innermost. -/
def afterWeight : List Frame → ℕ
  | [] => 0
  | .array items :: fs => itemsWeight items + max items.length 1 + outerWeight fs
  | .object fields _ :: fs => fieldsWeight fields + max fields.length 1 + outerWeight fs

/-- What has been read. -/
def Reader.weight (r : Reader) : ℕ :=
  match r.mode with
  | .value | .firstItem => outerWeight r.frames
  | .firstKey | .key => keyWeight r.frames
  | .colon => outerWeight r.frames - 1
  | .after => afterWeight r.frames
  | .string isKey rev esc =>
    (if isKey then keyWeight r.frames else outerWeight r.frames) + 1 + codesWeight rev +
      (if esc = .none then 0 else 1)
  | .number _ rev => outerWeight r.frames + max rev.length 1
  | .word _ i => outerWeight r.frames + i
  | .done v => v.weight

variable {r r' : Reader} {c : Char} {fs : List Frame} {isKey : Bool} {rev : List ℕ} {s : List Char}

theorem weight_complete (v : Value) (fs : List Frame) :
    (complete v fs).weight = outerWeight fs + v.weight := by
  rcases fs with - | ⟨⟨items⟩ | ⟨fields, key⟩, fs⟩
  · exact (Nat.zero_add _).symm
  · simp only [complete, Reader.weight, afterWeight, outerWeight, itemsWeight, List.length_cons]
    omega
  · simp only [complete, Reader.weight, afterWeight, outerWeight, fieldsWeight, List.length_cons]
    omega

theorem weight_close_le (h : close c fs = some r') :
    r'.weight ≤ afterWeight fs + 1 := by
  rcases fs with - | ⟨⟨items⟩ | ⟨fields, key⟩, fs⟩
  · cases h
  · rw [close] at h
    split at h
    · obtain rfl := Option.some.inj h
      rw [weight_complete, Value.weight, itemsWeight_reverse, List.length_reverse, afterWeight]
      omega
    · cases h
  · rw [close] at h
    split at h
    · obtain rfl := Option.some.inj h
      rw [weight_complete, Value.weight, afterWeight]
      omega
    · cases h

/-- What is closed at once has nothing in it. -/
theorem afterWeight_le (fs : List Frame) :
    afterWeight fs ≤ keyWeight fs ∧ afterWeight fs ≤ outerWeight fs := by
  rcases fs with - | ⟨⟨items⟩ | ⟨fields, key⟩, fs⟩
  · exact ⟨le_rfl, le_rfl⟩
  · simp only [afterWeight, keyWeight, outerWeight]
    omega
  · simp only [afterWeight, keyWeight, outerWeight]
    omega

theorem weight_comma_le (h : comma fs = some r') : r'.weight ≤ afterWeight fs + 1 := by
  rcases fs with - | ⟨⟨items⟩ | ⟨fields, key⟩, fs⟩
  · cases h
  · obtain rfl := Option.some.inj h
    simp only [Reader.weight, outerWeight, afterWeight]
    omega
  · obtain rfl := Option.some.inj h
    simp only [Reader.weight, keyWeight, afterWeight]
    omega

theorem weight_beginValue_le (h : beginValue c fs = some r') :
    r'.weight ≤ outerWeight fs + 1 := by
  rw [beginValue] at h
  split_ifs at h
  · obtain rfl := Option.some.inj h
    exact le_rfl
  · obtain rfl := Option.some.inj h
    simp [Reader.weight, outerWeight, itemsWeight]
    omega
  · obtain rfl := Option.some.inj h
    simp [Reader.weight, keyWeight, fieldsWeight]
    omega
  · split at h
    · obtain rfl := Option.some.inj h
      exact le_rfl
    · obtain ⟨st, -, rfl⟩ := Option.map_eq_some_iff.1 h
      exact le_rfl

theorem weight_stepOutside_le (h : stepOutside c r = some r') : r'.weight ≤ r.weight + 1 := by
  obtain ⟨fs, mode⟩ := r
  obtain ⟨hkey, houter⟩ := afterWeight_le fs
  rw [stepOutside] at h
  split at h
  · obtain rfl := Option.some.inj h
    exact Nat.le_succ _
  · cases mode with
    | value => exact weight_beginValue_le h
    | firstItem =>
      simp only at h
      split at h
      · exact (weight_close_le h).trans (Nat.succ_le_succ houter)
      · exact weight_beginValue_le h
    | firstKey =>
      simp only at h
      split at h
      · obtain rfl := Option.some.inj h
        exact le_rfl
      · exact (weight_close_le h).trans (Nat.succ_le_succ hkey)
    | key =>
      simp only at h
      split at h
      · obtain rfl := Option.some.inj h
        exact le_rfl
      · cases h
    | colon =>
      simp only at h
      split at h
      · obtain rfl := Option.some.inj h
        exact Nat.le_add_of_sub_le le_rfl
      · cases h
    | after =>
      simp only at h
      split at h
      · exact weight_comma_le h
      · exact weight_close_le h
    | _ => cases h

theorem weight_closeString_le (h : closeString isKey rev.reverse fs = some r') :
    r'.weight ≤ Reader.weight ⟨fs, .string isKey rev .none⟩ + 1 := by
  cases isKey with
  | true =>
    rcases fs with - | ⟨⟨items⟩ | ⟨fields, key⟩, fs⟩
    · cases h
    · cases h
    · obtain rfl := Option.some.inj h
      simp only [Reader.weight, outerWeight, keyWeight, codesWeight_reverse, if_true]
      omega
  | false =>
    obtain rfl := Option.some.inj h
    rw [weight_complete, Value.weight, codesWeight_reverse]
    simp only [Reader.weight, Bool.false_eq_true, if_false, if_true]
    omega

/-- A pair of halves takes no more than the halves. -/
theorem codesWeight_addUnit_le (unit : ℕ) (rev : List ℕ) :
    codesWeight (addUnit unit rev) ≤ codesWeight rev + 2 := by
  have hunit := (codeWeight_pos unit).2
  cases rev with
  | nil => exact Nat.le_add_left_of_le hunit
  | cons high rev =>
    rw [addUnit]
    split
    next h =>
      have hpair := (codeWeight_pos (0x10000 + (high - 0xD800) * 0x400 + (unit - 0xDC00))).2
      rw [codesWeight, codesWeight]
      omega
    next =>
      rw [codesWeight, codesWeight]
      omega

theorem weight_stepString_le {esc : Esc} (h : stepString c isKey rev fs esc = some r') :
    r'.weight ≤ Reader.weight ⟨fs, .string isKey rev esc⟩ + 1 := by
  cases esc with
  | none =>
    rw [stepString] at h
    split_ifs at h with hquote hback hcontrol
    · exact weight_closeString_le h
    · obtain rfl := Option.some.inj h
      exact le_rfl
    · obtain rfl := Option.some.inj h
      have hcode : codeWeight c.toNat = 1 := by
        have hquote' : c.toNat ≠ 34 := fun heq ↦ hquote (Char.toNat_inj.1 heq)
        have hback' : c.toNat ≠ 92 := fun heq ↦ hback (Char.toNat_inj.1 heq)
        rw [codeWeight, if_neg (by omega)]
      simp only [Reader.weight, codesWeight, hcode]
      omega
  | backslash =>
    rw [stepString] at h
    split at h
    · obtain rfl := Option.some.inj h
      exact Nat.le_succ _
    · obtain ⟨n, -, rfl⟩ := Option.map_eq_some_iff.1 h
      have hcode := (codeWeight_pos n).2
      simp only [Reader.weight, codesWeight, reduceCtorEq, if_false, if_true]
      omega
  | hex left unit =>
    obtain ⟨d, -, rfl⟩ := Option.map_eq_some_iff.1 h
    have hunit := codesWeight_addUnit_le (16 * unit + d) rev
    split
    · simp only [Reader.weight, reduceCtorEq, if_false, if_true]
      omega
    · exact Nat.le_succ _

theorem weight_stepWord_le {w : Word} {i : ℕ} (h : stepWord c w i fs = some r') :
    r'.weight ≤ outerWeight fs + i + 1 := by
  rw [stepWord] at h
  split_ifs at h with hletter hlast
  · obtain rfl := Option.some.inj h
    have hvalue : w.value.weight = w.letters.length := by
      cases w <;> rfl
    rw [weight_complete, hvalue]
    omega
  · obtain rfl := Option.some.inj h
    exact le_rfl

theorem weight_stepNumber_le {st : NumState} {spelling : List Char}
    (h : stepNumber c st spelling fs = some r') :
    r'.weight ≤ outerWeight fs + max spelling.length 1 + 1 := by
  rw [stepNumber] at h
  split at h
  · obtain rfl := Option.some.inj h
    simp only [Reader.weight, List.length_cons]
    omega
  · split_ifs at h
    · obtain rfl := Option.some.inj h
      simp only [Reader.weight]
      omega
    · have houtside := weight_stepOutside_le h
      rw [weight_complete, Value.weight, List.length_reverse] at houtside
      omega

/-- **A character** adds at most one. -/
theorem weight_step_le (h : r.step c = some r') : r'.weight ≤ r.weight + 1 := by
  obtain ⟨fs, mode⟩ := r
  cases mode with
  | string isKey rev esc => exact weight_stepString_le h
  | number st spelling => exact weight_stepNumber_le h
  | word w i => exact weight_stepWord_le h
  | _ => exact weight_stepOutside_le h

theorem weight_run_le (h : reader.run r s = some r') : r'.weight ≤ r.weight + s.length := by
  induction s generalizing r with
  | nil => exact (congrArg _ (Option.some.inj h).symm).le
  | cons c s ih =>
    obtain ⟨r₁, h₁, h⟩ := (reader.run_cons_eq_some).1 h
    have hstep := weight_step_le h₁
    have hrun := ih h
    rw [List.length_cons]
    omega

theorem weight_finish_le {v : Value} (h : r.finish = some v) : v.weight ≤ r.weight := by
  obtain ⟨fs, mode⟩ := r
  cases mode with
  | done w =>
    obtain rfl := Option.some.inj h
    exact le_rfl
  | number st spelling =>
    have hnumber : (if fs.isEmpty && st.accepts then some (Value.number spelling.reverse)
        else none) = some v := h
    split at hnumber
    · obtain rfl := Option.some.inj hnumber
      simp only [Value.weight, List.length_reverse, Reader.weight]
      omega
    · cases hnumber
  | _ => cases h

/-- **No text of a value is shorter than its weight.** -/
theorem weight_le_of_parse {v : Value} (h : parse s = some v) : v.weight ≤ s.length := by
  obtain ⟨r, hrun, hfinish⟩ := Option.bind_eq_some_iff.1 h
  calc v.weight ≤ r.weight := weight_finish_le hfinish
    _ ≤ Reader.start.weight + s.length := weight_run_le hrun
    _ = s.length := Nat.zero_add _

/-- A plain character takes one, and any other two. -/
theorem codeWeight_cases (c : Char) :
    codeWeight c.toNat = 1 ∧ Plain c ∨ codeWeight c.toNat = 2 ∧ ¬ Plain c := by
  have hplain : Plain c ↔ ¬ (c.toNat = 34 ∨ c.toNat = 92 ∨ c.toNat < 32) := by
    have hquote : c.toNat = 34 ↔ c = '"' := Char.toNat_inj (d := '"')
    have hback : c.toNat = 92 ↔ c = '\\' := Char.toNat_inj (d := '\\')
    rw [Plain, hquote, hback, not_or, not_or, Nat.not_lt]
  rw [hplain, codeWeight]
  split
  next h => exact Or.inr ⟨rfl, not_not.2 h⟩
  next h => exact Or.inl ⟨rfl, h⟩

/-- **A plain text** takes as many characters as it has, and any other text more. -/
theorem codesWeight_codes (s : List Char) :
    s.length ≤ codesWeight (codes s) ∧
      (codesWeight (codes s) = s.length ↔ ∀ c ∈ s, Plain c) := by
  induction s with
  | nil => exact ⟨le_rfl, iff_of_true rfl (List.forall_mem_nil _)⟩
  | cons c s ih =>
    obtain ⟨hle, hiff⟩ := ih
    have hcons : codesWeight (codes (c :: s)) = codeWeight c.toNat + codesWeight (codes s) := rfl
    rw [hcons, List.length_cons, List.forall_mem_cons, ← hiff]
    rcases codeWeight_cases c with ⟨hcode, hplain⟩ | ⟨hcode, hplain⟩
    · rw [hcode]
      exact ⟨by omega, ⟨fun h ↦ ⟨hplain, by omega⟩, fun h ↦ by omega⟩⟩
    · rw [hcode]
      exact ⟨by omega, ⟨fun h ↦ absurd h (by omega), fun h ↦ absurd h.1 hplain⟩⟩

end Json
