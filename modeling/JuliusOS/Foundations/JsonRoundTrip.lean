import JuliusOS.Foundations.Json
import JuliusOS.Foundations.JsonWriter

/-!
# JSON texts are read back

`json.dumps` of any value, as Python writes it by default, and what the strict reader makes of it.

* `parse_dumps`: **a value is read back**, if its numbers are spelled as numbers and no string has
  the halves of a surrogate pair as two code points, which would be read as one;
* `parse_eq_none_of_isPrefix`: of a text that ends with a bracket or a brace, **no part is read**,
  so that a text that was cut off is found out.

The reader cannot know that a number is complete before the next character; what it is in behind a
value is `After`.
-/

namespace Json

/-! ### Writing any value -/

mutual

/-- `json.dumps`. The fields of an object that come first in the text are the last ones. -/
def Value.dumps : Value → List Char
  | .null => Word.null.letters
  | .bool b => if b then Word.true.letters else Word.false.letters
  | .number spelling => spelling
  | .string s => quote s
  | .array items => '[' :: dumpsItems items ++ [']']
  | .object fields => '\x7b' :: dumpsEntries fields ++ ['\x7d']

/-- The items of an array. -/
def dumpsItems : List Value → List Char
  | [] => []
  | [v] => v.dumps
  | v :: w :: items => v.dumps ++ [',', ' '] ++ dumpsItems (w :: items)

/-- The fields of an object. -/
def dumpsEntries : List (List ℕ × Value) → List Char
  | [] => []
  | [(key, v)] => quote key ++ [':', ' '] ++ v.dumps
  | (key, v) :: e :: fields =>
    dumpsEntries (e :: fields) ++ [',', ' '] ++ (quote key ++ [':', ' '] ++ v.dumps)

end

/-! ### Strings -/

/-- The first half of a surrogate pair. -/
def High (c : ℕ) : Prop := 0xD800 ≤ c ∧ c < 0xDC00

/-- The second half. -/
def Low (c : ℕ) : Prop := 0xDC00 ≤ c ∧ c < 0xE000

/-- A string of code points without the halves of a pair next to each other. -/
structure CleanString (s : List ℕ) : Prop where
  /-- Code points. -/
  lt : ∀ c ∈ s, c < 0x110000
  /-- No pair. -/
  unpaired : s.IsChain fun a b ↦ ¬ (High a ∧ Low b)

/-- A Unicode scalar value. -/
def IsScalar (c : ℕ) : Prop := c < 0xD800 ∨ 0xE000 ≤ c ∧ c < 0x110000

instance : DecidablePred IsScalar :=
  fun c ↦ inferInstanceAs (Decidable (c < 0xD800 ∨ 0xE000 ≤ c ∧ c < 0x110000))

/-- A string of Unicode scalar values. -/
theorem cleanString_of_isScalar {s : List ℕ} (h : ∀ c ∈ s, IsScalar c) : CleanString s where
  lt c hc := by
    rcases h c hc with hlow | hhigh
    · omega
    · exact hhigh.2
  unpaired := by
    refine List.Pairwise.isChain (List.pairwise_of_forall_mem_list fun a ha b _ hpair ↦ ?_)
    have hhigh := hpair.1
    rw [High] at hhigh
    rcases h a ha with hlow | hup
    · omega
    · omega

variable {r r' : Reader} {c : Char} {fs : List Frame} {isKey : Bool} {rev : List ℕ}

/-- What is not the second half of a pair is added as it is. -/
theorem addUnit_of_not_low {n : ℕ} (h : ¬ Low n) (rev : List ℕ) : addUnit n rev = n :: rev := by
  cases rev with
  | nil => rfl
  | cons high rev =>
    rw [addUnit, if_neg]
    exact fun hpair ↦ h hpair.2.2

theorem hexDigit_digitChar (n : ℕ) : hexDigit (n % 16).digitChar = some (n % 16) := by
  have hall : ∀ m : Fin 16, hexDigit (Nat.digitChar m) = some m.val := by decide
  exact hall ⟨n % 16, Nat.mod_lt _ (by decide)⟩

/-- A hexadecimal digit of an escape, before the last. -/
theorem step_hexDigit {left : ℕ} (h : 1 < left) (fs : List Frame) (isKey : Bool) (rev : List ℕ)
    (unit n : ℕ) :
    reader.step ⟨fs, .string isKey rev (.hex left unit)⟩ (n % 16).digitChar =
      some ⟨fs, .string isKey rev (.hex (left - 1) (16 * unit + n % 16))⟩ := by
  show stepString (n % 16).digitChar isKey rev fs (.hex left unit) = _
  rw [stepString, hexDigit_digitChar, Option.map_some, if_neg (Nat.not_le.2 h)]

/-- The last one. -/
theorem step_lastHexDigit (fs : List Frame) (isKey : Bool) (rev : List ℕ) (unit n : ℕ) :
    reader.step ⟨fs, .string isKey rev (.hex 1 unit)⟩ (n % 16).digitChar =
      some ⟨fs, .string isKey (addUnit (16 * unit + n % 16) rev) .none⟩ := by
  show stepString (n % 16).digitChar isKey rev fs (.hex 1 unit) = _
  rw [stepString, hexDigit_digitChar, Option.map_some, if_pos (Nat.le_refl 1)]

/-- **A code point of four hexadecimal digits.** -/
theorem run_hexEscape {n : ℕ} (h : n < 0x10000) (fs : List Frame) (isKey : Bool) (rev : List ℕ) :
    reader.run ⟨fs, .string isKey rev .none⟩ (hexEscape n) =
      some ⟨fs, .string isKey (addUnit n rev) .none⟩ := by
  have hback : reader.step ⟨fs, .string isKey rev .none⟩ '\\' =
      some ⟨fs, .string isKey rev .backslash⟩ := rfl
  have hu : reader.step ⟨fs, .string isKey rev .backslash⟩ 'u' =
      some ⟨fs, .string isKey rev (.hex 4 0)⟩ := rfl
  have hunit : 16 * (16 * (16 * (16 * 0 + n / 4096 % 16) + n / 256 % 16) + n / 16 % 16) + n % 16 =
      n := by omega
  rw [hexEscape, Machine.run_cons, hback, Option.bind_some, Machine.run_cons, hu, Option.bind_some,
    Machine.run_cons, step_hexDigit (by decide), Option.bind_some, Machine.run_cons,
    step_hexDigit (by decide), Option.bind_some, Machine.run_cons, step_hexDigit (by decide),
    Option.bind_some, Machine.run_cons, step_lastHexDigit, hunit]
  rfl

/-- A code point with an escape of its own. -/
theorem run_shortEscape {c : Char} {n : ℕ} (hu : c ≠ 'u') (h : unescape c = some n)
    (fs : List Frame) (isKey : Bool) (rev : List ℕ) :
    reader.run ⟨fs, .string isKey rev .none⟩ ['\\', c] =
      some ⟨fs, .string isKey (n :: rev) .none⟩ := by
  have hback : reader.step ⟨fs, .string isKey rev .none⟩ '\\' =
      some ⟨fs, .string isKey rev .backslash⟩ := rfl
  have hstep : reader.step ⟨fs, .string isKey rev .backslash⟩ c =
      some ⟨fs, .string isKey (n :: rev) .none⟩ := by
    show stepString c isKey rev fs .backslash = _
    rw [stepString, if_neg hu, h, Option.map_some]
  rw [Machine.run_cons, hback, Option.bind_some, Machine.run_cons, hstep]
  rfl

/-- **A code point** is read as it was written, but for the second half of a pair behind the
first. -/
theorem run_escape {n : ℕ} (h : n < 0x110000) (fs : List Frame) (isKey : Bool) (rev : List ℕ) :
    reader.run ⟨fs, .string isKey rev .none⟩ (escape n) =
      some ⟨fs, .string isKey (addUnit n rev) .none⟩ := by
  rw [escape]
  split_ifs with hquote hback hn hr ht hf hb hprint hsmall
  · rw [hquote, addUnit_of_not_low (by rw [Low]; omega)]
    exact run_shortEscape (by decide) rfl fs isKey rev
  · rw [hback, addUnit_of_not_low (by rw [Low]; omega)]
    exact run_shortEscape (by decide) rfl fs isKey rev
  · rw [hn, addUnit_of_not_low (by rw [Low]; omega)]
    exact run_shortEscape (by decide) rfl fs isKey rev
  · rw [hr, addUnit_of_not_low (by rw [Low]; omega)]
    exact run_shortEscape (by decide) rfl fs isKey rev
  · rw [ht, addUnit_of_not_low (by rw [Low]; omega)]
    exact run_shortEscape (by decide) rfl fs isKey rev
  · rw [hf, addUnit_of_not_low (by rw [Low]; omega)]
    exact run_shortEscape (by decide) rfl fs isKey rev
  · rw [hb, addUnit_of_not_low (by rw [Low]; omega)]
    exact run_shortEscape (by decide) rfl fs isKey rev
  · have hvalid : n.isValidChar := Or.inl (by omega)
    have hnat : (Char.ofNat n).toNat = n := by
      rw [Char.ofNat, dif_pos hvalid]
      rfl
    have hplain : Plain (Char.ofNat n) := by
      refine ⟨fun heq ↦ hquote ?_, fun heq ↦ hback ?_, by omega⟩
      · rw [← hnat, heq]
        rfl
      · rw [← hnat, heq]
        rfl
    have hstep : reader.step ⟨fs, .string isKey rev .none⟩ (Char.ofNat n) = _ :=
      step_plain hplain fs isKey rev
    rw [Machine.run_cons, hstep, hnat, addUnit_of_not_low (by rw [Low]; omega)]
    rfl
  · exact run_hexEscape hsmall fs isKey rev
  -- the two halves of a pair are joined
  · set high := 0xD800 + (n - 0x10000) / 0x400 with hhigh
    set low := 0xDC00 + (n - 0x10000) % 0x400 with hlow
    have hjoin : 0x10000 + (high - 0xD800) * 0x400 + (low - 0xDC00) = n := by omega
    have hfirst : addUnit high rev = high :: rev := addUnit_of_not_low (by rw [Low]; omega) rev
    have hboth : addUnit low (high :: rev) = n :: rev := by
      rw [addUnit, if_pos (by omega), hjoin]
    rw [Machine.run_append, run_hexEscape (by omega), Option.bind_some, run_hexEscape (by omega),
      hfirst, hboth, addUnit_of_not_low (by rw [Low]; omega)]

/-- The code points of a string, one after the other. -/
theorem run_flatMap_escape {s : List ℕ} (h : ∀ c ∈ s, c < 0x110000) (fs : List Frame)
    (isKey : Bool) (rev : List ℕ) :
    reader.run ⟨fs, .string isKey rev .none⟩ (s.flatMap escape) =
      some ⟨fs, .string isKey (s.foldl (fun rev c ↦ addUnit c rev) rev) .none⟩ := by
  induction s generalizing rev with
  | nil => rfl
  | cons c s ih =>
    rw [List.forall_mem_cons] at h
    rw [List.flatMap_cons, Machine.run_append, run_escape h.1, Option.bind_some, ih h.2,
      List.foldl_cons]

theorem foldl_addUnit_cons {s : List ℕ} {a : ℕ}
    (h : (a :: s).IsChain fun a b ↦ ¬ (High a ∧ Low b)) (rev : List ℕ) :
    s.foldl (fun rev c ↦ addUnit c rev) (a :: rev) = s.reverse ++ a :: rev := by
  induction s generalizing a rev with
  | nil => rfl
  | cons c s ih =>
    rw [List.isChain_cons_cons] at h
    have hadd : addUnit c (a :: rev) = c :: a :: rev := by
      rw [addUnit, if_neg]
      exact fun hpair ↦ h.1 ⟨⟨hpair.1, hpair.2.1⟩, hpair.2.2⟩
    rw [List.foldl_cons, hadd, ih h.2, List.reverse_cons, List.append_assoc,
      List.singleton_append]

/-- **The code points of a clean string** are read as they were written. -/
theorem CleanString.run {s : List ℕ} (h : CleanString s) (fs : List Frame) (isKey : Bool) :
    reader.run ⟨fs, .string isKey [] .none⟩ (s.flatMap escape) =
      some ⟨fs, .string isKey s.reverse .none⟩ := by
  rw [run_flatMap_escape h.lt]
  cases s with
  | nil => rfl
  | cons c s =>
    rw [List.foldl_cons, show addUnit c [] = [c] from rfl, foldl_addUnit_cons h.unpaired,
      List.reverse_cons]

/-- A string as a value. -/
theorem CleanString.run_value {s : List ℕ} (h : CleanString s) (fs : List Frame) :
    reader.run ⟨fs, .value⟩ (quote s) = some (complete (.string s) fs) := by
  have hopen : reader.step ⟨fs, .value⟩ '"' = some ⟨fs, .string false [] .none⟩ := rfl
  have hclose : reader.step ⟨fs, .string false s.reverse .none⟩ '"' =
      some (complete (.string s) fs) := by
    show some (complete (.string s.reverse.reverse) fs) = _
    rw [List.reverse_reverse]
  rw [quote, List.cons_append, Machine.run_cons, hopen, Option.bind_some, Machine.run_append,
    h.run, Option.bind_some, Machine.run_cons, hclose]
  rfl

/-- A string as a key, and the colon behind it. -/
theorem CleanString.run_key {s : List ℕ} (h : CleanString s) {mode : Mode}
    (hmode : mode = .firstKey ∨ mode = .key) (fields : List (List ℕ × Value)) (key : List ℕ)
    (fs : List Frame) :
    reader.run ⟨.object fields key :: fs, mode⟩ (quote s ++ [':', ' ']) =
      some ⟨.object fields s :: fs, .value⟩ := by
  have hopen : reader.step ⟨.object fields key :: fs, mode⟩ '"' =
      some ⟨.object fields key :: fs, .string true [] .none⟩ := by
    rcases hmode with rfl | rfl <;> rfl
  have hclose : reader.step ⟨.object fields key :: fs, .string true s.reverse .none⟩ '"' =
      some ⟨.object fields s :: fs, .colon⟩ := by
    show some (Reader.mk (.object fields s.reverse.reverse :: fs) .colon) = _
    rw [List.reverse_reverse]
  rw [quote, List.cons_append, List.cons_append, Machine.run_cons, hopen, Option.bind_some,
    Machine.run_append, Machine.run_append, h.run, Option.bind_some, Machine.run_cons, hclose]
  rfl

/-! ### Numbers -/

/-- The state after some more characters. -/
def NumState.run : NumState → List Char → Option NumState
  | st, [] => some st
  | st, c :: cs => (st.step c).bind fun st' ↦ run st' cs

/-- The text is a number. -/
def isNumeral : List Char → Bool
  | [] => false
  | c :: cs => ((NumState.begin? c).bind fun st ↦ st.run cs).elim false NumState.accepts

/-- What the reader may be in behind a value. -/
inductive After (fs : List Frame) : Value → Reader → Prop
  /-- It knows that the value is complete. -/
  | complete (v : Value) : After fs v (complete v fs)
  /-- It does not know that a number is. -/
  | number {st : NumState} (rev : List Char) (h : st.accepts = true) :
    After fs (.number rev.reverse) ⟨fs, .number st rev⟩

variable {v : Value}

/-- A comma or a closing bracket or brace ends a value. -/
theorem After.step (h : After fs v r) {c : Char} (hc : c = ',' ∨ c = ']' ∨ c = '\x7d') :
    reader.step r c = stepOutside c (Json.complete v fs) := by
  cases h with
  | complete => exact step_of_closed (closed_complete v fs)
  | number rev h =>
    rename_i st
    have hnone : st.step c = none := by rcases hc with rfl | rfl | rfl <;> cases st <;> rfl
    have hletter : ¬ (st = .minus ∧ c = 'I') := by rcases hc with rfl | rfl | rfl <;> simp
    show stepNumber c st rev fs = _
    rw [stepNumber, hnone]
    dsimp only
    rw [if_neg hletter, if_pos h]

/-- And so does the end of the text. -/
theorem After.finish (h : After [] v r) : r.finish = some v := by
  cases h with
  | complete => rfl
  | number rev h =>
    rw [Reader.finish]
    simp [h]

/-- The first character of a number. -/
theorem ne_of_begin? {st : NumState} (h : NumState.begin? c = some st) {d : Char}
    (hd : d ≠ '-' ∧ d.isDigit = false) : c ≠ d := by
  rintro rfl
  rw [NumState.begin?] at h
  split_ifs at h with hminus hzero hdigit
  · exact hd.1 hminus
  · rw [hzero] at hd
    cases hd.2
  · rw [hd.2] at hdigit
    cases hdigit

theorem isSpace_of_begin? {st : NumState} (h : NumState.begin? c = some st) :
    isSpace c = false := by
  simp [isSpace, ne_of_begin? h (d := ' ') (by decide), ne_of_begin? h (d := '\t') (by decide),
    ne_of_begin? h (d := '\n') (by decide), ne_of_begin? h (d := '\r') (by decide)]

/-- It begins nothing else. -/
theorem step_begin? {st : NumState} (h : NumState.begin? c = some st) (fs : List Frame) :
    reader.step ⟨fs, .value⟩ c = some ⟨fs, .number st [c]⟩ := by
  have hword : Word.begin? c = none := by
    rw [Word.begin?, if_neg (ne_of_begin? h (by decide)), if_neg (ne_of_begin? h (by decide)),
      if_neg (ne_of_begin? h (by decide)), if_neg (ne_of_begin? h (by decide)),
      if_neg (ne_of_begin? h (by decide))]
  show stepOutside c ⟨fs, .value⟩ = _
  rw [stepOutside, isSpace_of_begin? h, if_neg Bool.false_ne_true]
  show beginValue c fs = _
  rw [beginValue, if_neg (ne_of_begin? h (by decide)), if_neg (ne_of_begin? h (by decide)),
    if_neg (ne_of_begin? h (by decide)), hword, h]
  rfl

/-- The characters of a number. -/
theorem run_number {st st' : NumState} {cs : List Char} (h : st.run cs = some st')
    (fs : List Frame) (rev : List Char) :
    reader.run ⟨fs, .number st rev⟩ cs = some ⟨fs, .number st' (cs.reverse ++ rev)⟩ := by
  induction cs generalizing st rev with
  | nil =>
    obtain rfl := Option.some.inj h
    rfl
  | cons c cs ih =>
    obtain ⟨next, hstep, hrest⟩ := Option.bind_eq_some_iff.1 h
    have hread : reader.step ⟨fs, .number st rev⟩ c = some ⟨fs, .number next (c :: rev)⟩ := by
      show stepNumber c st rev fs = _
      rw [stepNumber, hstep]
    rw [Machine.run_cons, hread, Option.bind_some, ih hrest, List.reverse_cons, List.append_assoc,
      List.singleton_append]

/-- A number begins as one, and ends where one may. -/
theorem exists_of_isNumeral {spelling : List Char} (h : isNumeral spelling = true) :
    ∃ c cs st st', spelling = c :: cs ∧ NumState.begin? c = some st ∧ st.run cs = some st' ∧
      st'.accepts = true := by
  cases spelling with
  | nil => cases h
  | cons c cs =>
    rw [isNumeral] at h
    cases hrun : (NumState.begin? c).bind fun st ↦ st.run cs with
    | none =>
      rw [hrun] at h
      cases h
    | some st' =>
      rw [hrun, Option.elim_some] at h
      obtain ⟨st, hbegin, hrest⟩ := Option.bind_eq_some_iff.1 hrun
      exact ⟨c, cs, st, st', rfl, hbegin, hrest, h⟩

/-- **A number** is read as it was spelled. -/
theorem run_numeral {spelling : List Char} (h : isNumeral spelling = true) (fs : List Frame) :
    ∃ r, reader.run ⟨fs, .value⟩ spelling = some r ∧ After fs (.number spelling) r := by
  obtain ⟨c, cs, st, st', rfl, hbegin, hrest, haccepts⟩ := exists_of_isNumeral h
  refine ⟨⟨fs, .number st' (cs.reverse ++ [c])⟩, ?_, ?_⟩
  · rw [Machine.run_cons, step_begin? hbegin, Option.bind_some, run_number hrest]
  · have hafter : After fs _ ⟨fs, .number st' (cs.reverse ++ [c])⟩ :=
      After.number (cs.reverse ++ [c]) haccepts
    rwa [List.reverse_append, List.reverse_reverse] at hafter

/-- The digits of a positive number do not begin with a zero. -/
theorem exists_toDigits_eq_cons {n : ℕ} (hn : 0 < n) :
    ∃ c cs, Nat.toDigits 10 n = c :: cs ∧ c ≠ '0' := by
  induction n using Nat.strong_induction_on with
  | _ n ih =>
    rw [Nat.toDigits_eq_if (by decide)]
    split
    next hlt =>
      have hnonzero : ∀ d : Fin 10, 0 < d.1 → Nat.digitChar d ≠ '0' := by decide
      exact ⟨_, [], rfl, hnonzero ⟨n, hlt⟩ hn⟩
    next hge =>
      obtain ⟨c, cs, hdigits, hc⟩ := ih (n / 10) (by omega) (by omega)
      exact ⟨c, cs ++ [Nat.digitChar (n % 10)], by rw [hdigits, List.cons_append], hc⟩

theorem run_int {cs : List Char} (h : ∀ c ∈ cs, c.isDigit = true) :
    NumState.int.run cs = some .int := by
  induction cs with
  | nil => rfl
  | cons c cs ih =>
    rw [List.forall_mem_cons] at h
    rw [NumState.run, NumState.step, if_pos h.1, Option.bind_some, ih h.2]

/-- **The digits of an integer** are a number, with a sign and without. -/
theorem isNumeral_toDigits (n : ℕ) :
    isNumeral (Nat.toDigits 10 n) = true ∧ isNumeral ('-' :: Nat.toDigits 10 n) = true := by
  rcases Nat.eq_zero_or_pos n with rfl | hn
  · exact ⟨rfl, rfl⟩
  · obtain ⟨c, cs, hdigits, hzero⟩ := exists_toDigits_eq_cons hn
    have hall : ∀ d ∈ c :: cs, d.isDigit = true := fun d hd ↦
      Nat.isDigit_of_mem_toDigits (by decide) (by decide) (hdigits ▸ hd)
    rw [List.forall_mem_cons] at hall
    have hminus : c ≠ '-' := by
      rintro rfl
      cases hall.1
    have hbegin : NumState.begin? c = some .int := by
      rw [NumState.begin?, if_neg hminus, if_neg hzero, if_pos hall.1]
    have hstep : NumState.minus.step c = some .int := by
      rw [NumState.step, if_neg hzero, if_pos hall.1]
    rw [hdigits]
    refine ⟨?_, ?_⟩
    · rw [isNumeral, hbegin, Option.bind_some, run_int hall.2]
      rfl
    · rw [isNumeral]
      show (NumState.minus.run (c :: cs)).elim false NumState.accepts = true
      rw [NumState.run, hstep, Option.bind_some, run_int hall.2]
      rfl

/-! ### Values -/

mutual

/-- The strings are clean, and the numbers are numbers. -/
def Value.Clean : Value → Prop
  | .null | .bool _ => True
  | .number spelling => isNumeral spelling = true
  | .string s => CleanString s
  | .array items => CleanItems items
  | .object fields => CleanEntries fields

/-- And in the items of an array. -/
def CleanItems : List Value → Prop
  | [] => True
  | v :: items => v.Clean ∧ CleanItems items

/-- And in the fields of an object. -/
def CleanEntries : List (List ℕ × Value) → Prop
  | [] => True
  | (key, v) :: fields => CleanString key ∧ v.Clean ∧ CleanEntries fields

end

theorem cleanItems_of_forall {items : List Value} (h : ∀ v ∈ items, v.Clean) :
    CleanItems items := by
  induction items with
  | nil => trivial
  | cons v items ih =>
    rw [List.forall_mem_cons] at h
    exact ⟨h.1, ih h.2⟩

theorem cleanEntries_of_forall {fields : List (List ℕ × Value)}
    (h : ∀ e ∈ fields, CleanString e.1 ∧ e.2.Clean) : CleanEntries fields := by
  induction fields with
  | nil => trivial
  | cons e fields ih =>
    rw [List.forall_mem_cons] at h
    exact ⟨h.1.1, h.1.2, ih h.2⟩

/-- The first character of a value. -/
theorem Value.Clean.exists_head (h : v.Clean) :
    ∃ c t, v.dumps = c :: t ∧ c ≠ ']' ∧ isSpace c = false := by
  cases v with
  | null => exact ⟨_, _, by rw [dumps]; rfl, by decide, by decide⟩
  | bool b => cases b <;> exact ⟨_, _, by rw [dumps]; rfl, by decide, by decide⟩
  | number spelling =>
    obtain ⟨c, cs, st, -, rfl, hbegin, -⟩ := exists_of_isNumeral h
    exact ⟨c, cs, by rw [dumps], ne_of_begin? hbegin (by decide), isSpace_of_begin? hbegin⟩
  | string s => exact ⟨_, _, by rw [dumps]; rfl, by decide, by decide⟩
  | array items => exact ⟨_, _, by rw [dumps]; rfl, by decide, by decide⟩
  | object fields => exact ⟨_, _, by rw [dumps]; rfl, by decide, by decide⟩

/-- A character that begins a value begins the first item of an array. -/
theorem run_firstItem {s : List Char} (h : ∃ c t, s = c :: t ∧ c ≠ ']' ∧ isSpace c = false)
    (fs : List Frame) : reader.run ⟨fs, .firstItem⟩ s = reader.run ⟨fs, .value⟩ s := by
  obtain ⟨c, t, rfl, hclose, hspace⟩ := h
  have hstep : reader.step ⟨fs, .firstItem⟩ c = reader.step ⟨fs, .value⟩ c := by
    show stepOutside c ⟨fs, .firstItem⟩ = stepOutside c ⟨fs, .value⟩
    rw [stepOutside, stepOutside, hspace, if_neg Bool.false_ne_true, if_neg Bool.false_ne_true]
    dsimp only
    rw [if_neg hclose]
  rw [Machine.run_cons, Machine.run_cons, hstep]

mutual

/-- **A value is read** in every array and object. -/
theorem run_dumps : ∀ v : Value, v.Clean → ∀ fs : List Frame,
    ∃ r, reader.run ⟨fs, .value⟩ v.dumps = some r ∧ After fs v r
  | .null, _, fs => ⟨complete .null fs, by rw [Value.dumps]; rfl, .complete _⟩
  | .bool true, _, fs => ⟨complete (.bool true) fs, by rw [Value.dumps]; rfl, .complete _⟩
  | .bool false, _, fs => ⟨complete (.bool false) fs, by rw [Value.dumps]; rfl, .complete _⟩
  | .number spelling, h, fs => by
    rw [Value.dumps]
    exact run_numeral h fs
  | .string s, h, fs => by
    rw [Value.dumps]
    exact ⟨_, CleanString.run_value h fs, .complete _⟩
  | .array [], _, fs => ⟨complete (.array []) fs, by rw [Value.dumps]; rfl, .complete _⟩
  | .array (v :: items), h, fs => by
    have hitems := run_dumpsItems (v :: items) (List.cons_ne_nil v items) h [] fs
    have hhead : ∃ c t, dumpsItems (v :: items) ++ [']'] = c :: t ∧ c ≠ ']' ∧
        isSpace c = false := by
      obtain ⟨c, t, hdumps, hc⟩ := Value.Clean.exists_head h.1
      cases items with
      | nil => exact ⟨c, t ++ [']'], by rw [dumpsItems, hdumps]; rfl, hc⟩
      | cons w items => exact ⟨c, _, by rw [dumpsItems, hdumps]; rfl, hc⟩
    have hopen : reader.step ⟨fs, .value⟩ '[' = some ⟨.array [] :: fs, .firstItem⟩ := rfl
    refine ⟨complete (.array (v :: items)) fs, ?_, .complete _⟩
    rw [Value.dumps, List.cons_append, Machine.run_cons, hopen, Option.bind_some,
      run_firstItem hhead, hitems]
    rfl
  | .object [], _, fs => ⟨complete (.object []) fs, by rw [Value.dumps]; rfl, .complete _⟩
  | .object (e :: fields), h, fs => by
    obtain ⟨r, hrun, hafter⟩ := run_dumpsEntries (e :: fields) (List.cons_ne_nil e fields) h [] fs
    have hopen : reader.step ⟨fs, .value⟩ '\x7b' = some ⟨.object [] [] :: fs, .firstKey⟩ := rfl
    refine ⟨complete (.object (e :: fields)) fs, ?_, .complete _⟩
    rw [Value.dumps, List.cons_append, Machine.run_cons, hopen, Option.bind_some,
      Machine.run_append, hrun, Option.bind_some, Machine.run_cons,
      hafter.step (Or.inr (Or.inr rfl))]
    rfl

/-- The items of an array and its end. -/
theorem run_dumpsItems : ∀ items : List Value, items ≠ [] → CleanItems items →
    ∀ (acc : List Value) (fs : List Frame),
      reader.run ⟨.array acc :: fs, .value⟩ (dumpsItems items ++ [']']) =
        some (complete (.array (acc.reverse ++ items)) fs)
  | [], h, _, _, _ => absurd rfl h
  | [v], _, h, acc, fs => by
    obtain ⟨r, hrun, hafter⟩ := run_dumps v h.1 (.array acc :: fs)
    have hclose : stepOutside ']' (complete v (.array acc :: fs)) =
        some (complete (.array (acc.reverse ++ [v])) fs) := by
      show some (complete (.array (v :: acc).reverse) fs) = _
      rw [List.reverse_cons]
    rw [dumpsItems, Machine.run_append, hrun, Option.bind_some, Machine.run_cons,
      hafter.step (Or.inr (Or.inl rfl)), hclose]
    rfl
  | v :: w :: items, _, h, acc, fs => by
    obtain ⟨r, hrun, hafter⟩ := run_dumps v h.1 (.array acc :: fs)
    have hcomma : stepOutside ',' (complete v (.array acc :: fs)) =
        some ⟨.array (v :: acc) :: fs, .value⟩ := rfl
    have hspace : reader.step ⟨.array (v :: acc) :: fs, .value⟩ ' ' =
        some ⟨.array (v :: acc) :: fs, .value⟩ := rfl
    rw [dumpsItems, List.append_assoc, List.append_assoc, Machine.run_append, hrun,
      Option.bind_some, Machine.run_append, Machine.run_cons, hafter.step (Or.inl rfl), hcomma,
      Option.bind_some, Machine.run_cons, hspace, Option.bind_some, Machine.run_nil,
      Option.bind_some, run_dumpsItems (w :: items) (List.cons_ne_nil w items) h.2,
      List.reverse_cons, List.append_assoc, List.singleton_append]

/-- The fields of an object. -/
theorem run_dumpsEntries : ∀ (fields : List (List ℕ × Value)) (hne : fields ≠ []),
    CleanEntries fields → ∀ (key : List ℕ) (fs : List Frame),
      ∃ r, reader.run ⟨.object [] key :: fs, .firstKey⟩ (dumpsEntries fields) = some r ∧
        After (.object fields.tail (fields.head hne).1 :: fs) (fields.head hne).2 r
  | [], hne, _, _, _ => absurd rfl hne
  | [(key, v)], _, h, last, fs => by
    obtain ⟨r, hrun, hafter⟩ := run_dumps v h.2.1 (.object [] key :: fs)
    refine ⟨r, ?_, hafter⟩
    rw [dumpsEntries, Machine.run_append, h.1.run_key (Or.inl rfl), Option.bind_some, hrun]
  | (key, v) :: e :: fields, _, h, last, fs => by
    obtain ⟨r, hrun, hafter⟩ :=
      run_dumpsEntries (e :: fields) (List.cons_ne_nil e fields) h.2.2 last fs
    obtain ⟨r', hrun', hafter'⟩ := run_dumps v h.2.1 (.object (e :: fields) key :: fs)
    have hcomma : stepOutside ',' (complete e.2 (.object fields e.1 :: fs)) =
        some ⟨.object (e :: fields) e.1 :: fs, .key⟩ := rfl
    have hspace : reader.step ⟨.object (e :: fields) e.1 :: fs, .key⟩ ' ' =
        some ⟨.object (e :: fields) e.1 :: fs, .key⟩ := rfl
    refine ⟨r', ?_, hafter'⟩
    rw [dumpsEntries, List.append_assoc, Machine.run_append, hrun, Option.bind_some,
      Machine.run_append, Machine.run_cons, hafter.step (Or.inl rfl)]
    show ((stepOutside ',' (complete e.2 (.object fields e.1 :: fs))).bind _).bind _ = _
    rw [hcomma, Option.bind_some, Machine.run_cons, hspace, Option.bind_some, Machine.run_nil,
      Option.bind_some, Machine.run_append, h.1.run_key (Or.inr rfl), Option.bind_some, hrun']

end

/-- **A value is read back** from its text. -/
theorem parse_dumps (h : v.Clean) : parse v.dumps = some v := by
  obtain ⟨r, hrun, hafter⟩ := run_dumps v h []
  show (reader.run ⟨[], .value⟩ v.dumps).bind Reader.finish = some v
  rw [hrun, Option.bind_some, hafter.finish]

/-! ### A part of a text -/

/-- The reader is in a value that is no string, array or object, or behind the value. -/
def Reader.Lone (r : Reader) : Prop :=
  (∃ v, r.mode = .done v) ∨
    r.frames = [] ∧ ((∃ st rev, r.mode = .number st rev) ∨ ∃ w i, r.mode = .word w i)

theorem Reader.lone_of_finish (h : r.finish = some v) : r.Lone := by
  obtain ⟨fs, mode⟩ := r
  rw [finish] at h
  split at h
  · rename_i v' hmode
    exact Or.inl ⟨v', hmode⟩
  · rename_i st rev hmode
    split at h
    next hend =>
      rw [Bool.and_eq_true, List.isEmpty_iff] at hend
      exact Or.inr ⟨hend.1, Or.inl ⟨st, rev, hmode⟩⟩
    next => cases h
  · cases h

/-- Behind the value there is only white space. -/
theorem stepOutside_of_done (hmode : r.mode = .done v) (h : stepOutside c r = some r') :
    r' = r ∧ isSpace c = true := by
  rw [stepOutside] at h
  split at h
  next hspace => exact ⟨(Option.some.inj h).symm, hspace⟩
  next =>
    rw [hmode] at h
    cases h

/-- A bracket or a brace that closes something. -/
def Closing (c : Char) : Prop := c = ']' ∨ c = '\x7d'

theorem Closing.isSpace_eq_false (hc : Closing c) : isSpace c = false := by
  rcases hc with rfl | rfl <;> rfl

/-- It is in no word. -/
theorem Closing.not_mem_letters (hc : Closing c) (w : Word) : c ∉ w.letters := by
  rcases hc with rfl | rfl <;> cases w <;> decide

theorem Closing.step_number (hc : Closing c) (st : NumState) : st.step c = none := by
  rcases hc with rfl | rfl <;> cases st <;> rfl

/-- **What is lone stays so**, and nothing is closed there. -/
theorem Reader.Lone.step (h : r.Lone) (hstep : reader.step r c = some r') :
    r'.Lone ∧ ¬ Closing c := by
  obtain ⟨fs, mode⟩ := r
  rcases h with ⟨v, hmode⟩ | ⟨hframes, ⟨st, rev, hmode⟩ | ⟨w, i, hmode⟩⟩
  · obtain rfl : mode = .done v := hmode
    change stepOutside c ⟨fs, .done v⟩ = some r' at hstep
    obtain ⟨rfl, hspace⟩ := stepOutside_of_done rfl hstep
    refine ⟨Or.inl ⟨v, rfl⟩, fun hc ↦ ?_⟩
    rw [hc.isSpace_eq_false] at hspace
    cases hspace
  · obtain rfl : mode = .number st rev := hmode
    obtain rfl : fs = [] := hframes
    change stepNumber c st rev [] = some r' at hstep
    rw [stepNumber] at hstep
    split at hstep
    · rename_i st' hnext
      obtain rfl := Option.some.inj hstep
      refine ⟨Or.inr ⟨rfl, Or.inl ⟨st', _, rfl⟩⟩, fun hc ↦ ?_⟩
      rw [hc.step_number] at hnext
      cases hnext
    · split_ifs at hstep with hinf hacc
      · obtain rfl := Option.some.inj hstep
        refine ⟨Or.inr ⟨rfl, Or.inr ⟨_, _, rfl⟩⟩, fun hc ↦ ?_⟩
        rw [hinf.2] at hc
        rcases hc with hc | hc <;> cases hc
      · obtain ⟨rfl, hspace⟩ := stepOutside_of_done (v := .number rev.reverse) rfl hstep
        refine ⟨Or.inl ⟨_, rfl⟩, fun hc ↦ ?_⟩
        rw [hc.isSpace_eq_false] at hspace
        cases hspace
  · obtain rfl : mode = .word w i := hmode
    obtain rfl : fs = [] := hframes
    change stepWord c w i [] = some r' at hstep
    rw [stepWord] at hstep
    split_ifs at hstep with hletter hlast
    · obtain rfl := Option.some.inj hstep
      exact ⟨Or.inl ⟨_, rfl⟩, fun hc ↦ hc.not_mem_letters w (List.mem_of_getElem? hletter)⟩
    · obtain rfl := Option.some.inj hstep
      exact ⟨Or.inr ⟨rfl, Or.inr ⟨_, _, rfl⟩⟩,
        fun hc ↦ hc.not_mem_letters w (List.mem_of_getElem? hletter)⟩

theorem Reader.Lone.run {s : List Char} (h : r.Lone) (hrun : reader.run r s = some r') :
    ∀ c ∈ s, ¬ Closing c := by
  induction s generalizing r with
  | nil => exact fun _ hc ↦ absurd hc List.not_mem_nil
  | cons c s ih =>
    obtain ⟨next, hstep, hrest⟩ := reader.run_cons_eq_some.1 hrun
    obtain ⟨hnext, hc⟩ := h.step hstep
    exact List.forall_mem_cons.2 ⟨hc, ih hnext hrest⟩

/-- **No part of a text is read** that ends with a closing bracket or brace. -/
theorem parse_eq_none_of_isPrefix {s t : List Char} (hs : (parse (s ++ [c])).isSome)
    (hc : Closing c) (ht : t <+: s) : parse t = none := by
  obtain ⟨u, rfl⟩ := ht
  cases hparse : parse t with
  | none => rfl
  | some v =>
    obtain ⟨r, hrun, hfinish⟩ := Option.bind_eq_some_iff.1 hparse
    obtain ⟨w, hw⟩ := Option.isSome_iff_exists.1 hs
    obtain ⟨r', hrun', -⟩ := Option.bind_eq_some_iff.1 hw
    rw [List.append_assoc, Machine.run_append, hrun, Option.bind_some] at hrun'
    exact absurd hc ((Reader.lone_of_finish hfinish).run hrun' c
      (List.mem_append_right u (List.mem_singleton.2 rfl)))

/-- The text of an array or an object ends so. -/
theorem exists_dumps_eq_concat (hv : (∃ items, v = .array items) ∨ ∃ fields, v = .object fields) :
    ∃ s c, v.dumps = s ++ [c] ∧ Closing c := by
  rcases hv with ⟨items, rfl⟩ | ⟨fields, rfl⟩
  · exact ⟨'[' :: dumpsItems items, ']', by rw [Value.dumps], Or.inl rfl⟩
  · exact ⟨'\x7b' :: dumpsEntries fields, '\x7d', by rw [Value.dumps], Or.inr rfl⟩

/-- **A text that was cut off** is not read. -/
theorem parse_take_dumps (h : v.Clean)
    (hv : (∃ items, v = .array items) ∨ ∃ fields, v = .object fields) {n : ℕ}
    (hn : n < v.dumps.length) : parse (v.dumps.take n) = none := by
  obtain ⟨s, c, hdumps, hc⟩ := exists_dumps_eq_concat hv
  have hread : (parse (s ++ [c])).isSome := by
    rw [← hdumps, parse_dumps h]
    rfl
  rw [hdumps, List.length_append, List.length_singleton, Nat.lt_succ_iff] at hn
  rw [hdumps, List.take_append_of_le_length hn]
  exact parse_eq_none_of_isPrefix hread hc (List.take_prefix n s)

end Json
