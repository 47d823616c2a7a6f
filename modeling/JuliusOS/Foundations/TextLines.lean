import JuliusOS.Foundations.Python

/-!
# Text files read line by line

What Python makes of a text file that some other program has written: the lines of
`for line in f`, with universal newlines; `s.strip()`, `s.split(sep)[1]` and `int(s)`; and the
numbers that C prints with `%d`.

* `strip_strip`, `strip_concat`, `strip_of_ends`: what is stripped, and what is not;
* `lines_cons`: a line in front;
* `exists_of_mem_lines`: a line has no line break but at its end;
* `int?_decimal`: a number is read back.
-/

namespace Python

variable {s t : List Char} {c : Char}

/-! ### `strip` -/

/-- A space at the end makes no difference. -/
theorem strip_concat (s : List Char) (hc : isSpace c = true) : strip (s ++ [c]) = strip s := by
  rw [strip, strip, List.dropWhile_append]
  split
  next h =>
    rw [List.isEmpty_iff.1 h, List.dropWhile_cons_of_pos hc]
    rfl
  next => rw [List.rdropWhile_concat_pos _ _ _ hc]

/-- A text whose ends are no spaces is not changed. -/
theorem strip_of_ends (hhead : ∀ c ∈ s.head?, isSpace c = false)
    (hlast : ∀ c ∈ s.getLast?, isSpace c = false) : strip s = s := by
  have hfront : s.dropWhile isSpace = s := by
    cases s with
    | nil => rfl
    | cons a s => exact List.dropWhile_cons_of_neg (by rw [hhead a rfl]; exact Bool.false_ne_true)
  rw [strip, hfront, List.rdropWhile_eq_self_iff]
  intro hne
  rw [hlast _ (List.getLast?_eq_getLast_of_ne_nil hne)]
  exact Bool.false_ne_true

/-- What is stripped begins with no space. -/
theorem head_strip : ∀ c ∈ (strip s).head?, isSpace c = false := by
  intro c hc
  have hprefix : strip s <+: s.dropWhile isSpace := List.rdropWhile_prefix _ _
  cases hs : strip s with
  | nil =>
    rw [hs] at hc
    cases hc
  | cons a l =>
    rw [hs] at hc hprefix
    obtain rfl := Option.some.inj hc
    obtain ⟨rest, hrest⟩ := hprefix
    have hnot := List.head?_dropWhile_not isSpace s
    rw [← hrest] at hnot
    simpa using hnot

/-- What is stripped ends with no space. -/
theorem getLast_strip : ∀ c ∈ (strip s).getLast?, isSpace c = false := by
  intro c hc
  obtain ⟨hne, rfl⟩ := List.mem_getLast?_eq_getLast hc
  exact Bool.eq_false_iff.2 (List.rdropWhile_last_not _ _ hne)

/-- **Stripping twice** is stripping once. -/
theorem strip_strip (s : List Char) : strip (strip s) = strip s :=
  strip_of_ends head_strip getLast_strip

/-- What is stripped is part of the text. -/
theorem mem_of_mem_strip (h : c ∈ strip s) : c ∈ s :=
  (List.dropWhile_sublist _).subset ((List.rdropWhile_prefix _ _).subset h)

/-- A text behind one that begins and ends with no space. -/
theorem strip_append (hhead : ∀ c ∈ s.head?, isSpace c = false)
    (hlast : ∀ c ∈ s.getLast?, isSpace c = false) (hne : s ≠ []) (ht : strip t = t) :
    strip (s ++ t) = s ++ t := by
  refine strip_of_ends (fun c hc ↦ hhead c ?_) fun c hc ↦ ?_
  · rwa [List.head?_append_of_ne_nil _ hne] at hc
  · rw [List.getLast?_append, Option.mem_def, Option.or_eq_some_iff] at hc
    rcases hc with hc | ⟨-, hc⟩
    · exact getLast_strip c (by rwa [ht])
    · exact hlast c hc

/-! ### `split` -/

/-- The first field ends at the first separator. -/
theorem getElem?_zero_splitOn (sep : Char) (s : List Char) :
    (s.splitOn sep)[0]? = some (s.takeWhile (· ≠ sep)) := by
  induction s with
  | nil => rfl
  | cons c s ih =>
    rw [List.splitOn_cons_eq_if_modifyHead]
    by_cases hc : c = sep
    · rw [if_pos (beq_iff_eq.2 hc), List.takeWhile_cons_of_neg (by simp [hc])]
      rfl
    · rw [if_neg (by simpa using hc), List.takeWhile_cons_of_pos (by simp [hc])]
      cases hs : s.splitOn sep with
      | nil => exact absurd hs (List.splitOn_ne_nil sep s)
      | cons field fields =>
        rw [hs] at ih
        exact congrArg _ (congrArg (c :: ·) (Option.some.inj ih))

/-! ### Lines -/

/-- Universal newlines; the flag says that a carriage return has just been read. -/
def translateFrom : Bool → List Char → List Char
  | _, [] => []
  | cr, c :: s =>
    if c = '\n' then
      if cr then translateFrom false s else '\n' :: translateFrom false s
    else if c = '\r' then '\n' :: translateFrom true s
    else c :: translateFrom false s

/-- Universal newlines. -/
def translate (s : List Char) : List Char := translateFrom false s

/-- Lines, the first of which goes on from some text, given backwards. -/
def linesFrom : List Char → List Char → List (List Char)
  | [], [] => []
  | c :: acc, [] => [(c :: acc).reverse]
  | acc, c :: s =>
    if c = '\n' then (c :: acc).reverse :: linesFrom [] s else linesFrom (c :: acc) s

/-- The lines of `for line in f`, each with its newline. -/
def lines (s : List Char) : List (List Char) := linesFrom [] (translate s)

theorem notMem_translateFrom (cr : Bool) (s : List Char) : '\r' ∉ translateFrom cr s := by
  induction s generalizing cr with
  | nil => exact List.not_mem_nil
  | cons c s ih =>
    rw [translateFrom]
    split
    next =>
      split
      next => exact ih false
      next => exact List.not_mem_cons_of_ne_of_not_mem (by decide) (ih false)
    next =>
      split
      next => exact List.not_mem_cons_of_ne_of_not_mem (by decide) (ih true)
      next hc => exact List.not_mem_cons_of_ne_of_not_mem (Ne.symm hc) (ih false)

/-- A text without carriage returns is read as it is. -/
theorem translate_eq_self (h : '\r' ∉ s) : translate s = s := by
  rw [translate]
  induction s with
  | nil => rfl
  | cons c s ih =>
    rw [List.mem_cons, not_or] at h
    rw [translateFrom, ih h.2, if_neg (Ne.symm h.1)]
    split
    next hc => rw [hc, if_neg Bool.false_ne_true]
    next => rfl

theorem linesFrom_append (acc : List Char) (hs : '\n' ∉ s) (t : List Char) :
    linesFrom acc (s ++ '\n' :: t) = (acc.reverse ++ s ++ ['\n']) :: linesFrom [] t := by
  induction s generalizing acc with
  | nil =>
    rw [List.nil_append, linesFrom, if_pos rfl, List.reverse_cons, List.append_nil]
  | cons c s ih =>
    rw [List.mem_cons, not_or] at hs
    rw [List.cons_append, linesFrom, if_neg (Ne.symm hs.1), ih _ hs.2, List.reverse_cons,
      List.append_assoc acc.reverse, List.singleton_append]

/-- **A line in front.** -/
theorem lines_cons (hs : '\n' ∉ s) (h : '\r' ∉ s ++ '\n' :: t) :
    lines (s ++ '\n' :: t) = (s ++ ['\n']) :: lines t := by
  have ht : '\r' ∉ t := fun hmem ↦ h (List.mem_append_right _ (List.mem_cons_of_mem _ hmem))
  rw [lines, lines, translate_eq_self h, translate_eq_self ht, linesFrom_append [] hs,
    List.reverse_nil, List.nil_append]

theorem exists_of_mem_linesFrom {acc line : List Char} (hacc : '\n' ∉ acc ∧ '\r' ∉ acc)
    (hs : '\r' ∉ s) (h : line ∈ linesFrom acc s) :
    ∃ l, ('\n' ∉ l ∧ '\r' ∉ l) ∧ (line = l ++ ['\n'] ∨ line = l) := by
  induction s generalizing acc with
  | nil =>
    cases acc with
    | nil => exact absurd h List.not_mem_nil
    | cons c acc =>
      rw [linesFrom, List.mem_singleton] at h
      exact ⟨_, ⟨List.mem_reverse.not.2 hacc.1, List.mem_reverse.not.2 hacc.2⟩, Or.inr h⟩
  | cons c s ih =>
    rw [List.mem_cons, not_or] at hs
    rw [linesFrom] at h
    split at h
    next hc =>
      rcases List.mem_cons.1 h with rfl | h
      · exact ⟨acc.reverse, ⟨List.mem_reverse.not.2 hacc.1, List.mem_reverse.not.2 hacc.2⟩,
          Or.inl (by rw [hc, List.reverse_cons])⟩
      · exact ih ⟨List.not_mem_nil, List.not_mem_nil⟩ hs.2 h
    next hc =>
      exact ih ⟨List.not_mem_cons_of_ne_of_not_mem (Ne.symm hc) hacc.1,
        List.not_mem_cons_of_ne_of_not_mem hs.1 hacc.2⟩ hs.2 h

/-- A line has no line break but at its end, where it is stripped. -/
theorem notMem_strip_of_mem_lines {line : List Char} (h : line ∈ lines s) :
    '\n' ∉ strip line ∧ '\r' ∉ strip line := by
  obtain ⟨l, ⟨hn, hr⟩, hline⟩ := exists_of_mem_linesFrom
    ⟨List.not_mem_nil, List.not_mem_nil⟩ (notMem_translateFrom false s) h
  have hstrip : strip line = strip l := by
    rcases hline with rfl | rfl
    · exact strip_concat l (by decide)
    · rfl
  rw [hstrip]
  exact ⟨fun hmem ↦ hn (mem_of_mem_strip hmem), fun hmem ↦ hr (mem_of_mem_strip hmem)⟩

/-! ### Numbers -/

/-- `%d`. -/
def decimal : ℤ → List Char
  | .ofNat n => Nat.toDigits 10 n
  | .negSucc n => '-' :: Nat.toDigits 10 (n + 1)

/-- The digits of `int(s)`: groups with single underscores between them. -/
def nat? (s : List Char) : Option ℕ :=
  if (s.splitOn '_').all fun group ↦ !group.isEmpty && group.all Char.isDigit then
    some (Nat.ofDigitChars 10 (s.splitOn '_').flatten 0)
  else none

/-- `int(s)`, for ASCII digits. -/
def int? (s : List Char) : Option ℤ :=
  match strip s with
  | '-' :: digits => (nat? digits).map fun (n : ℕ) ↦ -(n : ℤ)
  | '+' :: digits => (nat? digits).map fun (n : ℕ) ↦ (n : ℤ)
  | digits => (nat? digits).map fun (n : ℕ) ↦ (n : ℤ)

/-- A digit is neither a space nor any of the other characters that `int` looks for. -/
theorem isDigit_ne (h : c.isDigit = true) : isSpace c = false ∧ c ≠ '_' ∧ c ≠ '-' ∧ c ≠ '+' := by
  have hrange : 48 ≤ c.toNat ∧ c.toNat ≤ 57 := by
    rw [Char.isDigit, Bool.and_eq_true, decide_eq_true_eq, decide_eq_true_eq] at h
    exact ⟨UInt32.le_iff_toNat_le.1 h.1, UInt32.le_iff_toNat_le.1 h.2⟩
  refine ⟨?_, ?_, ?_, ?_⟩
  · refine decide_eq_false fun hmem ↦ ?_
    have hspaces : ∀ n ∈ [9, 10, 11, 12, 13, 28, 29, 30, 31, 32, 0x85, 0xA0, 0x1680, 0x2000, 0x2001,
        0x2002, 0x2003, 0x2004, 0x2005, 0x2006, 0x2007, 0x2008, 0x2009, 0x200A, 0x2028, 0x2029,
        0x202F, 0x205F, 0x3000], n < 48 ∨ 57 < n := by decide
    have hout := hspaces _ hmem
    omega
  all_goals
    rintro rfl
    exact absurd h (by decide)

/-- What `%d` prints of a natural number. -/
theorem isDigit_of_mem_toDigits {n : ℕ} (hc : c ∈ Nat.toDigits 10 n) : c.isDigit = true :=
  Nat.isDigit_of_mem_toDigits (by decide) (by decide) hc

theorem nat?_toDigits (n : ℕ) : nat? (Nat.toDigits 10 n) = some n := by
  have hsplit : (Nat.toDigits 10 n).splitOn '_' = [Nat.toDigits 10 n] :=
    List.splitOn_eq_singleton fun hmem ↦ (isDigit_ne (isDigit_of_mem_toDigits hmem)).2.1 rfl
  have hne : (Nat.toDigits 10 n).isEmpty = false := List.isEmpty_eq_false_iff.2 Nat.toDigits_ne_nil
  have hall : (Nat.toDigits 10 n).all Char.isDigit = true :=
    List.all_eq_true.2 fun c hc ↦ isDigit_of_mem_toDigits hc
  rw [nat?, hsplit, List.all_cons, List.all_nil, hne, hall, List.flatten_singleton,
    Nat.ofDigitChars_ten_toDigits]
  rfl

/-- A text without spaces is not changed. -/
theorem strip_of_forall (h : ∀ c ∈ s, isSpace c = false) : strip s = s :=
  strip_of_ends (fun c hc ↦ h c (List.mem_of_mem_head? hc)) fun c hc ↦
    h c (List.mem_of_mem_getLast? hc)

/-- What `%d` prints. -/
theorem mem_decimal {z : ℤ} (hc : c ∈ decimal z) : c.isDigit = true ∨ c = '-' := by
  cases z with
  | ofNat n => exact Or.inl (isDigit_of_mem_toDigits hc)
  | negSucc n => exact (List.mem_cons.1 hc).symm.imp_left isDigit_of_mem_toDigits

/-- A number has no spaces. -/
theorem isSpace_of_mem_decimal {z : ℤ} (hc : c ∈ decimal z) : isSpace c = false := by
  rcases mem_decimal hc with hdigit | rfl
  · exact (isDigit_ne hdigit).1
  · decide

theorem strip_decimal (z : ℤ) : strip (decimal z) = decimal z :=
  strip_of_forall fun _ hc ↦ isSpace_of_mem_decimal hc

/-- **A number that was printed** is read back. -/
theorem int?_decimal (z : ℤ) : int? (decimal z) = some z := by
  rw [int?, strip_decimal]
  cases z with
  | ofNat n =>
    rw [decimal]
    split
    next digits hd =>
      have hdigit : '-'.isDigit = true := isDigit_of_mem_toDigits (hd ▸ List.mem_cons_self)
      exact absurd hdigit (by decide)
    next digits hd =>
      have hdigit : '+'.isDigit = true := isDigit_of_mem_toDigits (hd ▸ List.mem_cons_self)
      exact absurd hdigit (by decide)
    next =>
      rw [nat?_toDigits]
      rfl
  | negSucc n =>
    rw [decimal]
    show (nat? (Nat.toDigits 10 (n + 1))).map _ = _
    rw [nat?_toDigits]
    rfl

end Python
