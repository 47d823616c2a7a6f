import JuliusOS.Foundations.TextLines

/-!
# Texts of floating-point numbers

Which texts Python's `float` accepts (`accepts`), and how `str` writes a `float` (`Printed`): its
digits around a point, or with an exponent, or one of `inf`, `-inf` and `nan`. Texts are of ASCII
characters other than spaces (`Plain`); a scanner reads them from left to right (`scan`).

A number may be followed by a digit (`next_digit`), and by a point only if it has neither a point
nor an exponent (`next_dot`).
-/

namespace FloatText

/-! ### Scanning -/

/-- How far a number without its sign has been read. -/
inductive Scan
  | start
  | int
  | intSep
  /-- A point without digits before it. -/
  | dot
  /-- A point after digits. -/
  | intDot
  | frac
  | fracSep
  | e
  | eSign
  | exp
  | expSep
deriving DecidableEq

/-- `e` or `E`. -/
def isE (c : Char) : Bool := c = 'e' || c = 'E'

/-- One character more. Underscores stand between digits. -/
def next : Scan → Char → Option Scan
  | .start, c => if c.isDigit then some .int else if c = '.' then some .dot else none
  | .int, c =>
    if c.isDigit then some .int else if c = '_' then some .intSep
    else if c = '.' then some .intDot else if isE c then some .e else none
  | .intSep, c => if c.isDigit then some .int else none
  | .dot, c => if c.isDigit then some .frac else none
  | .intDot, c => if c.isDigit then some .frac else if isE c then some .e else none
  | .frac, c =>
    if c.isDigit then some .frac else if c = '_' then some .fracSep
    else if isE c then some .e else none
  | .fracSep, c => if c.isDigit then some .frac else none
  | .e, c => if c.isDigit then some .exp else if c = '+' ∨ c = '-' then some .eSign else none
  | .eSign, c => if c.isDigit then some .exp else none
  | .exp, c => if c.isDigit then some .exp else if c = '_' then some .expSep else none
  | .expSep, c => if c.isDigit then some .exp else none

/-- The characters of a text, one after the other. -/
def scan (s : List Char) : Option Scan := s.foldlM next .start

/-- Where a number may end. -/
def Scan.final : Scan → Bool
  | int | intDot | frac | exp => true
  | _ => false

/-- A number without a sign. -/
def numeral (s : List Char) : Bool := (scan s).any Scan.final

/-- A text without its sign. -/
def unsigned : List Char → List Char
  | '-' :: s => s
  | '+' :: s => s
  | s => s

/-- One of the words that `float` knows. -/
def isWord (s : List Char) : Bool :=
  s.map Char.toLower = "inf".toList || s.map Char.toLower = "infinity".toList ||
    s.map Char.toLower = "nan".toList

/-- ASCII characters, and no spaces. -/
def Plain (s : List Char) : Prop := ∀ c ∈ s, Python.isSpace c = false ∧ c.toNat < 128

instance (s : List Char) : Decidable (Plain s) :=
  List.decidableBAll (fun c ↦ Python.isSpace c = false ∧ c.toNat < 128) s

/-- `float(s)` does not raise, for a plain text. -/
def accepts (s : List Char) : Bool := isWord (unsigned s) || numeral (unsigned s)

/-- The words that `str` writes. -/
def words : List (List Char) := ["inf".toList, "-inf".toList, "nan".toList]

/-- A number in digits, with a sign or without one, has been read so far. -/
def Digits (s : List Char) (q : Scan) : Prop := scan (unsigned s) = some q

/-- What `str` writes: a word, or a number that has a point or an exponent, and a digit in front. -/
def Printed (s : List Char) : Prop :=
  s ∈ words ∨ ∃ q, (q = .frac ∨ q = .exp) ∧ Digits s q ∧ ∃ c ∈ (unsigned s).head?, c.isDigit = true

/-- A text without the `.0` at its end. -/
def trim (s : List Char) : List Char :=
  if s.drop (s.length - 2) = ['.', '0'] then s.take (s.length - 2) else s

/-! ### Steps of the scanner -/

variable {s : List Char} {c : Char} {q q' : Scan}

theorem scan_concat (s : List Char) (c : Char) : scan (s ++ [c]) = (scan s).bind (next · c) := by
  rw [scan, List.foldlM_append]
  show (scan s).bind (fun q ↦ List.foldlM next q [c]) = _
  refine congrArg _ (funext fun q ↦ ?_)
  rw [List.foldlM_cons]
  exact bind_pure _

/-- The last character of what has been read. -/
theorem scan_concat_eq_some :
    scan (s ++ [c]) = some q ↔ ∃ p, scan s = some p ∧ next p c = some q := by
  rw [scan_concat, Option.bind_eq_some_iff]

theorem next_digit (hc : c.isDigit = true) (hq : q.final = true) :
    ∃ q', next q c = some q' ∧ q'.final = true := by
  cases q with
  | int => exact ⟨.int, if_pos hc, rfl⟩
  | intDot => exact ⟨.frac, if_pos hc, rfl⟩
  | frac => exact ⟨.frac, if_pos hc, rfl⟩
  | exp => exact ⟨.exp, if_pos hc, rfl⟩
  | _ => cases hq

theorem toNat_lt_of_isDigit (hc : c.isDigit = true) : c.toNat < 128 := by
  rw [Char.isDigit, Bool.and_eq_true, decide_eq_true_eq, decide_eq_true_eq] at hc
  have hle := UInt32.le_iff_toNat_le.1 hc.2
  exact Nat.lt_of_le_of_lt hle (by decide)

/-- What is read is a plain character. -/
theorem plain_of_next (h : next q c = some q') : Python.isSpace c = false ∧ c.toNat < 128 := by
  by_cases hc : c.isDigit = true
  · exact ⟨(Python.isDigit_ne hc).1, toNat_lt_of_isDigit hc⟩
  · have hchar : c = '.' ∨ c = '_' ∨ c = '+' ∨ c = '-' ∨ c = 'e' ∨ c = 'E' := by
      cases q <;> simp only [next, hc, isE] at h <;> grind
    rcases hchar with rfl | rfl | rfl | rfl | rfl | rfl <;> decide

theorem plain_of_scan (h : scan s = some q) : Plain s := by
  induction s using List.reverseRecOn generalizing q with
  | nil => exact List.forall_mem_nil _
  | append_singleton s c ih =>
    obtain ⟨p, hp, hnext⟩ := scan_concat_eq_some.1 h
    exact List.forall_mem_append.2 ⟨ih hp, List.forall_mem_singleton.2 (plain_of_next hnext)⟩

/-- A point has been read, and no exponent yet. -/
def Scan.dotted : Scan → Bool
  | dot | intDot | frac | fracSep => true
  | _ => false

/-- An exponent is being read. -/
def Scan.exponent : Scan → Bool
  | e | eSign | exp | expSep => true
  | _ => false

theorem isE_of_isDigit (hc : c.isDigit = true) : isE c = false := by
  rw [isE, Bool.or_eq_false_iff, decide_eq_false_iff_not, decide_eq_false_iff_not]
  constructor
  · rintro rfl
    cases hc
  · rintro rfl
    cases hc

theorem dotted_of_next (h : next q c = some q') (hq : q'.dotted = true) :
    q.dotted = true ∨ c = '.' := by
  cases q <;> simp only [next] at h <;> grind [Scan.dotted]

theorem exponent_of_next (h : next q c = some q') : q'.exponent = (q.exponent || isE c) := by
  have hdigit := isE_of_isDigit (c := c)
  cases q <;> simp only [next] at h <;> grind [Scan.exponent, isE]

theorem mem_of_dotted (h : scan s = some q) (hq : q.dotted = true) : '.' ∈ s := by
  induction s using List.reverseRecOn generalizing q with
  | nil =>
    rw [← Option.some.inj h] at hq
    cases hq
  | append_singleton s c ih =>
    obtain ⟨p, hp, hnext⟩ := scan_concat_eq_some.1 h
    rcases dotted_of_next hnext hq with hdot | rfl
    · exact List.mem_append_left _ (ih hp hdot)
    · exact List.mem_append_right _ (List.mem_singleton_self _)

theorem exponent_of_scan (h : scan s = some q) : q.exponent = s.any isE := by
  induction s using List.reverseRecOn generalizing q with
  | nil =>
    rw [← Option.some.inj h]
    rfl
  | append_singleton s c ih =>
    obtain ⟨p, hp, hnext⟩ := scan_concat_eq_some.1 h
    rw [exponent_of_next hnext, ih hp, List.any_append, List.any_cons, List.any_nil, Bool.or_false]

/-- No point can follow where one has been read, or an exponent. -/
theorem next_dot (hq : q.final = true) :
    next q '.' = if q = .int then some .intDot else none := by
  cases q with
  | int | intDot | frac | exp => rfl
  | _ => cases hq

/-- Before a point there are digits, or nothing. -/
theorem eq_of_next_dot (h : next q '.' = some q') : q = .start ∨ q = .int := by
  cases q with
  | start => exact Or.inl rfl
  | int => exact Or.inr rfl
  | _ => cases h

theorem eq_nil_of_scan_start (h : scan s = some .start) : s = [] := by
  induction s using List.reverseRecOn with
  | nil => rfl
  | append_singleton s c _ =>
    obtain ⟨p, -, hnext⟩ := scan_concat_eq_some.1 h
    cases p <;> simp only [next] at hnext <;> grind

/-! ### Signs -/

theorem unsigned_cons (hminus : c ≠ '-') (hplus : c ≠ '+') (s : List Char) :
    unsigned (c :: s) = c :: s := by
  rw [unsigned]
  · exact fun r hr ↦ hminus (List.cons.inj hr).1
  · exact fun r hr ↦ hplus (List.cons.inj hr).1

theorem unsigned_append (hs : s ≠ []) (t : List Char) : unsigned (s ++ t) = unsigned s ++ t := by
  obtain ⟨c, r, rfl⟩ := List.exists_cons_of_ne_nil hs
  by_cases hminus : c = '-'
  · rw [hminus]
    rfl
  · by_cases hplus : c = '+'
    · rw [hplus]
      rfl
    · rw [List.cons_append, unsigned_cons hminus hplus, unsigned_cons hminus hplus,
        List.cons_append]

theorem mem_unsigned (hc : c ∈ s) : c ∈ unsigned s ∨ c = '-' ∨ c = '+' := by
  obtain ⟨d, r, rfl⟩ := List.exists_cons_of_ne_nil (List.ne_nil_of_mem hc)
  by_cases hminus : d = '-'
  · rw [hminus] at hc ⊢
    exact (List.mem_cons.1 hc).symm.imp_right Or.inl
  · by_cases hplus : d = '+'
    · rw [hplus] at hc ⊢
      exact (List.mem_cons.1 hc).symm.imp_right Or.inr
    · rw [unsigned_cons hminus hplus]
      exact Or.inl hc

theorem mem_of_mem_unsigned (hc : c ∈ unsigned s) : c ∈ s := by
  rw [unsigned.eq_def] at hc
  split at hc
  · exact List.mem_cons_of_mem _ hc
  · exact List.mem_cons_of_mem _ hc
  · exact hc

/-! ### Numbers -/

theorem Digits.ne_nil (h : Digits s q) (hq : q.final = true) : s ≠ [] := by
  rintro rfl
  rw [← Option.some.inj h] at hq
  cases hq

theorem Digits.plain (h : Digits s q) : Plain s := by
  intro c hc
  rcases mem_unsigned hc with hc | rfl | rfl
  · exact plain_of_scan h c hc
  · decide
  · decide

/-- One character more. -/
theorem Digits.concat (h : Digits s q) (hq : q.final = true) (hnext : next q c = some q') :
    Digits (s ++ [c]) q' := by
  rw [Digits, unsigned_append (h.ne_nil hq), scan_concat, h]
  exact hnext

theorem Digits.accepts (h : Digits s q) (hq : q.final = true) : accepts s = true := by
  rw [FloatText.accepts, numeral, h, Option.any_some, hq, Bool.or_true]

theorem isWord_concat_dot (s : List Char) : isWord (s ++ ['.']) = false := by
  have hne (w : List Char) (hlast : w.getLast? ≠ some '.') :
      (s ++ ['.']).map Char.toLower ≠ w := by
    rintro rfl
    exact hlast (by simp)
  rw [isWord, decide_eq_false (hne _ (by decide)), decide_eq_false (hne _ (by decide)),
    decide_eq_false (hne _ (by decide))]
  rfl

/-- A point that is one too many. -/
theorem Digits.not_accepts_dot (h : Digits s q) (hq : q.final = true) (hint : q ≠ .int) :
    FloatText.accepts (s ++ ['.']) = false := by
  rw [FloatText.accepts, unsigned_append (h.ne_nil hq), isWord_concat_dot, numeral,
    scan_concat, h, Option.bind_some, next_dot hq, if_neg hint]
  rfl

/-- The number that is left when `.0` is taken away from what `str` writes. -/
theorem Printed.trim (h : Printed s) :
    FloatText.trim s ∈ words ∨ ∃ q, q.final = true ∧ Digits (FloatText.trim s) q := by
  rcases h with hword | ⟨q, hq, hdigits, d, hd, hdigit⟩
  · refine Or.inl ?_
    have hall : ∀ w ∈ words, FloatText.trim w ∈ words := by decide
    exact hall s hword
  · refine Or.inr ?_
    have hfinal : q.final = true := by rcases hq with rfl | rfl <;> rfl
    by_cases hend : s.drop (s.length - 2) = ['.', '0']
    · rw [FloatText.trim, if_pos hend]
      obtain ⟨x, hx⟩ : ∃ x, s.take (s.length - 2) = x := ⟨_, rfl⟩
      have hs : s = x ++ ['.'] ++ ['0'] := by
        rw [List.append_assoc, List.singleton_append, ← hend, ← hx, List.take_append_drop]
      have hne : x ≠ [] := by
        rintro rfl
        rw [hs] at hd
        rw [Option.mem_some_iff.1 hd.symm] at hdigit
        cases hdigit
      rw [hx]
      rw [Digits, hs, unsigned_append (List.append_ne_nil_of_left_ne_nil hne _),
        unsigned_append hne] at hdigits
      obtain ⟨p, hp, -⟩ := scan_concat_eq_some.1 hdigits
      obtain ⟨p', hp', hdot⟩ := scan_concat_eq_some.1 hp
      rcases eq_of_next_dot hdot with rfl | rfl
      · have hnil := eq_nil_of_scan_start hp'
        rw [hs, List.append_assoc, unsigned_append hne, hnil] at hd
        rw [Option.mem_some_iff.1 hd.symm] at hdigit
        cases hdigit
      · exact ⟨.int, rfl, hp'⟩
    · rw [FloatText.trim, if_neg hend]
      exact ⟨q, hfinal, hdigits⟩

end FloatText
