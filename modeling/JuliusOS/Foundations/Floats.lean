import JuliusOS.Foundations.FloatText

/-!
# Floating-point arithmetic

A `Floats` is a type of floating-point numbers with the operations of Python that programs here use.
Nothing is fixed about it but what Python documents:

* `Floats.Texts`: which texts `float` accepts, and how `str` writes a number;
* `Floats.Exact`: results are correctly rounded and numbers have 53 bits, so integers below 2^53 are
  exact, and are written as their digits and `.0`; what `str` writes, `float` reads back.

`integers` is an arithmetic that is rounded to integers: it is lawful, and it does what
floating-point numbers do where all of them are integers below 2^53 and nothing is divided.
-/

namespace FloatText

/-- Floating-point numbers. -/
structure Floats (F : Type*) where
  /-- `float(s)`, where it does not raise. -/
  float : List Char → Option F
  /-- `str(x)`. -/
  str : F → List Char
  neg : F → F
  add : F → F → F
  sub : F → F → F
  mul : F → F → F
  /-- `x / y`, where `y` is not zero. -/
  div : F → F → F
  /-- `x != 0`. -/
  nonzero : F → Bool
  /-- `x / 100`. -/
  hundredth : F → F

namespace Floats

variable {F : Type*}

/-- What is documented of `float` and `str`. -/
structure Texts (M : Floats F) : Prop where
  float_isSome : ∀ s, Plain s → (M.float s).isSome = accepts s
  printed_str : ∀ x, Printed (M.str x)

/-- An integer whose absolute value is below 2^53. -/
def Small (z : ℤ) : Prop := z.natAbs < 9007199254740992

instance (z : ℤ) : Decidable (Small z) := Nat.decLt z.natAbs 9007199254740992

/-- What is documented of the arithmetic; `ofInt z` is the number nearest to `z`. -/
structure Exact (M : Floats F) (ofInt : ℤ → F) : Prop extends Texts M where
  float_str : ∀ x, M.float (M.str x) = some x
  /-- Small integers are exact. -/
  ofInt_ne : ∀ y z, Small y → ¬ Small z → ofInt z ≠ ofInt y
  float_decimal : ∀ n : ℕ, Small n → M.float (Python.decimal n) = some (ofInt n)
  str_ofInt : ∀ z, Small z → M.str (ofInt z) = Python.decimal z ++ ['.', '0']
  add_ofInt : ∀ m n : ℕ, Small m → Small n → M.add (ofInt m) (ofInt n) = ofInt (m + n)
  sub_ofInt : ∀ m n : ℕ, Small m → Small n → M.sub (ofInt m) (ofInt n) = ofInt (m - n)
  mul_ofInt : ∀ m n : ℕ, Small m → Small n → M.mul (ofInt m) (ofInt n) = ofInt (m * n)

end Floats

/-! ### Integers in digits -/

variable {s : List Char} {z : ℤ}

theorem scan_digits (hne : s ≠ []) (hs : ∀ c ∈ s, c.isDigit = true) : scan s = some .int := by
  induction s using List.reverseRecOn with
  | nil => exact absurd rfl hne
  | append_singleton s c ih =>
    obtain ⟨hinit, hlast⟩ := List.forall_mem_append.1 hs
    have hc : c.isDigit = true := hlast c (List.mem_singleton_self c)
    rw [scan_concat]
    by_cases hnil : s = []
    · rw [hnil]
      exact if_pos hc
    · rw [ih hnil hinit]
      exact if_pos hc

theorem unsigned_of_digits (hs : ∀ c ∈ s, c.isDigit = true) : unsigned s = s := by
  cases s with
  | nil => rfl
  | cons c r =>
    obtain ⟨-, -, hminus, hplus⟩ := Python.isDigit_ne (hs c (List.mem_cons_self ..))
    exact unsigned_cons hminus hplus r

/-- The digits of an integer. -/
theorem exists_unsigned_decimal (z : ℤ) :
    ∃ n : ℕ, unsigned (Python.decimal z) = Nat.toDigits 10 n := by
  cases z with
  | ofNat n =>
    exact ⟨n, unsigned_of_digits fun c hc ↦ Python.isDigit_of_mem_toDigits hc⟩
  | negSucc n => exact ⟨n + 1, rfl⟩

theorem digits_decimal (z : ℤ) : Digits (Python.decimal z) .int := by
  obtain ⟨n, hn⟩ := exists_unsigned_decimal z
  rw [Digits, hn]
  exact scan_digits Nat.toDigits_ne_nil fun c hc ↦ Python.isDigit_of_mem_toDigits hc

theorem digits_decimal_point (z : ℤ) : Digits (Python.decimal z ++ ['.', '0']) .frac := by
  have hdot : Digits (Python.decimal z ++ ['.']) .intDot := (digits_decimal z).concat rfl rfl
  have hzero : Digits (Python.decimal z ++ ['.'] ++ ['0']) .frac := hdot.concat rfl rfl
  rwa [List.append_assoc] at hzero

theorem trim_point (s : List Char) : trim (s ++ ['.', '0']) = s := by
  have hlen : (s ++ ['.', '0']).length - 2 = s.length := by simp
  rw [trim, hlen, List.drop_left, List.take_left, if_pos rfl]

/-- What `str` writes is never an integer without a point. -/
theorem Printed.ne_decimal (h : Printed s) (z : ℤ) : s ≠ Python.decimal z := by
  rintro rfl
  rcases h with hword | ⟨q, hq, hdigits, -⟩
  · have hall : ∀ w ∈ words, scan (unsigned w) = none := by decide
    exact Option.some_ne_none _ ((digits_decimal z).symm.trans (hall _ hword))
  · have hint : q = .int := Option.some.inj (hdigits.symm.trans (digits_decimal z))
    rcases hq with rfl | rfl <;> cases hint

/-- A text that `str` writes, and that is an integer without the `.0` at its end. -/
theorem Printed.eq_of_trim (h : Printed s) (htrim : FloatText.trim s = Python.decimal z) :
    s = Python.decimal z ++ ['.', '0'] := by
  by_cases hend : s.drop (s.length - 2) = ['.', '0']
  · rw [FloatText.trim, if_pos hend] at htrim
    rw [← htrim, ← hend, List.take_append_drop]
  · rw [FloatText.trim, if_neg hend] at htrim
    exact absurd htrim (h.ne_decimal z)

/-! ### An arithmetic of integers -/

/-- Arithmetic that is rounded to integers. -/
def integers : Floats ℤ where
  float s := if accepts s then some ((Python.int? (s.takeWhile (· ≠ '.'))).getD 0) else none
  str z := Python.decimal z ++ ['.', '0']
  neg z := -z
  add := (· + ·)
  sub := (· - ·)
  mul := (· * ·)
  div := (· / ·)
  nonzero z := z ≠ 0
  hundredth z := z / 100

theorem notMem_decimal (z : ℤ) : '.' ∉ Python.decimal z := by
  intro hmem
  rcases Python.mem_decimal hmem with h | h
  · cases h
  · cases h

theorem takeWhile_decimal (z : ℤ) (t : List Char) (ht : ∀ c ∈ t.head?, c = '.') :
    (Python.decimal z ++ t).takeWhile (· ≠ '.') = Python.decimal z := by
  have hall : ∀ c ∈ Python.decimal z, decide (c ≠ '.') = true :=
    fun c hc ↦ decide_eq_true fun heq ↦ notMem_decimal z (heq ▸ hc)
  rw [List.takeWhile_append_of_pos hall]
  cases t with
  | nil => exact List.append_nil _
  | cons c r =>
    rw [ht c rfl]
    exact List.append_nil _

theorem printed_decimal_point (z : ℤ) : Printed (Python.decimal z ++ ['.', '0']) := by
  refine Or.inr ⟨.frac, Or.inl rfl, digits_decimal_point z, ?_⟩
  obtain ⟨n, hn⟩ := exists_unsigned_decimal z
  obtain ⟨c, r, hcons⟩ := List.exists_cons_of_ne_nil (Nat.toDigits_ne_nil (n := n) (b := 10))
  rw [unsigned_append ((digits_decimal z).ne_nil rfl), hn, hcons]
  exact ⟨c, rfl, Python.isDigit_of_mem_toDigits (hcons ▸ List.mem_cons_self ..)⟩

theorem exact_integers : integers.Exact id where
  float_isSome s _ := by
    show (if accepts s then some _ else none).isSome = accepts s
    cases accepts s <;> rfl
  printed_str := printed_decimal_point
  float_str z := by
    show (if accepts (Python.decimal z ++ ['.', '0']) then
      some ((Python.int? ((Python.decimal z ++ ['.', '0']).takeWhile (· ≠ '.'))).getD 0)
        else none) = some z
    rw [if_pos ((digits_decimal_point z).accepts rfl),
      takeWhile_decimal z _ fun c hc ↦ (Option.mem_some_iff.1 hc).symm, Python.int?_decimal]
    rfl
  ofInt_ne y z hy hz := by
    rintro rfl
    exact hz hy
  float_decimal n _ := by
    have htake := takeWhile_decimal n [] (by simp)
    rw [List.append_nil] at htake
    show (if accepts (Python.decimal n) then some _ else none) = some (n : ℤ)
    rw [if_pos ((digits_decimal n).accepts rfl), htake, Python.int?_decimal]
    rfl
  str_ofInt _ _ := rfl
  add_ofInt _ _ _ _ := rfl
  sub_ofInt _ _ _ _ := rfl
  mul_ofInt _ _ _ _ := rfl

end FloatText
