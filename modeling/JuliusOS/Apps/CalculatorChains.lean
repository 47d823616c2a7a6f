import JuliusOS.Apps.Calculator
import Mathlib.Algebra.Order.Ring.Int

/-!
# Chains of operations

What is entered as `n1 op1 n2 op2 ... nk =`. An operator keeps the number on the display and forgets
the one that was kept before, with its operator. So `=` combines the last two numbers only.

`chain_iff`: when that is what the whole chain comes to, from left to right.
-/

open FloatText Floats

namespace JuliusOS.Apps.Calculator

/-- A number that is entered digit by digit. -/
structure Entry where
  digits : List (Fin 10)
  ne_nil : digits ≠ []

/-- The number. -/
def valueOf (digits : List (Fin 10)) : ℕ := digits.foldl (fun (n : ℕ) (d : Fin 10) ↦ 10 * n + d) 0

def Entry.value (e : Entry) : ℕ := valueOf e.digits

/-- The operators other than division. -/
inductive RingOp
  | add
  | sub
  | mul
deriving DecidableEq

def RingOp.op : RingOp → Op
  | add => .add
  | sub => .sub
  | mul => .mul

/-- What the operator does to integers. -/
def RingOp.eval : RingOp → ℤ → ℤ → ℤ
  | add, x, y => x + y
  | sub, x, y => x - y
  | mul, x, y => x * y

/-- The buttons of a number. -/
def Entry.buttons (e : Entry) : List Button := e.digits.map .digit

/-- The buttons of an operator and the number after it. -/
def operation (p : RingOp × Entry) : List Button := .op p.1.op :: p.2.buttons

/-- The buttons of a chain. -/
def chain (first : Entry) (rest : List (RingOp × Entry)) : List Button :=
  first.buttons ++ rest.flatMap operation ++ [.equals]

/-- What a chain comes to, from left to right. -/
def leftToRight (first : Entry) (rest : List (RingOp × Entry)) : ℤ :=
  rest.foldl (fun z p ↦ p.1.eval z p.2.value) first.value

variable {F : Type*} (M : Floats F)

/-- Some buttons, one after the other. -/
def pressAll (c : Calculator) (bs : List Button) : Calculator :=
  bs.foldl (fun c b ↦ (c.press M b).1) c

variable {M} {c : Calculator} {ofInt : ℤ → F}

theorem pressAll_append (c : Calculator) (bs bs' : List Button) :
    pressAll M c (bs ++ bs') = pressAll M (pressAll M c bs) bs' := List.foldl_append

/-! ### Numbers -/

theorem toDigits_eq_zero_iff {n : ℕ} : Nat.toDigits 10 n = ['0'] ↔ n = 0 := by
  constructor
  · intro h
    have hread := Python.nat?_toDigits n
    rw [h] at hread
    exact (Option.some.inj hread).symm
  · rintro rfl
    rfl

theorem valueOf_concat (ds : List (Fin 10)) (d : Fin 10) :
    valueOf (ds ++ [d]) = 10 * valueOf ds + d := by
  rw [valueOf, List.foldl_append]
  rfl

/-- Digits that are entered replace what is displayed, and show their number. -/
theorem pressAll_digits {ds : List (Fin 10)} (hne : ds ≠ [])
    (hfresh : c.display = ['0'] ∨ c.reset = true) :
    pressAll M c (ds.map .digit) =
      { c with display := Nat.toDigits 10 (valueOf ds), reset := false } := by
  induction ds using List.reverseRecOn with
  | nil => exact absurd rfl hne
  | append_singleton ds d ih =>
    have hd : Nat.toDigits 10 d = [Nat.digitChar d] := Nat.toDigits_of_lt_base d.isLt
    rw [List.map_append, pressAll_append, valueOf_concat]
    by_cases hnil : ds = []
    · rw [hnil]
      show (c.press M (.digit d)).1 = _
      rw [press, if_pos hfresh]
      show _ = { c with display := Nat.toDigits 10 (10 * 0 + d), reset := false }
      rw [Nat.mul_zero, Nat.zero_add, hd]
      rfl
    · rw [ih hnil]
      show (press M _ (.digit d)).1 = _
      rw [press]
      by_cases hzero : valueOf ds = 0
      · rw [if_pos (Or.inl (toDigits_eq_zero_iff.2 hzero)), hzero, Nat.mul_zero, Nat.zero_add, hd]
        rfl
      · rw [if_neg (by simp [toDigits_eq_zero_iff, hzero]),
          ← Nat.toDigits_append_toDigits (by decide) (Nat.pos_of_ne_zero hzero) d.isLt, hd]
        rfl

/-- The display shows a number that was entered. -/
def Entered (c : Calculator) (e : Entry) : Prop :=
  c.display = Python.decimal e.value ∧ c.reset = false

theorem entered_first (first : Entry) : Entered (pressAll M init first.buttons) first := by
  rw [Entry.buttons, pressAll_digits first.ne_nil (Or.inl rfl)]
  exact ⟨rfl, rfl⟩

/-- An operator and a number after a number: the two numbers and the operator are kept. -/
theorem pressAll_operation {e : Entry} (h : Entered c e) (p : RingOp × Entry) :
    pressAll M c (operation p) =
      ⟨Python.decimal p.2.value, Python.decimal e.value, some p.1.op, false⟩ := by
  rw [operation, ← List.singleton_append, pressAll_append, Entry.buttons,
    pressAll_digits p.2.ne_nil (Or.inr rfl), ← h.1]
  rfl

theorem Entered.operations {e : Entry} (h : Entered c e) (rest : List (RingOp × Entry)) :
    Entered (pressAll M c (rest.flatMap operation)) ((rest.map Prod.snd).getLastD e) := by
  induction rest generalizing c e with
  | nil => exact h
  | cons p rest ih =>
    rw [List.flatMap_cons, pressAll_append, List.map_cons, List.getLastD_cons]
    refine ih ?_
    rw [pressAll_operation h p]
    exact ⟨rfl, rfl⟩

/-! ### Results -/

/-- What is displayed of an integer that is correctly rounded. -/
theorem trim_str_iff (hM : M.Exact ofInt) {y z : ℤ} (hy : Small y) :
    trim (M.str (ofInt z)) = Python.decimal y ↔ z = y := by
  constructor
  · intro htrim
    have hstr : M.str (ofInt z) = M.str (ofInt y) :=
      ((hM.printed_str (ofInt z)).eq_of_trim htrim).trans (hM.str_ofInt y hy).symm
    have hsame : ofInt z = ofInt y := by
      have hread := hM.float_str (ofInt z)
      rw [hstr, hM.float_str (ofInt y)] at hread
      exact (Option.some.inj hread).symm
    by_cases hz : Small z
    · have htext : Python.decimal z = Python.decimal y := by
        rw [hM.str_ofInt z hz, trim_point] at htrim
        exact htrim
      have hread := Python.int?_decimal z
      rw [htext, Python.int?_decimal] at hread
      exact (Option.some.inj hread).symm
    · exact absurd hsame (hM.ofInt_ne y z hy hz)
  · rintro rfl
    rw [hM.str_ofInt z hy, trim_point]

/-- What `=` displays of two small numbers. -/
theorem result_eq (hM : M.Exact ofInt) {m n : ℕ} (hm : Small m) (hn : Small n) (o : RingOp)
    (reset : Bool) :
    result M ⟨Python.decimal n, Python.decimal m, some o.op, reset⟩ =
      trim (M.str (ofInt (o.eval m n))) := by
  rw [result, hM.float_decimal m hm, hM.float_decimal n hn]
  cases o with
  | add =>
    show trim (M.str (M.add _ _)) = _
    rw [hM.add_ofInt m n hm hn]
    rfl
  | sub =>
    show trim (M.str (M.sub _ _)) = _
    rw [hM.sub_ofInt m n hm hn]
    rfl
  | mul =>
    show trim (M.str (M.mul _ _)) = _
    rw [hM.mul_ofInt m n hm hn]
    rfl

/-- When two numbers on the left give the same. -/
theorem eval_eq_iff (o : RingOp) (x y z : ℤ) :
    o.eval x z = o.eval y z ↔ x = y ∨ o = .mul ∧ z = 0 := by
  cases o with
  | add =>
    show x + z = y + z ↔ _
    simp
  | sub =>
    show x - z = y - z ↔ _
    simp
  | mul =>
    show x * z = y * z ↔ _
    simp

/-- **The exact condition for a chain.** Where all the numbers and all the results are small, a
calculator that was cleared displays what the chain comes to from left to right, if and only if what
comes before the last operator comes to the number right before it, or is multiplied by 0. -/
theorem chain_iff (hM : M.Exact ofInt) (c : Calculator) (first : Entry)
    (rest : List (RingOp × Entry)) (o : RingOp) (last : Entry)
    (hentries : ∀ e ∈ first :: (rest ++ [(o, last)]).map Prod.snd, Small e.value)
    (hresults : ∀ n, Small (leftToRight first ((rest ++ [(o, last)]).take n))) :
    (pressAll M c (.clear :: chain first (rest ++ [(o, last)]))).display =
        Python.decimal (leftToRight first (rest ++ [(o, last)])) ↔
      leftToRight first rest = ((rest.map Prod.snd).getLastD first).value ∨
        o = .mul ∧ last.value = 0 := by
  have hbefore := (entered_first (M := M) first).operations (M := M) rest
  have hmem : (rest.map Prod.snd).getLastD first ∈ first :: rest.map Prod.snd := by
    rw [List.getLastD_eq_getLast?]
    cases hlast : (rest.map Prod.snd).getLast? with
    | none => exact List.mem_cons_self ..
    | some e => exact List.mem_cons_of_mem _ (List.mem_of_getLast? hlast)
  have hm : Small ((rest.map Prod.snd).getLastD first).value := by
    refine hentries _ ?_
    rw [List.map_append]
    rcases List.mem_cons.1 hmem with heq | hmem
    · rw [heq]
      exact List.mem_cons_self ..
    · exact List.mem_cons_of_mem _ (List.mem_append_left _ hmem)
  have hn : Small last.value := hentries _ (by simp)
  have hy : Small (leftToRight first (rest ++ [(o, last)])) := by
    have hall := hresults (rest ++ [(o, last)]).length
    rwa [List.take_length] at hall
  have hvalue : leftToRight first (rest ++ [(o, last)]) =
      o.eval (leftToRight first rest) last.value := by
    rw [leftToRight, List.foldl_append]
    rfl
  have hpressed : (pressAll M c (.clear :: chain first (rest ++ [(o, last)]))).display =
      trim (M.str (ofInt (o.eval ((rest.map Prod.snd).getLastD first).value last.value))) := by
    show (pressAll M init (chain first (rest ++ [(o, last)]))).display = _
    rw [chain, pressAll_append, List.flatMap_append, ← List.append_assoc, pressAll_append,
      pressAll_append, List.flatMap_singleton, pressAll_operation hbefore (o, last)]
    exact result_eq hM hm hn o false
  rw [hpressed, trim_str_iff hM hy, hvalue, eval_eq_iff, eq_comm, Int.natCast_eq_zero]

/-- A number of one digit. -/
def Entry.digit (d : Fin 10) : Entry := ⟨[d], List.cons_ne_nil d []⟩

/-- `7 * 8 =` -/
theorem chain_iff_seven_times_eight :
    (pressAll integers init (.clear :: chain (.digit 7) [(.mul, .digit 8)])).display =
      Python.decimal 56 := by
  refine (chain_iff exact_integers init (.digit 7) [] .mul (.digit 8) ?_ ?_).2 (Or.inl rfl)
  · intro e he
    rcases List.mem_cons.1 he with rfl | he
    · decide
    · rw [List.mem_singleton.1 he]
      decide
  · intro n
    cases n with
    | zero => decide
    | succ n =>
      rw [List.nil_append, List.take_of_length_le (by simp)]
      decide

/-- `1 + 2 + 3 =` displays 5. -/
theorem chain_forgets :
    integers.Exact id ∧
      (pressAll integers init
        (.clear :: chain (.digit 1) [(.add, .digit 2), (.add, .digit 3)])).display = ['5'] ∧
        Python.decimal (leftToRight (.digit 1) [(.add, .digit 2), (.add, .digit 3)]) = ['6'] :=
  ⟨exact_integers, by decide +kernel, by decide +kernel⟩

end JuliusOS.Apps.Calculator
