import JuliusOS.Apps.Keys
import JuliusOS.Foundations.Floats

/-!
# Calculator

`src/apps/calculator/calculator.py`: the display is the number that is entered, a result, or
`Error`. The buttons convert it with `float`, or add characters to it. Only `=` and `%` expect that
the conversion may fail.

`calculator_iff` says which buttons, on which display, leave something that is no number, or raise.
-/

open FloatText

namespace JuliusOS.Apps

namespace Calculator

/-- The operators. -/
inductive Op
  | div
  | mul
  | sub
  | add
deriving DecidableEq

/-- The buttons. -/
inductive Button
  | digit (d : Fin 10)
  /-- `.` -/
  | point
  /-- `=` -/
  | equals
  /-- `C` -/
  | clear
  /-- The sign button. -/
  | negate
  /-- `%` -/
  | percent
  | op (o : Op)
deriving DecidableEq

end Calculator

/-- A `Calculator`. -/
structure Calculator where
  display : List Char
  prev : List Char
  /-- `op`, where it is not empty. -/
  op : Option Calculator.Op
  reset : Bool
deriving DecidableEq

namespace Calculator

/-- `__init__`. -/
def init : Calculator := ⟨['0'], [], none, false⟩

/-- `"Error"`. -/
def error : List Char := "Error".toList

variable {F : Type*} (M : Floats F)

/-- What the table of results has for an operator, where it is not `None`. -/
def opResult (a b : F) : Option Op → Option F
  | some .add => some (M.add a b)
  | some .sub => some (M.sub a b)
  | some .mul => some (M.mul a b)
  | some .div => if M.nonzero b then some (M.div a b) else none
  | none => none

/-- What `=` displays. -/
def result (c : Calculator) : List Char :=
  match M.float c.prev, M.float c.display with
  | some a, some b =>
    match opResult M a b c.op with
    | some x => trim (M.str x)
    | none => error
  | _, _ => error

/-- `press`. -/
def press (c : Calculator) : Button → Calculator × Bool
  | .clear => done ⟨['0'], [], none, false⟩
  | .negate =>
    if c.display = ['0'] then done c
    else
      match M.float c.display with
      | some x => done { c with display := trim (M.str (M.neg x)) }
      | none => (c, true)
  | .percent =>
    match M.float c.display with
    | some x => done { c with display := trim (M.str (M.hundredth x)) }
    | none => done { c with display := error }
  | .op o => done { c with prev := c.display, op := some o, reset := true }
  | .equals => done ⟨c.result M, [], none, false⟩
  | .point =>
    if c.reset then done { c with display := ['0', '.'], reset := false }
    else if '.' ∈ c.display then done c
    else done { c with display := c.display ++ ['.'] }
  | .digit d =>
    if c.display = ['0'] ∨ c.reset then
      done { c with display := [Nat.digitChar d], reset := false }
    else done { c with display := c.display ++ [Nat.digitChar d] }

/-! ### What the display holds -/

/-- What a display is for: it says `Error`, or `float` accepts it. -/
def Readable (s : List Char) : Prop := s = error ∨ (M.float s).isSome = true

/-- What it holds: `Error`, `inf` and the like, or a number. -/
def Shown (s : List Char) : Prop := s = error ∨ s ∈ words ∨ ∃ q, q.final = true ∧ Digits s q

/-- A display that is not a number. -/
def NotNumber (s : List Char) : Prop := s = error ∨ s ∈ words

/-- A button that leaves a readable display, and does not raise: the sign needs a display other than
`Error`, a digit one that is replaced or is a number, and a point one that is replaced, has a point,
or is a number without an exponent. -/
def Safe (c : Calculator) : Button → Prop
  | .negate => c.display ≠ error
  | .digit _ => c.reset = true ∨ ¬ NotNumber c.display
  | .point =>
    c.reset = true ∨ '.' ∈ c.display ∨ ¬ NotNumber c.display ∧ c.display.any isE = false
  | _ => True

variable {M} {c : Calculator} {s : List Char}

theorem isDigit_digitChar (d : Fin 10) : (Nat.digitChar d).isDigit = true := by
  revert d
  decide

theorem Shown.readable (hM : M.Texts) (h : Shown s) : Readable M s := by
  rcases h with rfl | hword | ⟨q, hq, hdigits⟩
  · exact Or.inl rfl
  · have hall : ∀ w ∈ words, Plain w ∧ accepts w = true := by decide
    exact Or.inr ((hM.float_isSome s (hall s hword).1).trans (hall s hword).2)
  · exact Or.inr ((hM.float_isSome s hdigits.plain).trans (hdigits.accepts hq))

theorem Shown.digits (h : Shown s) (hnumber : ¬ NotNumber s) : ∃ q, q.final = true ∧ Digits s q :=
  (h.resolve_left fun herror ↦ hnumber (Or.inl herror)).resolve_left fun hword ↦
    hnumber (Or.inr hword)

theorem shown_singleton {ch : Char} (hc : ch.isDigit = true) : Shown [ch] := by
  refine Or.inr (Or.inr ⟨.int, rfl, ?_⟩)
  rw [Digits, unsigned_of_digits (List.forall_mem_singleton.2 hc)]
  exact scan_digits (List.cons_ne_nil _ _) (List.forall_mem_singleton.2 hc)

theorem shown_trim_str (hM : M.Texts) (x : F) : Shown (trim (M.str x)) :=
  Or.inr (hM.printed_str x).trim

theorem shown_result (hM : M.Texts) (c : Calculator) : Shown (c.result M) := by
  rw [result]
  split
  · split
    · exact shown_trim_str hM _
    · exact Or.inl rfl
  · exact Or.inl rfl

/-- `float` reads a display, unless it says `Error`. -/
theorem exists_float (hM : M.Texts) (h : Shown s) (hne : s ≠ error) : ∃ x, M.float s = some x := by
  rw [← Option.isSome_iff_exists]
  exact (h.readable hM).resolve_left hne

theorem float_error (hM : M.Texts) : M.float error = none := by
  rw [← Option.not_isSome_iff_eq_none, hM.float_isSome error (by decide)]
  decide

/-- A text that `float` does not accept. -/
theorem not_readable (hM : M.Texts) (hplain : Plain s) (herror : s ≠ error)
    (hnot : accepts s = false) : ¬ Readable M s := by
  rintro (heq | hsome)
  · exact herror heq
  · rw [hM.float_isSome s hplain, hnot] at hsome
    cases hsome

/-- Nothing can be appended to a display that is not a number. -/
theorem not_readable_append (hM : M.Texts) (h : NotNumber s) (d : Fin 10) :
    ¬ Readable M (s ++ [Nat.digitChar d]) ∧ ¬ Readable M (s ++ ['.']) := by
  have hall : ∀ w ∈ error :: words, (∀ d : Fin 10, Plain (w ++ [Nat.digitChar d]) ∧
      w ++ [Nat.digitChar d] ≠ error ∧ accepts (w ++ [Nat.digitChar d]) = false) ∧
        Plain (w ++ ['.']) ∧ w ++ ['.'] ≠ error ∧ accepts (w ++ ['.']) = false := by
    decide +kernel
  obtain ⟨hdigit, hplain, herror, hnot⟩ := hall s (List.mem_cons.2 h)
  obtain ⟨hplain', herror', hnot'⟩ := hdigit d
  exact ⟨not_readable hM hplain' herror' hnot', not_readable hM hplain herror hnot⟩

/-! ### Every button -/

theorem safe_digit (hM : M.Texts) (h : Shown c.display) (d : Fin 10) :
    (Safe c (.digit d) → Shown (c.press M (.digit d)).1.display) ∧
      (¬ Safe c (.digit d) → ¬ Readable M (c.press M (.digit d)).1.display) := by
  rw [press]
  by_cases hreset : c.display = ['0'] ∨ c.reset = true
  · rw [if_pos hreset]
    refine ⟨fun _ ↦ shown_singleton (isDigit_digitChar d), fun hsafe ↦ ?_⟩
    refine absurd (hreset.symm.imp_right fun hzero ↦ ?_) hsafe
    rw [hzero]
    rintro (hnot | hnot)
    · exact absurd hnot (by decide)
    · exact absurd hnot (by decide)
  · rw [if_neg hreset]
    constructor
    · rintro (hon | hnumber)
      · exact absurd (Or.inr hon) hreset
      · obtain ⟨q, hq, hdigits⟩ := h.digits hnumber
        obtain ⟨q', hnext, hq'⟩ := next_digit (isDigit_digitChar d) hq
        exact Or.inr (Or.inr ⟨q', hq', hdigits.concat hq hnext⟩)
    · intro hsafe
      obtain ⟨-, hnot⟩ := not_or.1 hsafe
      exact (not_readable_append hM (not_not.1 hnot) d).1

/-- A number that has no point yet, and no exponent. -/
theorem eq_int_of_digits {q : Scan} (hq : q.final = true) (hdigits : Digits s q)
    (hpoint : '.' ∉ s) : q = .int ↔ s.any isE = false := by
  have hexp : q.exponent = (unsigned s).any isE := exponent_of_scan hdigits
  have hany : (unsigned s).any isE = s.any isE := by
    rw [Bool.eq_iff_iff, List.any_eq_true, List.any_eq_true]
    refine ⟨fun ⟨d, hd, hE⟩ ↦ ⟨d, mem_of_mem_unsigned hd, hE⟩, fun ⟨d, hd, hE⟩ ↦ ?_⟩
    rcases mem_unsigned hd with hd | rfl | rfl
    · exact ⟨d, hd, hE⟩
    · cases hE
    · cases hE
  have hdot : q.dotted = false :=
    eq_false_of_ne_true fun hd ↦ hpoint (mem_of_mem_unsigned (mem_of_dotted hdigits hd))
  rw [← hany, ← hexp]
  cases q with
  | int => exact iff_of_true rfl rfl
  | exp => exact iff_of_false (fun h ↦ Scan.noConfusion h) (fun h ↦ Bool.noConfusion h)
  | intDot | frac => cases hdot
  | _ => cases hq

theorem safe_point (hM : M.Texts) (h : Shown c.display) :
    (Safe c .point → Shown (c.press M .point).1.display) ∧
      (¬ Safe c .point → ¬ Readable M (c.press M .point).1.display) := by
  have hzero : Shown ['0', '.'] := Or.inr (Or.inr ⟨.intDot, rfl, rfl⟩)
  rw [press]
  by_cases hreset : c.reset = true
  · rw [if_pos hreset]
    exact ⟨fun _ ↦ hzero, fun hsafe ↦ absurd (Or.inl hreset) hsafe⟩
  · rw [if_neg hreset]
    by_cases hpoint : '.' ∈ c.display
    · rw [if_pos hpoint]
      exact ⟨fun _ ↦ h, fun hsafe ↦ absurd (Or.inr (Or.inl hpoint)) hsafe⟩
    · rw [if_neg hpoint]
      by_cases hnumber : NotNumber c.display
      · refine ⟨?_, fun _ ↦ (not_readable_append hM hnumber 0).2⟩
        rintro (hon | hmem | ⟨hnot, -⟩)
        · exact absurd hon hreset
        · exact absurd hmem hpoint
        · exact absurd hnumber hnot
      · obtain ⟨q, hq, hdigits⟩ := h.digits hnumber
        have hint := eq_int_of_digits hq hdigits hpoint
        constructor
        · rintro (hon | hmem | ⟨-, hany⟩)
          · exact absurd hon hreset
          · exact absurd hmem hpoint
          · have hq' := hint.2 hany
            rw [hq'] at hdigits
            exact Or.inr (Or.inr ⟨.intDot, rfl, hdigits.concat rfl rfl⟩)
        · intro hsafe
          have hne : q ≠ .int :=
            fun hq' ↦ hsafe (Or.inr (Or.inr ⟨hnumber, hint.1 hq'⟩))
          have hplain : Plain (c.display ++ ['.']) :=
            List.forall_mem_append.2 ⟨hdigits.plain, List.forall_mem_singleton.2 (by decide)⟩
          refine not_readable hM hplain (fun herror ↦ ?_) (hdigits.not_accepts_dot hq hne)
          have hlast : (c.display ++ ['.']).getLast? = error.getLast? := congrArg _ herror
          rw [List.getLast?_concat] at hlast
          cases hlast

theorem safe_negate (hM : M.Texts) (h : Shown c.display) :
    (Safe c .negate → (c.press M .negate).2 = false ∧ Shown (c.press M .negate).1.display) ∧
      (¬ Safe c .negate → (c.press M .negate).2 = true) := by
  rw [press]
  by_cases hzero : c.display = ['0']
  · rw [if_pos hzero]
    refine ⟨fun _ ↦ ⟨rfl, h⟩, fun hsafe ↦ absurd (fun herror ↦ ?_) hsafe⟩
    exact absurd (hzero.symm.trans herror) (by decide)
  · rw [if_neg hzero]
    refine ⟨fun hne ↦ ?_, fun hsafe ↦ ?_⟩
    · obtain ⟨x, hx⟩ := exists_float hM h hne
      rw [hx]
      exact ⟨rfl, shown_trim_str hM _⟩
    · have herror : c.display = error := not_not.1 hsafe
      rw [herror, float_error hM]

/-- **The exact condition for a calculator that does not break.** After any buttons no exception was
raised and every display was `Error` or a text that `float` accepts, if and only if every button was
safe on the display it was pressed on. -/
theorem calculator_iff (hM : M.Texts) (bs : List Button) :
    (Calls.machine (· = init) (press M)).Guarded (fun s b ↦ Safe s.object b) (Calls.start init) bs ↔
      ∀ n u, (Calls.machine (· = init) (press M)).run (Calls.start init) (bs.take n) = some u →
        u.raised = false ∧ Readable M u.object.display := by
  have hinit : Shown init.display := shown_singleton (by decide)
  refine Calls.guarded_iff (I := fun c : Calculator ↦ Readable M c.display)
    (K := fun c : Calculator ↦ Shown c.display) (fun c h ↦ h.readable hM) ?_ ?_ hinit bs
  · intro c b h hsafe
    cases b with
    | negate => exact (safe_negate hM h).1 hsafe
    | digit d =>
      refine ⟨?_, (safe_digit hM h d).1 hsafe⟩
      rw [press]
      split <;> rfl
    | point =>
      refine ⟨?_, (safe_point hM h).1 hsafe⟩
      rw [press]
      split
      · rfl
      · split <;> rfl
    | clear => exact ⟨rfl, hinit⟩
    | op o => exact ⟨rfl, h⟩
    | equals => exact ⟨rfl, shown_result hM c⟩
    | percent =>
      rw [press]
      split
      · exact ⟨rfl, shown_trim_str hM _⟩
      · exact ⟨rfl, Or.inl rfl⟩
  · intro c b h hunsafe
    cases b with
    | negate => exact Or.inl ((safe_negate hM h).2 hunsafe)
    | digit d => exact Or.inr ((safe_digit hM h d).2 hunsafe)
    | point => exact Or.inr ((safe_point hM h).2 hunsafe)
    | clear => exact absurd trivial hunsafe
    | op o => exact absurd trivial hunsafe
    | equals => exact absurd trivial hunsafe
    | percent => exact absurd trivial hunsafe

/-- What there is after `=` and the sign, on a calculator that was not used before. -/
def raisedByNegate : Calls.State Calculator := ⟨⟨error, [], none, false⟩, true⟩

theorem run_equals_negate :
    (Calls.machine (· = init) (press integers)).run (Calls.start init) [.equals, .negate] =
      some raisedByNegate := rfl

theorem calculator_iff_equals_negate :
    ¬ (Calls.machine (· = init) (press integers)).Guarded (fun s b ↦ Safe s.object b)
        (Calls.start init) [.equals, .negate] := by
  intro hguard
  have hfine := (calculator_iff exact_integers.toTexts _).1 hguard 2 _ run_equals_negate
  cases hfine.1

/-- The sign raises where the display says `Error`, and a digit is added to it. -/
theorem error_is_edited :
    (Calls.machine (· = init) (press integers)).run (Calls.start init) [.equals, .negate] =
        some raisedByNegate ∧
      (press integers raisedByNegate.object (.digit 5)).1.display = "Error5".toList ∧
        ¬ Readable integers "Error5".toList :=
  ⟨run_equals_negate, rfl, not_readable exact_integers.toTexts (by decide) (by decide) (by decide)⟩

end Calculator

end JuliusOS.Apps
