import JuliusOS.Foundations.Machine

/-!
# Objects whose methods are called

An object is called with one argument after another. A call may raise, and what it has changed by
then stays: `call a e` is the object afterwards, and whether the call has raised. As a machine
(`machine`) the object remembers whether any call has raised so far, and every list of arguments is
a run.

A guard on the object and the argument is exact for a property of objects if the property fails, or
the call raises, where the guard does (`guarded_iff`, and `guarded_object_iff` where it does not
matter whether a call raises).
-/

namespace Calls

variable {α ε : Type*}

/-- An object between two calls. -/
structure State (α : Type*) where
  object : α
  /-- A call has raised. -/
  raised : Bool

/-- An object that has not been called yet. -/
def start (a : α) : State α := ⟨a, false⟩

/-- The calls as a machine. -/
def machine (Init : α → Prop) (call : α → ε → α × Bool) : Machine (State α) ε where
  Init s := ∃ a, Init a ∧ s = start a
  step s e := some ⟨(call s.object e).1, s.raised || (call s.object e).2⟩

variable {Init : α → Prop} {call : α → ε → α × Bool} {ok : α → ε → Prop} {I K : α → Prop}

theorem exists_run (Init : α → Prop) (call : α → ε → α × Bool) (s : State α) (es : List ε) :
    ∃ t, (machine Init call).run s es = some t :=
  Machine.exists_run_of_total (fun _ _ ↦ ⟨_, rfl⟩) s es

/-- What every call preserves holds of the object of every reachable state. -/
theorem object_of_reachable (hinit : ∀ a, Init a → K a) (hcall : ∀ a e, K a → K (call a e).1)
    {s : State α} (h : (machine Init call).Reachable s) : K s.object := by
  refine h.induction (I := fun s ↦ K s.object) ?_ ?_
  · rintro s ⟨a, ha, rfl⟩
    exact hinit a ha
  · rintro s e s' hs hstep
    obtain rfl := Option.some.inj hstep
    exact hcall s.object e hs

/-- **The exact rule for calls.** The calls all meet the guard exactly if none raises and the
object has the property after each. -/
theorem guarded_iff (hI : ∀ a, K a → I a)
    (hok : ∀ a e, K a → ok a e → (call a e).2 = false ∧ K (call a e).1)
    (hnot : ∀ a e, K a → ¬ ok a e → (call a e).2 = true ∨ ¬ I (call a e).1) {a : α} (ha : K a)
    (es : List ε) :
    (machine Init call).Guarded (fun s e ↦ ok s.object e) (start a) es ↔
      ∀ n u, (machine Init call).run (start a) (es.take n) = some u →
        u.raised = false ∧ I u.object := by
  obtain ⟨t, hrun⟩ := exists_run Init call (start a) es
  refine Machine.guarded_iff_of_invariant (I := fun u : State α ↦ u.raised = false ∧ I u.object)
    (K := fun u : State α ↦ u.raised = false ∧ K u.object) (fun s h ↦ ⟨h.1, hI s.object h.2⟩)
    ?_ ?_ ⟨rfl, ha⟩ hrun
  · rintro s e s' ⟨hraised, hK⟩ hguard hstep
    obtain rfl := Option.some.inj hstep
    obtain ⟨hcall, hK'⟩ := hok s.object e hK hguard
    exact ⟨by rw [hraised, hcall]; rfl, hK'⟩
  · rintro s e s' ⟨-, hK⟩ hguard hstep ⟨hraised, hI'⟩
    obtain rfl := Option.some.inj hstep
    rcases hnot s.object e hK hguard with hcall | hleft
    · rw [hcall, Bool.or_true] at hraised
      cases hraised
    · exact hleft hI'

/-- The rule where the property is an invariant as it is, or in another form. -/
theorem guarded_iff_of_call_iff (hI : ∀ a, K a ↔ I a)
    (hcall : ∀ a e, K a → ((call a e).2 = false ∧ K (call a e).1 ↔ ok a e)) {a : α} (ha : K a)
    (es : List ε) :
    (machine Init call).Guarded (fun s e ↦ ok s.object e) (start a) es ↔
      ∀ n u, (machine Init call).run (start a) (es.take n) = some u →
        u.raised = false ∧ I u.object := by
  refine guarded_iff (fun a ↦ (hI a).1) (fun a e h ↦ (hcall a e h).2) (fun a e h hnot ↦ ?_) ha es
  by_contra hgood
  obtain ⟨hraise, hleft⟩ := not_or.1 hgood
  exact hnot ((hcall a e h).1 ⟨eq_false_of_ne_true hraise, (hI _).2 (not_not.1 hleft)⟩)

/-- **The exact rule for what calls leave**, whether they raise or not. -/
theorem guarded_object_iff (hI : ∀ a, K a → I a) (hok : ∀ a e, K a → ok a e → K (call a e).1)
    (hnot : ∀ a e, K a → ¬ ok a e → ¬ I (call a e).1) {a : α} (ha : K a) (es : List ε) :
    (machine Init call).Guarded (fun s e ↦ ok s.object e) (start a) es ↔
      ∀ n u, (machine Init call).run (start a) (es.take n) = some u → I u.object := by
  obtain ⟨t, hrun⟩ := exists_run Init call (start a) es
  refine Machine.guarded_iff_of_invariant (I := fun u : State α ↦ I u.object)
    (K := fun u : State α ↦ K u.object) (fun s h ↦ hI s.object h) ?_ ?_ ha hrun
  · intro s e s' hK hguard hstep
    obtain rfl := Option.some.inj hstep
    exact hok s.object e hK hguard
  · intro s e s' hK hguard hstep
    obtain rfl := Option.some.inj hstep
    exact hnot s.object e hK hguard

end Calls
