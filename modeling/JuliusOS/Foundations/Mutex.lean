import Mathlib.Logic.Basic

/-!
# A mutex and those who hold it

A mutex is the name of its owner, if it has one. Whoever is between `lock` and `unlock` in its
program **holds** it; that such a one is the owner is an invariant of programs in which every step
keeps, takes or releases the mutex (`Guards.move`), and then no two hold it at once
(`Guards.unique`).
-/

namespace Mutex

variable {ω : Type*}

/-- Whoever holds the mutex owns it. -/
def Guards (owner : Option ω) (holds : ω → Prop) : Prop := ∀ o, holds o → owner = some o

/-- What a step of `o` may do to the mutex and to where `o` is: `h` and `h'` say whether it holds
the mutex before and after. -/
inductive Moves (o : ω) : Option ω → Prop → Option ω → Prop → Prop
  /-- Neither `lock` nor `unlock`. -/
  | keep {owner : Option ω} {h h' : Prop} (hh : h' → h) : Moves o owner h owner h'
  /-- `lock` returns. -/
  | take {h h' : Prop} : Moves o none h (some o) h'
  /-- `unlock`. -/
  | release {owner : Option ω} {h h' : Prop} (hh : h) (hh' : ¬ h') : Moves o owner h none h'

namespace Guards

variable {owner owner' : Option ω} {holds holds' : ω → Prop} {o o' : ω}

/-- At most one holds the mutex. -/
theorem unique (hguard : Guards owner holds) (ho : holds o) (ho' : holds o') : o = o' :=
  Option.some.inj ((hguard o ho).symm.trans (hguard o' ho'))

/-- Nobody holds a mutex that is free. -/
theorem not_holds (hguard : Guards none holds) (o : ω) : ¬ holds o :=
  fun ho ↦ nomatch hguard o ho

/-- **The step rule.** A step of `o` leaves the others where they are. -/
theorem move (hguard : Guards owner holds) (hmove : Moves o owner (holds o) owner' (holds' o))
    (hothers : ∀ o', o' ≠ o → holds' o' → holds o') : Guards owner' holds' := by
  intro o' ho'
  by_cases hne : o' = o
  · subst hne
    cases hmove with
    | keep hh => exact hguard o' (hh ho')
    | take => rfl
    | release _ hh' => exact absurd ho' hh'
  · have hholds := hothers o' hne ho'
    cases hmove with
    | keep => exact hguard o' hholds
    | take => exact absurd hholds (hguard.not_holds o')
    | release hh => exact absurd (hguard.unique hholds hh) hne

end Guards

end Mutex
