import Mathlib.Data.List.Basic

/-!
# Machines and their runs

A machine has states, labels and a partial step function: `step s l` is the state after the
step that `l` names, and `none` where that step is not enabled. All nondeterminism (which
thread moves, what the kernel returns, what a peer sends) is in the label, so a run is a list
of labels, it can be evaluated, and a property of *every* run is a property of every list.

A run may be restricted by a **guard** `ok`, a condition on the state before each step and
the label taken there; `Guarded` says that every step of the run meets it. The guard `⊤` is
the unrestricted case, and a machine's reachable states are those of its unrestricted runs.

The rules are the usual three: a step lemma gives a run lemma (`invariant_of_guarded`), the
run lemma gives an invariant of reachable states (`Reachable.induction`), and runs compose
(`run_append`), so a run can be cut at the step one is interested in. A machine that is seen through
another one reaches what the other one does (`Reachable.simulation`). `Forces` is about a player
who chooses some of the labels while an environment takes the others.
-/

/-- A labelled machine with a partial step function. -/
structure Machine (σ ℓ : Type*) where
  /-- The states a run may start in. -/
  Init : σ → Prop
  /-- The state after the step that the label names, where that step is enabled. -/
  step : σ → ℓ → Option σ

namespace Machine

variable {σ ℓ : Type*} (M : Machine σ ℓ)

/-- The state after a list of steps, where all of them are enabled. -/
def run : σ → List ℓ → Option σ
  | s, [] => some s
  | s, l :: ls => (M.step s l).bind fun s' ↦ run s' ls

/-- Every step of a run meets the guard, in the state the step is taken from. -/
def Guarded (ok : σ → ℓ → Prop) : σ → List ℓ → Prop
  | _, [] => True
  | s, l :: ls => ok s l ∧ ∀ s', M.step s l = some s' → Guarded ok s' ls

instance instDecidableGuarded (ok : σ → ℓ → Prop) [∀ s l, Decidable (ok s l)] :
    ∀ s ls, Decidable (M.Guarded ok s ls)
  | _, [] => inferInstanceAs (Decidable True)
  | s, l :: ls =>
    have (s' : σ) : Decidable (M.Guarded ok s' ls) := instDecidableGuarded ok s' ls
    inferInstanceAs (Decidable (ok s l ∧ ∀ s' ∈ M.step s l, M.Guarded ok s' ls))

/-- A state that some run from an initial state ends in. -/
def Reachable (s : σ) : Prop := ∃ s₀ ls, M.Init s₀ ∧ M.run s₀ ls = some s

/-- What the steps of a run put out, in order. -/
def outputs {ω : Type*} (out : σ → ℓ → List ω) : σ → List ℓ → List ω
  | _, [] => []
  | s, l :: ls => out s l ++ ((M.step s l).elim [] fun s' ↦ outputs out s' ls)

@[simp] theorem run_nil (s : σ) : M.run s [] = some s := rfl

theorem run_cons (s : σ) (l : ℓ) (ls : List ℓ) :
    M.run s (l :: ls) = (M.step s l).bind fun s' ↦ M.run s' ls := rfl

/-- A run that takes a step first takes it to some state and runs on from there. -/
theorem run_cons_eq_some {s t : σ} {l : ℓ} {ls : List ℓ} :
    M.run s (l :: ls) = some t ↔ ∃ s', M.step s l = some s' ∧ M.run s' ls = some t := by
  rw [run_cons, Option.bind_eq_some_iff]

/-- Runs compose. -/
theorem run_append (s : σ) (ls ls' : List ℓ) :
    M.run s (ls ++ ls') = (M.run s ls).bind fun s' ↦ M.run s' ls' := by
  induction ls generalizing s with
  | nil => rfl
  | cons l ls ih =>
    rw [List.cons_append, run_cons, run_cons, Option.bind_assoc]
    exact congrArg _ (funext fun s' ↦ ih s')

theorem run_append_eq_some {s t : σ} {ls ls' : List ℓ} :
    M.run s (ls ++ ls') = some t ↔ ∃ s', M.run s ls = some s' ∧ M.run s' ls' = some t := by
  rw [run_append, Option.bind_eq_some_iff]

/-- A step at the end of a run. -/
theorem run_append_singleton {s t : σ} {ls : List ℓ} {l : ℓ} :
    M.run s (ls ++ [l]) = some t ↔ ∃ s', M.run s ls = some s' ∧ M.step s' l = some t := by
  simp [run_append_eq_some, run_cons]

/-- What a run of two parts puts out. -/
theorem outputs_append {ω : Type*} {out : σ → ℓ → List ω} {s t : σ} {ls : List ℓ}
    (hrun : M.run s ls = some t) (ls' : List ℓ) :
    M.outputs out s (ls ++ ls') = M.outputs out s ls ++ M.outputs out t ls' := by
  induction ls generalizing s with
  | nil =>
    rw [run_nil, Option.some.injEq] at hrun
    rw [hrun]
    rfl
  | cons l ls ih =>
    obtain ⟨s', hs', hrest⟩ := M.run_cons_eq_some.1 hrun
    rw [List.cons_append, outputs, outputs, hs', Option.elim_some, Option.elim_some, ih hrest,
      List.append_assoc]

/-- A step at the end of a run adds what it puts out. -/
theorem outputs_append_singleton {ω : Type*} {out : σ → ℓ → List ω} {s t t' : σ} {ls : List ℓ}
    {l : ℓ} (hrun : M.run s ls = some t) (hstep : M.step t l = some t') :
    M.outputs out s (ls ++ [l]) = M.outputs out s ls ++ out t l := by
  rw [M.outputs_append hrun, outputs, hstep, Option.elim_some, outputs, List.append_nil]

/-- A run of two parts is guarded exactly if the parts are. -/
theorem guarded_append_iff {ok : σ → ℓ → Prop} {s : σ} {ls ls' : List ℓ} :
    M.Guarded ok s (ls ++ ls') ↔
      M.Guarded ok s ls ∧ ∀ t, M.run s ls = some t → M.Guarded ok t ls' := by
  induction ls generalizing s with
  | nil => exact ⟨fun h ↦ ⟨trivial, fun t ht ↦ Option.some.inj ht ▸ h⟩, fun h ↦ h.2 s rfl⟩
  | cons l ls ih =>
    rw [List.cons_append, Guarded, Guarded, and_assoc]
    refine and_congr_right fun _ ↦ ?_
    constructor
    · intro h
      refine ⟨fun s' hs' ↦ (ih.1 (h s' hs')).1, fun t ht ↦ ?_⟩
      obtain ⟨s', hs', hrest⟩ := M.run_cons_eq_some.1 ht
      exact (ih.1 (h s' hs')).2 t hrest
    · rintro ⟨h, h'⟩ s' hs'
      exact ih.2 ⟨h s' hs', fun t ht ↦ h' t (M.run_cons_eq_some.2 ⟨s', hs', ht⟩)⟩

/-- A step at the end of a run has to meet the guard, too. -/
theorem guarded_append_singleton {ok : σ → ℓ → Prop} {s t : σ} {ls : List ℓ} {l : ℓ}
    (hrun : M.run s ls = some t) :
    M.Guarded ok s (ls ++ [l]) ↔ M.Guarded ok s ls ∧ ok t l := by
  rw [M.guarded_append_iff, hrun]
  refine and_congr_right fun _ ↦ ?_
  simp only [Option.some.injEq, forall_eq', Guarded]
  exact and_iff_left fun _ _ ↦ trivial

variable {M}

/-- **The run rule.** What every guarded step preserves, every guarded run preserves. -/
theorem invariant_of_guarded {ok : σ → ℓ → Prop} {I : σ → Prop}
    (hstep : ∀ s l s', I s → ok s l → M.step s l = some s' → I s') :
    ∀ {ls : List ℓ} {s t : σ}, I s → M.Guarded ok s ls → M.run s ls = some t → I t := by
  intro ls
  induction ls with
  | nil =>
    intro s t hs _ hrun
    rw [run_nil, Option.some.injEq] at hrun
    exact hrun ▸ hs
  | cons l ls ih =>
    intro s t hs hok hrun
    obtain ⟨s', hs', hrest⟩ := M.run_cons_eq_some.1 hrun
    exact ih (hstep s l s' hs hok.1 hs') (hok.2 s' hs') hrest

/-- **The exact run rule.** If `I` holds initially and a step from `I` stays in `I` exactly where
the guard holds, then a run is guarded exactly if all the states it visits are in `I`. Steps from
`I` may rest on a `J` that they preserve. -/
theorem guarded_iff_forall_take {ok : σ → ℓ → Prop} {I J : σ → Prop}
    (hstep : ∀ s l s', J s → I s → M.step s l = some s' → J s' ∧ (ok s l ↔ I s')) :
    ∀ {ls : List ℓ} {s t : σ}, J s → I s → M.run s ls = some t →
      (M.Guarded ok s ls ↔ ∀ n u, M.run s (ls.take n) = some u → I u) := by
  intro ls
  induction ls with
  | nil =>
    intro s t _ hs _
    refine iff_of_true trivial fun n u hu ↦ ?_
    rw [List.take_nil, run_nil, Option.some.injEq] at hu
    exact hu ▸ hs
  | cons l ls ih =>
    intro s t hJ hs hrun
    obtain ⟨s', hs', hrest⟩ := M.run_cons_eq_some.1 hrun
    obtain ⟨hJ', hiff⟩ := hstep s l s' hJ hs hs'
    constructor
    · rintro ⟨hok, hguard⟩ n u hu
      cases n with
      | zero =>
        rw [List.take_zero, run_nil, Option.some.injEq] at hu
        exact hu ▸ hs
      | succ n =>
        rw [List.take_succ_cons, run_cons, hs', Option.bind_some] at hu
        exact (ih hJ' (hiff.1 hok) hrest).1 (hguard s' hs') n u hu
    · intro hall
      have hI : I s' := hall 1 s' (by
        rw [List.take_succ_cons, List.take_zero, run_cons, hs', Option.bind_some, run_nil])
      refine ⟨hiff.2 hI, fun s'' hs'' ↦ ?_⟩
      obtain rfl : s' = s'' := Option.some.inj (hs'.symm.trans hs'')
      refine (ih hJ' hI hrest).2 fun n u hu ↦ hall (n + 1) u ?_
      rw [List.take_succ_cons, run_cons, hs', Option.bind_some]
      exact hu

/-- **The exact run rule for an invariant.** If guarded steps preserve `K`, which implies `I`, and
other steps from `K` leave `I`, then a run is guarded exactly if all the states it visits are in
`I`. -/
theorem guarded_iff_of_invariant {ok : σ → ℓ → Prop} {I K : σ → Prop} (hI : ∀ s, K s → I s)
    (hok : ∀ s l s', K s → ok s l → M.step s l = some s' → K s')
    (hnot : ∀ s l s', K s → ¬ ok s l → M.step s l = some s' → ¬ I s') {ls : List ℓ} {s t : σ}
    (hs : K s) (hrun : M.run s ls = some t) :
    M.Guarded ok s ls ↔ ∀ n u, M.run s (ls.take n) = some u → I u := by
  refine guarded_iff_forall_take (J := fun s ↦ I s → K s) ?_ (fun _ ↦ hs) (hI s hs) hrun
  intro s l s' hJ hIs hstep
  by_cases hguard : ok s l
  · have hK := hok s l s' (hJ hIs) hguard hstep
    exact ⟨fun _ ↦ hK, iff_of_true hguard (hI s' hK)⟩
  · have hleft := hnot s l s' (hJ hIs) hguard hstep
    exact ⟨fun h ↦ absurd h hleft, iff_of_false hguard hleft⟩

/-- A run meets a guard that holds wherever `I` does, if all the states it visits are in `I`. -/
theorem guarded_of_forall_take {ok : σ → ℓ → Prop} {I : σ → Prop} (hok : ∀ s l, I s → ok s l) :
    ∀ {ls : List ℓ} {s : σ}, (∀ n u, M.run s (ls.take n) = some u → I u) → M.Guarded ok s ls := by
  intro ls
  induction ls with
  | nil => exact fun _ ↦ trivial
  | cons l ls ih =>
    intro s hall
    refine ⟨hok s l (hall 0 s rfl), fun s' hs' ↦ ih fun n u hu ↦ hall (n + 1) u ?_⟩
    rw [List.take_succ_cons, run_cons, hs', Option.bind_some]
    exact hu

/-- A run meets a guard that holds wherever `I` does, if the steps that the run may take
preserve `I`. -/
theorem guarded_of_invariant {ok : σ → ℓ → Prop} {I : σ → Prop} {P : ℓ → Prop}
    (hok : ∀ s l, I s → P l → ok s l)
    (hstep : ∀ s l s', I s → P l → M.step s l = some s' → I s') :
    ∀ {ls : List ℓ} {s : σ}, I s → (∀ l ∈ ls, P l) → M.Guarded ok s ls := by
  intro ls
  induction ls with
  | nil => exact fun _ _ ↦ trivial
  | cons l ls ih =>
    intro s hs hP
    have hl := hP l (List.mem_cons_self ..)
    exact ⟨hok s l hs hl, fun s' hs' ↦
      ih (hstep s l s' hs hl hs') fun l' hl' ↦ hP l' (List.mem_cons_of_mem _ hl')⟩

/-- **The run rule for some of the labels.** -/
theorem invariant_of_forall {I : σ → Prop} {P : ℓ → Prop}
    (hstep : ∀ s l s', I s → P l → M.step s l = some s' → I s') {ls : List ℓ} {s t : σ}
    (hs : I s) (hP : ∀ l ∈ ls, P l) (hrun : M.run s ls = some t) : I t := by
  have hguard : M.Guarded (fun _ l ↦ P l) s ls :=
    guarded_of_invariant (I := fun _ ↦ True) (fun _ _ _ hl ↦ hl) (fun _ _ _ _ _ _ ↦ trivial)
      trivial hP
  exact invariant_of_guarded hstep hs hguard hrun

/-- Guards that agree wherever an invariant holds restrict runs in the same way. -/
theorem guarded_congr {ok ok' : σ → ℓ → Prop} {I : σ → Prop} (hok : ∀ s l, I s → (ok s l ↔ ok' s l))
    (hstep : ∀ s l s', I s → M.step s l = some s' → I s') :
    ∀ {ls : List ℓ} {s : σ}, I s → (M.Guarded ok s ls ↔ M.Guarded ok' s ls) := by
  intro ls
  induction ls with
  | nil => exact fun _ ↦ Iff.rfl
  | cons l ls ih =>
    intro s hs
    exact and_congr (hok s l hs) (forall₂_congr fun s' hs' ↦ ih (hstep s l s' hs hs'))

/-- The unrestricted run rule. -/
theorem invariant_of_run {I : σ → Prop}
    (hstep : ∀ s l s', I s → M.step s l = some s' → I s') {ls : List ℓ} {s t : σ}
    (hs : I s) (hrun : M.run s ls = some t) : I t := by
  induction ls generalizing s with
  | nil =>
    rw [run_nil, Option.some.injEq] at hrun
    exact hrun ▸ hs
  | cons l ls ih =>
    obtain ⟨s', hs', hrest⟩ := M.run_cons_eq_some.1 hrun
    exact ih (hstep s l s' hs hs') hrest

/-- **The history rule.** An invariant may speak of the labels taken so far. -/
theorem invariant_of_history {I : List ℓ → σ → Prop}
    (hstep : ∀ hist s l s', I hist s → M.step s l = some s' → I (hist ++ [l]) s')
    {ls : List ℓ} {s t : σ} (hs : I [] s) (hrun : M.run s ls = some t) : I ls t := by
  have hgen : ∀ hist, I hist s → I (hist ++ ls) t := by
    clear hs
    induction ls generalizing s with
    | nil =>
      intro hist hs
      rw [run_nil, Option.some.injEq] at hrun
      rw [List.append_nil]
      exact hrun ▸ hs
    | cons l ls ih =>
      intro hist hs
      obtain ⟨s', hs', hrest⟩ := M.run_cons_eq_some.1 hrun
      rw [← List.singleton_append, ← List.append_assoc]
      exact ih hrest _ (hstep hist s l s' hs hs')
  exact hgen [] hs

/-- The history rule where the labels taken so far are known to lead to the state. -/
theorem invariant_of_past {s₀ : σ} {I : List ℓ → σ → Prop}
    (hstep : ∀ hist s l s', M.run s₀ hist = some s → I hist s → M.step s l = some s' →
      I (hist ++ [l]) s')
    {ls : List ℓ} {t : σ} (hs : I [] s₀) (hrun : M.run s₀ ls = some t) : I ls t := by
  refine (invariant_of_history (I := fun hist s ↦ M.run s₀ hist = some s ∧ I hist s) ?_
    ⟨rfl, hs⟩ hrun).2
  rintro hist s l s' ⟨hpast, hI⟩ hs'
  exact ⟨M.run_append_singleton.2 ⟨s, hpast, hs'⟩, hstep hist s l s' hpast hI hs'⟩

/-- **The guarded progress rule.** If every guarded step from `I` is enabled and preserves `I`, then
every guarded list of labels is a run, and it ends in `I`. -/
theorem exists_run_of_guarded {ok : σ → ℓ → Prop} {I : σ → Prop}
    (hstep : ∀ s l, I s → ok s l → ∃ s', M.step s l = some s' ∧ I s') :
    ∀ {ls : List ℓ} {s : σ}, I s → M.Guarded ok s ls → ∃ t, M.run s ls = some t ∧ I t := by
  intro ls
  induction ls with
  | nil => exact fun hs _ ↦ ⟨_, rfl, hs⟩
  | cons l ls ih =>
    intro s hs hok
    obtain ⟨s', hs', hI⟩ := hstep s l hs hok.1
    obtain ⟨t, ht, hIt⟩ := ih hI (hok.2 s' hs')
    exact ⟨t, M.run_cons_eq_some.2 ⟨s', hs', ht⟩, hIt⟩

/-- **The progress rule.** If every step with an admissible label is enabled and preserves
`I`, then every list of such labels is a run, and it ends in `I`. -/
theorem exists_run {ok : ℓ → Prop} {I : σ → Prop}
    (hstep : ∀ s l, I s → ok l → ∃ s', M.step s l = some s' ∧ I s') {ls : List ℓ} {s : σ}
    (hs : I s) (hok : ∀ l ∈ ls, ok l) : ∃ t, M.run s ls = some t ∧ I t := by
  have hguard : M.Guarded (fun _ l ↦ ok l) s ls :=
    guarded_of_invariant (I := fun _ ↦ True) (fun _ _ _ hl ↦ hl) (fun _ _ _ _ _ _ ↦ trivial)
      trivial hok
  exact exists_run_of_guarded hstep hs hguard

/-- Where every step is enabled, every list of labels is a run. -/
theorem exists_run_of_total (htotal : ∀ s l, ∃ s', M.step s l = some s') (s : σ) (ls : List ℓ) :
    ∃ t, M.run s ls = some t := by
  induction ls generalizing s with
  | nil => exact ⟨s, rfl⟩
  | cons l ls ih =>
    obtain ⟨s', hs'⟩ := htotal s l
    obtain ⟨t, ht⟩ := ih s'
    exact ⟨t, M.run_cons_eq_some.2 ⟨s', hs', ht⟩⟩

variable (M) in
/-- Some run leads from a state to another. -/
def Leads (s t : σ) : Prop := ∃ ls, M.run s ls = some t

namespace Leads

theorem refl (s : σ) : M.Leads s s := ⟨[], rfl⟩

theorem of_eq {s t : σ} (h : t = s) : M.Leads s t := by
  rw [h]
  exact refl s

theorem single {s t : σ} {l : ℓ} (h : M.step s l = some t) : M.Leads s t :=
  ⟨[l], M.run_cons_eq_some.2 ⟨t, h, rfl⟩⟩

theorem trans {s t u : σ} (h : M.Leads s t) (h' : M.Leads t u) : M.Leads s u := by
  obtain ⟨ls, hls⟩ := h
  obtain ⟨ls', hls'⟩ := h'
  exact ⟨ls ++ ls', M.run_append_eq_some.2 ⟨t, hls, hls'⟩⟩

end Leads

/-! ### Steering a machine

Some labels are the environment's: it takes such **silent** steps when it likes. Inputs `es`
force `B` from `A` if they can be taken one after the other, and every run that takes them in
this order, with any silent steps between them, ends in `B`. -/

/-- The inputs `es` lead from `A` to `B`, whatever silent steps come between. -/
structure Forces (M : Machine σ ℓ) (silent : ℓ → Bool) (A : σ → Prop) (es : List ℓ)
    (B : σ → Prop) : Prop where
  inputs : ∀ e ∈ es, silent e = false
  enabled : ∀ s, A s → (M.run s es).isSome
  reaches : ∀ s, A s → ∀ ls t, ls.filter (fun l ↦ !silent l) = es → M.run s ls = some t → B t

namespace Forces

variable {silent : ℓ → Bool} {A B C : σ → Prop} {es es' : List ℓ}

/-- Inputs are a run of their own: the one without silent steps. -/
theorem filter_eq (h : M.Forces silent A es B) : es.filter (fun l ↦ !silent l) = es :=
  List.filter_eq_self.2 fun e he ↦ by rw [h.inputs e he, Bool.not_false]

/-- More may be assumed and less concluded. -/
theorem mono {A' B' : σ → Prop} (h : M.Forces silent A es B) (hA : ∀ s, A' s → A s)
    (hB : ∀ s, B s → B' s) : M.Forces silent A' es B' where
  inputs := h.inputs
  enabled := fun s hs ↦ h.enabled s (hA s hs)
  reaches := fun s hs ls t hls hrun ↦ hB t (h.reaches s (hA s hs) ls t hls hrun)

/-- Silent steps alone, which `A` must be closed under. -/
theorem nil (hA : ∀ s l s', A s → silent l = true → M.step s l = some s' → A s') :
    M.Forces silent A [] A where
  inputs := fun e he ↦ absurd he List.not_mem_nil
  enabled := fun s _ ↦ rfl
  reaches := by
    intro s hs ls t hls hrun
    have hsilent : ∀ l ∈ ls, silent l = true := fun l hl ↦ by
      simpa using List.filter_eq_nil_iff.1 hls l hl
    clear hls
    induction ls generalizing s with
    | nil =>
      rw [run_nil, Option.some.injEq] at hrun
      exact hrun ▸ hs
    | cons l ls ih =>
      obtain ⟨s', hs', hrest⟩ := M.run_cons_eq_some.1 hrun
      have hl := hsilent l (List.mem_cons_self ..)
      exact ih s' (hA s l s' hs hl hs') hrest fun l' hl' ↦
        hsilent l' (List.mem_cons_of_mem _ hl')

/-- Steering composes. -/
theorem append (h : M.Forces silent A es B) (h' : M.Forces silent B es' C) :
    M.Forces silent A (es ++ es') C where
  inputs := fun e he ↦ (List.mem_append.1 he).elim (h.inputs e) (h'.inputs e)
  enabled := by
    intro s hs
    obtain ⟨t, ht⟩ := Option.isSome_iff_exists.1 (h.enabled s hs)
    rw [run_append, ht, Option.bind_some]
    exact h'.enabled t (h.reaches s hs es t h.filter_eq ht)
  reaches := by
    intro s hs ls u hls hrun
    obtain ⟨l₁, l₂, rfl, h₁, h₂⟩ := List.filter_eq_append_iff.1 hls
    obtain ⟨t, ht, hrest⟩ := M.run_append_eq_some.1 hrun
    exact h'.reaches t (h.reaches s hs l₁ t h₁ ht) l₂ u h₂ hrest

/-- One input, between two sets that silent steps do not leave. -/
theorem single {e : ℓ} (he : silent e = false)
    (hA : ∀ s l s', A s → silent l = true → M.step s l = some s' → A s')
    (hB : ∀ s l s', B s → silent l = true → M.step s l = some s' → B s')
    (hstep : ∀ s, A s → ∃ s', M.step s e = some s' ∧ B s') : M.Forces silent A [e] B where
  inputs := fun e' he' ↦ by rw [List.mem_singleton.1 he', he]
  enabled := by
    intro s hs
    obtain ⟨s', hs', -⟩ := hstep s hs
    rw [run_cons, hs', Option.bind_some]
    rfl
  reaches := by
    intro s hs ls u hls hrun
    -- the silent steps before the input stay in `A`, those after it in `B`
    obtain ⟨l₁, l₂, rfl, h₁, -, h₂⟩ := List.filter_eq_cons_iff.1 hls
    obtain ⟨t, ht, hrest⟩ := M.run_append_eq_some.1 hrun
    obtain ⟨t', ht', hrest⟩ := M.run_cons_eq_some.1 hrest
    have hAt : A t := (Forces.nil hA).reaches s hs l₁ t (List.filter_eq_nil_iff.2 h₁) ht
    obtain ⟨s', hs', hBs'⟩ := hstep t hAt
    obtain rfl : t' = s' := Option.some.inj (ht'.symm.trans hs')
    exact (Forces.nil hB).reaches t' hBs' l₂ u h₂ hrest

end Forces

/-- **The absorption rule.** If a step that breaks the guard leads to a bad state and bad states
are never left, a run that ends well is guarded. -/
theorem guarded_of_absorbing {ok : σ → ℓ → Prop} {I B : σ → Prop}
    (hI : ∀ s l s', I s → M.step s l = some s' → I s')
    (hbad : ∀ s l s', I s → ¬ ok s l → M.step s l = some s' → B s')
    (habsorb : ∀ s l s', I s → B s → M.step s l = some s' → B s') :
    ∀ {ls : List ℓ} {s t : σ}, I s → M.run s ls = some t → ¬ B t → M.Guarded ok s ls := by
  intro ls
  induction ls with
  | nil => exact fun _ _ _ ↦ trivial
  | cons l ls ih =>
    intro s t hs hrun ht
    obtain ⟨s', hs', hrest⟩ := M.run_cons_eq_some.1 hrun
    refine ⟨?_, fun s'' hs'' ↦ ?_⟩
    · by_contra hok
      have hend : I t ∧ B t :=
        invariant_of_run (I := fun u ↦ I u ∧ B u)
          (fun u k u' hu hk ↦ ⟨hI u k u' hu.1 hk, habsorb u k u' hu.1 hu.2 hk⟩)
          ⟨hI s l s' hs hs', hbad s l s' hs hok hs'⟩ hrest
      exact ht hend.2
    · obtain rfl : s' = s'' := Option.some.inj (hs'.symm.trans hs'')
      exact ih (hI s l s' hs hs') hrest ht

namespace Reachable

theorem of_init {s : σ} (h : M.Init s) : M.Reachable s := ⟨s, [], h, rfl⟩

theorem run {s t : σ} {ls : List ℓ} (h : M.Reachable s) (hrun : M.run s ls = some t) :
    M.Reachable t := by
  obtain ⟨s₀, ls₀, h₀, hrun₀⟩ := h
  exact ⟨s₀, ls₀ ++ ls, h₀, M.run_append_eq_some.2 ⟨s, hrun₀, hrun⟩⟩

/-- **The invariant rule.** What holds initially and is preserved by every step holds in
every reachable state. -/
theorem induction {I : σ → Prop} (hinit : ∀ s, M.Init s → I s)
    (hstep : ∀ s l s', I s → M.step s l = some s' → I s') {s : σ} (h : M.Reachable s) : I s := by
  obtain ⟨s₀, ls, h₀, hrun⟩ := h
  exact invariant_of_run hstep (hinit s₀ h₀) hrun

/-- **The simulation rule.** If every step of a machine is seen as a run of another one, its
reachable states are seen as reachable ones. -/
theorem simulation {σ' ℓ' : Type*} {N : Machine σ' ℓ'} {f : σ → σ'}
    (hinit : ∀ s, M.Init s → N.Init (f s))
    (hstep : ∀ s l s', M.step s l = some s' → N.Leads (f s) (f s')) {s : σ} (h : M.Reachable s) :
    N.Reachable (f s) := by
  refine induction (I := fun s ↦ N.Reachable (f s)) (fun s hs ↦ of_init (hinit s hs)) ?_ h
  intro s l s' hs hs'
  obtain ⟨ls, hls⟩ := hstep s l s' hs'
  exact hs.run hls

end Reachable

end Machine
