import JuliusOS.ProcessManager.Control

/-!
# A process manager that is left alone

While no child exits and no signal comes, the watchdog finds every child alive and starts
nothing, and the main thread forks each service at most once, in the order of the priorities
(`Undisturbed`).

* `Undisturbed.step`: every statement of the two threads preserves this.
* `Undisturbed.forks`: a statement that forks does so for a service that has no child yet.
-/

namespace JuliusOS.ProcessManager

/-- The statements of the main thread and the watchdog: nothing comes from outside. -/
def Label.isOwn : Label → Bool
  | .main _ | .watchdog _ _ => true
  | _ => false

/-- The services that the main thread may still fork for, once they are registered. -/
def MainPc.unforked : MainPc → List ℕ
  | .starting todo => todo
  | .start todo j .check | .start todo j .setStarting | .start todo j .fork => j :: todo
  | .start todo _ _ => todo
  | _ => []

/-- The service that a statement of the main thread successfully forks for. -/
def MainPc.forks (forked : Option ℤ) : MainPc → Option ℕ
  | .start _ j .fork => forked.map fun _ ↦ j
  | _ => none

/-- The service that a statement of the watchdog successfully forks for. -/
def WatchdogPc.forks (forked : Option ℤ) : WatchdogPc → Option ℕ
  | .body _ (.start j .fork) => forked.map fun _ ↦ j
  | _ => none

/-- The service that a step successfully forks for. -/
def State.forks (s : State) : Label → Option ℕ
  | .main forked => s.main.forks forked
  | .watchdog forked _ => s.watchdog.bind (WatchdogPc.forks forked)
  | _ => none

/-- The services that have children, in the order they were forked. -/
def State.forked (s : State) : List ℕ := s.shared.children.map Child.service

/-- No child has exited, and the threads do what they do then. -/
structure Undisturbed (s : State) : Prop extends Wired s where
  /-- No signal is being handled. -/
  handler : s.handler = none
  /-- No child has exited. -/
  alive : ∀ c ∈ s.shared.children, c.zombie = false
  /-- The watchdog finds nothing to do. -/
  polls : ∀ i pc, s.watchdog = some (.body i pc) → pc = .poll
  /-- The table is that of `juliusServices`, as far as they are registered. -/
  table : s.shared.services.map Service.exec ++ s.main.unregistered.map Registration.exec =
    juliusServices.map Registration.exec
  /-- Nothing is forked before all are registered. -/
  registering : ∀ todo, s.main = .register todo → s.shared.children = []
  /-- Nothing is forked for twice. -/
  once : (s.forked ++ s.main.unforked).Nodup

/-! ### Small facts -/

variable {σ σ' : Shared} {v : Service} {i j : ℕ} {forked : Option ℤ} {reaped : ℤ}

theorem execs_setState (σ : Shared) (i : ℕ) (state : ServiceState) :
    (σ.setState i state).services.map Service.exec = σ.services.map Service.exec :=
  map_modify_of_eq (f := fun v : Service ↦ { v with state }) (fun _ ↦ rfl) _ _

theorem execs_setPid (σ : Shared) (i : ℕ) (pid : ℤ) :
    (σ.setPid i pid).services.map Service.exec = σ.services.map Service.exec :=
  map_modify_of_eq (f := fun v : Service ↦ { v with pid }) (fun _ ↦ rfl) _ _

/-- Waiting for a child that is alive, or for none, reaps nothing. -/
theorem waitpid_of_alive {children rest : List Child} {pid ret : ℤ}
    (halive : ∀ c ∈ children, c.zombie = false)
    (h : waitpid children pid reaped = some (ret, rest)) : ¬ 0 < ret ∧ rest = children := by
  have hnone : ∀ c ∈ children, c.zombie ≠ true := fun c hc hz ↦ by
    rw [halive c hc] at hz
    cases hz
  have hreaped : ¬ ∃ c ∈ children, c.Matches pid ∧ c.zombie = true ∧ c.pid = reaped := by
    rintro ⟨c, hc, -, hz, -⟩
    exact hnone c hc hz
  have hzombie : ¬ ∃ c ∈ children, c.Matches pid ∧ c.zombie = true := by
    rintro ⟨c, hc, -, hz⟩
    exact hnone c hc hz
  rw [waitpid, if_neg hreaped, if_neg hzombie] at h
  split at h
  · obtain ⟨rfl, rfl⟩ := Prod.mk.inj (Option.some.inj h)
    exact ⟨by decide, rfl⟩
  · obtain ⟨rfl, rfl⟩ := Prod.mk.inj (Option.some.inj h)
    exact ⟨by decide, rfl⟩

/-- Each service is started once. -/
theorem nodup_startOrder (services : List Service) : (startOrder services).Nodup := by
  have hpriorities : [1, 2, 3, 4].Pairwise fun p q : ℕ ↦ p ≠ q := by decide
  rw [startOrder, List.nodup_flatMap]
  refine ⟨fun p _ ↦ List.nodup_range.filter _, hpriorities.imp fun {p q} hne i hp hq ↦ ?_⟩
  have hp := (List.mem_filter.1 hp).2
  have hq := (List.mem_filter.1 hq).2
  rcases hv : services[i]? with - | v
  · rw [hv, Option.any_none] at hp
    cases hp
  · rw [hv, Option.any_some, decide_eq_true_iff] at hp hq
    exact hne (hp.symm.trans hq)

/-! ### `pm_start` -/

/-- The services that a call of `pm_start` for service `j` may still fork for. -/
def StartPc.unforked (todo : List ℕ) (j : ℕ) (pc : Option StartPc) : List ℕ :=
  match pc with
  | some pc => (MainPc.start todo j pc).unforked
  | none => todo

/-- A statement of `pm_start` forks for its service or leaves the children alone, and a service it
may still fork for it could fork for before. -/
theorem pmStart_forks (todo : List ℕ) {pc : StartPc} {pc' : Option StartPc}
    (h : pmStart σ i v forked pc = some (pc', σ')) :
    σ'.services.map Service.exec = σ.services.map Service.exec ∧
      ((pc = .fork ∧ forked.isSome = true ∧
          σ'.children.map Child.service = σ.children.map Child.service ++ [i] ∧
          StartPc.unforked todo i pc' = todo) ∨
        (¬ (pc = .fork ∧ forked.isSome = true) ∧ σ'.children = σ.children ∧
          (StartPc.unforked todo i pc').Sublist (MainPc.start todo i pc).unforked)) ∧
      ((∀ c ∈ σ.children, c.zombie = false) → ∀ c ∈ σ'.children, c.zombie = false) := by
  cases pc with
  | check =>
    obtain ⟨rfl, rfl⟩ := Prod.mk.inj (Option.some.inj h)
    refine ⟨rfl, Or.inr ⟨by simp, rfl, ?_⟩, id⟩
    split
    · exact List.sublist_cons_self i todo
    · exact List.Sublist.refl _
  | setStarting =>
    obtain ⟨rfl, rfl⟩ := Prod.mk.inj (Option.some.inj h)
    exact ⟨execs_setState σ i _, Or.inr ⟨by simp, rfl, List.Sublist.refl _⟩, id⟩
  | fork =>
    cases forked with
    | none =>
      obtain ⟨rfl, rfl⟩ := Prod.mk.inj (Option.some.inj h)
      exact ⟨rfl, Or.inr ⟨by simp, rfl, List.sublist_cons_self i todo⟩, id⟩
    | some pid =>
      obtain ⟨-, hout⟩ := Option.ite_none_right_eq_some.1 h
      obtain ⟨rfl, rfl⟩ := Prod.mk.inj (Option.some.inj hout)
      refine ⟨rfl, Or.inl ⟨rfl, rfl, by simp [Shared.fork], rfl⟩, fun halive c hc ↦ ?_⟩
      rcases List.mem_append.1 hc with hc | hc
      · exact halive c hc
      · rw [List.mem_singleton.1 hc]
  | setFailed =>
    obtain ⟨rfl, rfl⟩ := Prod.mk.inj (Option.some.inj h)
    exact ⟨execs_setState σ i _, Or.inr ⟨by simp, rfl, List.Sublist.refl _⟩, id⟩
  | setPid pid =>
    obtain ⟨rfl, rfl⟩ := Prod.mk.inj (Option.some.inj h)
    exact ⟨execs_setPid σ i _, Or.inr ⟨by simp, rfl, List.Sublist.refl _⟩, id⟩
  | setRunning =>
    obtain ⟨rfl, rfl⟩ := Prod.mk.inj (Option.some.inj h)
    exact ⟨execs_setState σ i _, Or.inr ⟨by simp, rfl, List.Sublist.refl _⟩, id⟩

/-! ### The threads -/

variable {s s' : State} {l : Label}

/-- The eleven registrations fit into the table. -/
theorem Undisturbed.length_lt (hs : Undisturbed s) (h : s.main.unregistered ≠ []) :
    s.shared.services.length < pmMaxServices := by
  have hlength := congrArg List.length hs.table
  rw [List.length_append, List.length_map, List.length_map, List.length_map] at hlength
  have hpos := List.length_pos_iff.2 h
  have hbound : juliusServices.length < pmMaxServices := by decide
  omega

section MainThread

variable {m : MainPc}

/-- A statement of the main thread that changes nothing the threads share. -/
theorem Undisturbed.mainGoes (hs : Undisturbed s) (hwired : Wired { s with main := m })
    (hunregistered : m.unregistered = s.main.unregistered)
    (hregistering : ∀ todo, m = .register todo → s.shared.children = [])
    (honce : (s.forked ++ m.unforked).Nodup) : Undisturbed { s with main := m } :=
  { hwired, hs with
    table := by rw [hunregistered]; exact hs.table
    registering := hregistering
    once := honce }

/-- A registration, and the end of the registrations. -/
theorem Undisturbed.mainRegister {todo : List Registration} (hs : Undisturbed s)
    (hm : s.main = .register todo) (hwired : Wired { s with main := m, shared := σ })
    (h : ProcessManager.mainThread s.shared forked (.register todo) = some (m, σ)) :
    Undisturbed { s with main := m, shared := σ } := by
  have hempty := hs.registering todo hm
  cases todo with
  | nil =>
    obtain ⟨rfl, rfl⟩ := Prod.mk.inj (Option.some.inj h)
    refine hs.mainGoes hwired (by rw [hm]; rfl) (by simp) ?_
    rw [State.forked, hempty]
    exact nodup_startOrder _
  | cons r todo =>
    obtain ⟨rfl, rfl⟩ := Prod.mk.inj (Option.some.inj h)
    have hlength := hs.length_lt (by rw [hm]; simp [MainPc.unregistered])
    have htable := hs.table
    rw [hm] at htable
    exact { hwired, hs with
      table := by
        dsimp only
        rw [pmRegister, if_pos hlength, List.map_append, List.append_assoc]
        exact htable
      registering := fun _ _ ↦ hempty
      once := by
        rw [State.forked, hempty]
        exact List.nodup_nil }

/-- A statement of `pm_start`. -/
theorem Undisturbed.mainStart {todo : List ℕ} {pc : StartPc} (hs : Undisturbed s)
    (hm : s.main = .start todo j pc) (hwired : Wired { s with main := m, shared := σ })
    (h : ProcessManager.mainThread s.shared forked (.start todo j pc) = some (m, σ)) :
    Undisturbed { s with main := m, shared := σ } := by
  obtain ⟨⟨pc', σ₁⟩, hbind, hout⟩ := Option.map_eq_some_iff.1 h
  obtain ⟨v, hv, hpm⟩ := Option.bind_eq_some_iff.1 hbind
  obtain ⟨hmain, rfl⟩ := Prod.mk.inj hout
  obtain ⟨hexec, hforks, halive⟩ := pmStart_forks todo hpm
  have hnext : m.unforked = StartPc.unforked todo j pc' ∧ m.unregistered = [] ∧
      ∀ todo', m ≠ .register todo' := by
    subst hmain
    cases pc' <;> exact ⟨rfl, rfl, by simp⟩
  have htable := hs.table
  have honce := hs.once
  rw [hm] at htable honce
  exact { hwired, hs with
    alive := halive hs.alive
    table := by
      dsimp only
      rw [hexec, hnext.2.1]
      exact htable
    registering := fun todo' h ↦ absurd h (hnext.2.2 todo')
    once := by
      dsimp only [State.forked]
      rw [hnext.1]
      rcases hforks with ⟨rfl, -, hchildren, hrest⟩ | ⟨-, hchildren, hrest⟩
      · rw [hchildren, hrest, List.append_assoc]
        exact honce
      · rw [hchildren]
        exact honce.sublist (hrest.append_left _) }

/-- A statement of the main thread. -/
theorem Undisturbed.mainThread (hs : Undisturbed s)
    (hwired : Wired { s with main := m, shared := σ })
    (h : ProcessManager.mainThread s.shared forked s.main = some (m, σ)) :
    Undisturbed { s with main := m, shared := σ } := by
  have honce := hs.once
  cases hm : s.main with
  | register todo => exact hs.mainRegister hm hwired (hm ▸ h)
  | starting todo =>
    rw [hm] at h honce
    cases todo with
    | nil => cases h
    | cons i todo =>
      obtain ⟨v, hv, hout⟩ := Option.map_eq_some_iff.1 h
      obtain ⟨rfl, rfl⟩ := Prod.mk.inj hout
      rw [hs.findService hv] at hwired ⊢
      exact hs.mainGoes hwired (by rw [hm]; rfl) (by simp) honce
  | start todo j pc => exact hs.mainStart hm hwired (hm ▸ h)
  | loop =>
    rw [hm] at h honce
    obtain ⟨rfl, rfl⟩ := Prod.mk.inj (Option.some.inj h)
    refine hs.mainGoes hwired ?_ ?_ ?_ <;> split <;> simp_all [MainPc.unregistered, MainPc.unforked]
  | cancel | exit =>
    rw [hm] at h honce
    obtain ⟨rfl, rfl⟩ := Prod.mk.inj (Option.some.inj h)
    exact hs.mainGoes hwired (by rw [hm]; rfl) (by simp) honce
  | exited =>
    rw [hm] at h
    cases h

end MainThread

/-- A statement of the watchdog. -/
theorem Undisturbed.watchdogThread {w w' : WatchdogPc} (hs : Undisturbed s)
    (hw : s.watchdog = some w)
    (h : ProcessManager.watchdogThread s.shared forked reaped w = some (w', σ)) :
    Undisturbed { s with watchdog := some w', shared := σ } ∧ σ.children = s.shared.children := by
  have hwired := hs.toWired.watchdog hw h
  have hsame : σ.services = s.shared.services → σ.children = s.shared.children →
      (∀ i pc, w' = .body i pc → pc = .poll) →
      Undisturbed { s with watchdog := some w', shared := σ } ∧
        σ.children = s.shared.children := fun hservices hchildren hpolls ↦
    ⟨{ hwired, hs with
      alive := hchildren ▸ hs.alive
      polls := fun i pc hpc ↦ hpolls i pc (Option.some.inj hpc)
      table := by
        dsimp only
        rw [hservices]
        exact hs.table
      registering := fun todo htodo ↦ hchildren.trans (hs.registering todo htodo)
      once := by
        dsimp only [State.forked]
        rw [hchildren]
        exact hs.once }, hchildren⟩
  cases w with
  | test =>
    obtain ⟨rfl, rfl⟩ := Prod.mk.inj (Option.some.inj h)
    refine hsame rfl rfl fun i pc hpc ↦ ?_
    split at hpc <;> cases hpc
  | lock =>
    obtain ⟨-, hout⟩ := Option.ite_none_left_eq_some.1 h
    obtain ⟨rfl, rfl⟩ := Prod.mk.inj (Option.some.inj hout)
    exact hsame rfl rfl (by simp)
  | loop i =>
    obtain ⟨rfl, rfl⟩ := Prod.mk.inj (Option.some.inj h)
    refine hsame rfl rfl fun k pc hpc ↦ ?_
    split at hpc
    · split at hpc
      · exact (WatchdogPc.body.inj hpc).2.symm
      · cases hpc
    · cases hpc
  | body i pc =>
    obtain rfl := hs.polls i pc hw
    obtain ⟨v, -, hbody⟩ := Option.bind_eq_some_iff.1 h
    obtain ⟨⟨ret, σ₁⟩, hpoll, hout⟩ := Option.map_eq_some_iff.1 hbody
    obtain ⟨rest, hwait, rfl⟩ := poll_eq_some hpoll
    obtain ⟨rfl, rfl⟩ := Prod.mk.inj hout
    obtain ⟨hret, rfl⟩ := waitpid_of_alive hs.alive hwait
    rw [if_neg hret] at *
    exact hsame rfl rfl (by simp)
  | unlock | sleep =>
    obtain ⟨rfl, rfl⟩ := Prod.mk.inj (Option.some.inj h)
    exact hsame rfl rfl (by simp)
  | done => cases h

/-- **A process manager that is left alone stays so.** -/
theorem Undisturbed.step (hs : Undisturbed s) (hl : l.isOwn = true)
    (h : (processManager juliusServices).step s l = some s') : Undisturbed s' := by
  obtain ⟨-, h⟩ := Option.ite_none_left_eq_some.1 h
  have hwired := hs.toWired.step h
  cases does_of_step h with
  | create hfree hm =>
    have htable := hs.table
    have honce := hs.once
    rw [hm] at htable honce
    exact { hwired, hs with
      polls := by simp
      table := htable
      registering := by simp
      once := honce }
  | main hfree hthread => exact hs.mainThread hwired hthread
  | watchdog hw hthread => exact (hs.watchdogThread hw hthread).1
  | handler | signal | childExit | cancelled => exact absurd hl (by simp [Label.isOwn])

/-- The children after a statement of the main thread. -/
theorem forked_mainThread {m m' : MainPc} (h : mainThread σ forked m = some (m', σ')) :
    σ'.children.map Child.service =
      σ.children.map Child.service ++ (m.forks forked).toList := by
  have hsame : m.forks forked = none → σ'.children = σ.children →
      σ'.children.map Child.service =
        σ.children.map Child.service ++ (m.forks forked).toList := by
    intro hforks hchildren
    rw [hforks, hchildren, Option.toList_none, List.append_nil]
  cases m with
  | start todo j pc =>
    obtain ⟨⟨pc', σ₁⟩, hbind, hout⟩ := Option.map_eq_some_iff.1 h
    obtain ⟨v, -, hpm⟩ := Option.bind_eq_some_iff.1 hbind
    obtain ⟨-, rfl⟩ := Prod.mk.inj hout
    rcases (pmStart_forks todo hpm).2.1 with ⟨rfl, hsome, hchildren, -⟩ | ⟨hnot, heq, -⟩
    · obtain ⟨pid, rfl⟩ := Option.isSome_iff_exists.1 hsome
      exact hchildren
    · refine hsame ?_ heq
      cases pc with
      | fork =>
        cases forked with
        | none => rfl
        | some pid => exact absurd ⟨rfl, rfl⟩ hnot
      | _ => rfl
  | register todo =>
    cases todo with
    | nil | cons =>
      obtain ⟨-, rfl⟩ := Prod.mk.inj (Option.some.inj h)
      exact hsame rfl rfl
  | starting todo =>
    cases todo with
    | nil => cases h
    | cons i todo =>
      obtain ⟨v, -, hout⟩ := Option.map_eq_some_iff.1 h
      obtain ⟨-, rfl⟩ := Prod.mk.inj hout
      exact hsame rfl rfl
  | loop | cancel | exit =>
    obtain ⟨-, rfl⟩ := Prod.mk.inj (Option.some.inj h)
    exact hsame rfl rfl
  | exited => cases h

/-- The watchdog forks for nothing. -/
theorem Undisturbed.forks_watchdog (hs : Undisturbed s) :
    s.forks (.watchdog forked reaped) = none := by
  rw [State.forks]
  cases hw : s.watchdog with
  | none => rfl
  | some w =>
    cases w with
    | body i pc =>
      obtain rfl := hs.polls i pc hw
      rfl
    | _ => rfl

/-- The children after a step: one more where the step forks. -/
theorem Undisturbed.forked_step (hs : Undisturbed s) (hl : l.isOwn = true)
    (h : (processManager juliusServices).step s l = some s') :
    s'.forked = s.forked ++ (s.forks l).toList := by
  obtain ⟨-, h⟩ := Option.ite_none_left_eq_some.1 h
  cases does_of_step h with
  | create hfree hm =>
    rw [State.forks, hm]
    exact (List.append_nil _).symm
  | main hfree hthread => exact forked_mainThread hthread
  | watchdog hw hthread =>
    rw [hs.forks_watchdog, Option.toList_none, List.append_nil]
    exact congrArg (List.map Child.service) (hs.watchdogThread hw hthread).2
  | handler | signal | childExit | cancelled => exact absurd hl (by simp [Label.isOwn])

/-- **A process manager that is left alone forks for each service at most once**, with the
executable it was registered with. -/
theorem Undisturbed.fork (hs : Undisturbed s) (hl : l.isOwn = true) (hj : s.forks l = some j) :
    j ∉ s.forked ∧ s.shared.services.map Service.exec = juliusServices.map Registration.exec := by
  cases l with
  | main forked =>
    rw [State.forks] at hj
    have htable := hs.table
    have honce := hs.once
    cases hm : s.main with
    | start todo k pc =>
      rw [hm] at hj htable honce
      cases pc with
      | fork =>
        obtain ⟨_, -, rfl⟩ := Option.map_eq_some_iff.1 hj
        refine ⟨fun hmem ↦ ?_, by simpa [MainPc.unregistered] using htable⟩
        exact (List.nodup_append.1 honce).2.2 k hmem k (List.mem_cons_self ..) rfl
      | _ => cases hj
    | _ =>
      rw [hm] at hj
      cases hj
  | watchdog forked reaped =>
    rw [hs.forks_watchdog] at hj
    cases hj
  | handler | signal | childExit | cancelled => exact absurd hl (by simp [Label.isOwn])

/-- It starts so. -/
theorem undisturbed_start : Undisturbed State.start where
  toWired := wired_of_init (by decide) rfl
  handler := rfl
  alive := by simp [State.start]
  polls := by simp [State.start]
  table := rfl
  registering := fun _ _ ↦ rfl
  once := List.nodup_nil

end JuliusOS.ProcessManager
