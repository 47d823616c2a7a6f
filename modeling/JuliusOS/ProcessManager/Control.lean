import JuliusOS.ProcessManager.Threads
import Mathlib.Data.List.Nodup

/-!
# Where the threads are

What holds in every run of the process manager, whatever its threads do to the services: the names
are distinct, so `pm_start` and `pm_stop` work on the service they are called for; the watchdog is
created after the last start of the main thread; and a handler runs on a thread that exists.

The threads meet at single services. `State.roles` are the statements they are at in one of them,
and a statement about one service touches this service's entry and roles only (`Touches`).

* `Wired.step`: every step preserves this.
-/

namespace JuliusOS.ProcessManager

/-! ### Roles -/

/-- The statements the threads are at in one service: the watchdog in its loop body, the handler in
`pm_stop`, the main thread in `pm_start`. -/
structure Roles where
  /-- The watchdog's. -/
  body : Option BodyPc
  /-- The handler's. -/
  stop : Option StopPc
  /-- The main thread's. -/
  start : Option StartPc

/-- The statement of the loop body the watchdog is at for service `i`. -/
def WatchdogPc.bodyAt (i : ℕ) : WatchdogPc → Option BodyPc
  | .body k pc => if k = i then some pc else none
  | _ => none

/-- The statement of `pm_stop` the handler is at for service `i`. -/
def HandlerPc.stopAt (i : ℕ) : HandlerPc → Option StopPc
  | .stop _ j pc => if j = i then some pc else none
  | _ => none

/-- The statement of `pm_start` the main thread is at for service `i`. -/
def MainPc.startAt (i : ℕ) : MainPc → Option StartPc
  | .start _ j pc => if j = i then some pc else none
  | _ => none

/-- The roles of the threads in service `i`. -/
def State.roles (s : State) (i : ℕ) : Roles where
  body := s.watchdog.bind (WatchdogPc.bodyAt i)
  stop := s.handler.bind fun h ↦ h.2.stopAt i
  start := s.main.startAt i

section Roles

variable {i j k : ℕ}

/-- The roles after a statement of the watchdog. -/
theorem roles_watchdog (s : State) (w : WatchdogPc) (σ : Shared) (k : ℕ) :
    State.roles { s with watchdog := some w, shared := σ } k =
      { s.roles k with body := w.bodyAt k } := rfl

/-- The roles after a statement of the handler. -/
theorem roles_handler (s : State) (host : Host) (pc : Option HandlerPc) (σ : Shared) (k : ℕ) :
    State.roles { s with handler := pc.map (host, ·), shared := σ } k =
      { s.roles k with stop := pc.bind (HandlerPc.stopAt k) } := by
  cases pc <;> rfl

/-- The roles after a statement of the main thread. -/
theorem roles_main (s : State) (m : MainPc) (σ : Shared) (k : ℕ) :
    State.roles { s with main := m, shared := σ } k = { s.roles k with start := m.startAt k } := rfl

theorem bodyAt_body_self (i : ℕ) (pc : BodyPc) : (WatchdogPc.body i pc).bodyAt i = some pc :=
  if_pos rfl

theorem bodyAt_body_of_ne (h : k ≠ i) (pc : BodyPc) : (WatchdogPc.body i pc).bodyAt k = none :=
  if_neg (Ne.symm h)

theorem stopAt_stop_self (i j : ℕ) (pc : StopPc) : (HandlerPc.stop i j pc).stopAt j = some pc :=
  if_pos rfl

theorem stopAt_stop_of_ne (h : k ≠ j) (i : ℕ) (pc : StopPc) :
    (HandlerPc.stop i j pc).stopAt k = none :=
  if_neg (Ne.symm h)

theorem startAt_start_self (todo : List ℕ) (j : ℕ) (pc : StartPc) :
    (MainPc.start todo j pc).startAt j = some pc :=
  if_pos rfl

theorem startAt_start_of_ne (h : k ≠ j) (todo : List ℕ) (pc : StartPc) :
    (MainPc.start todo j pc).startAt k = none :=
  if_neg (Ne.symm h)

end Roles

/-! ### What a step does -/

/-- When a step is possible, and what it does. -/
inductive Does (s : State) : Label → State → Prop
  | create {forked : Option ℤ} (hfree : s.suspended .main = false) (hm : s.main = .starting []) :
    Does s (.main forked) { s with main := .loop, watchdog := some .test }
  | main {forked : Option ℤ} {m' : MainPc} {σ' : Shared} (hfree : s.suspended .main = false)
    (hthread : mainThread s.shared forked s.main = some (m', σ')) :
    Does s (.main forked) { s with main := m', shared := σ' }
  | watchdog {forked : Option ℤ} {reaped : ℤ} {w w' : WatchdogPc} {σ' : Shared}
    (hw : s.watchdog = some w)
    (hthread : watchdogThread s.shared forked reaped w = some (w', σ')) :
    Does s (.watchdog forked reaped) { s with watchdog := some w', shared := σ' }
  | handler {reaped : ℤ} {host : Host} {pc : HandlerPc} {pc' : Option HandlerPc} {σ' : Shared}
    (hpc : s.handler = some (host, pc))
    (hthread : signalHandler s.shared reaped pc = some (pc', σ')) :
    Does s (.handler reaped) { s with handler := pc'.map (host, ·), shared := σ' }
  | signal {host : Host} (hnone : s.handler = none) (halive : s.alive host) :
    Does s (.signal host) { s with handler := some (host, .setRunning) }
  | childExit {p : ℤ} :
    Does s (.childExit p) { s with shared := { s.shared with children := s.childExit p } }
  | cancelled (hexit : s.main = .exit) (hcancellable : s.cancellable) :
    Does s .cancelled { s with
      watchdog := some .done
      handler := if s.suspended .watchdog then none else s.handler }

/-- **Inversion**: what a step does, as cases. -/
theorem does_of_step {s s' : State} {l : Label} (h : step s l = some s') : Does s l s' := by
  cases l with
  | main forked =>
    obtain ⟨hfree, hout⟩ := Option.ite_none_left_eq_some.1 h
    have hfree : s.suspended .main = false := by simpa using hfree
    split at hout
    next hm =>
      obtain rfl := Option.some.inj hout
      exact .create hfree hm
    next =>
      obtain ⟨⟨m', σ'⟩, hthread, rfl⟩ := Option.map_eq_some_iff.1 hout
      exact .main hfree hthread
  | watchdog forked reaped =>
    obtain ⟨-, hout⟩ := Option.ite_none_left_eq_some.1 h
    obtain ⟨⟨w', σ'⟩, hbind, rfl⟩ := Option.map_eq_some_iff.1 hout
    obtain ⟨w, hw, hthread⟩ := Option.bind_eq_some_iff.1 hbind
    exact .watchdog hw hthread
  | handler reaped =>
    obtain ⟨⟨host, pc⟩, hpc, hout⟩ := Option.bind_eq_some_iff.1 h
    obtain ⟨⟨pc', σ'⟩, hthread, rfl⟩ := Option.map_eq_some_iff.1 hout
    exact .handler hpc hthread
  | signal host =>
    obtain ⟨⟨hnone, halive⟩, hout⟩ := Option.ite_none_right_eq_some.1 h
    obtain rfl := Option.some.inj hout
    exact .signal hnone halive
  | childExit p =>
    obtain rfl := Option.some.inj h
    exact .childExit
  | cancelled =>
    obtain ⟨⟨hexit, hcancellable⟩, hout⟩ := Option.ite_none_right_eq_some.1 h
    obtain rfl := Option.some.inj hout
    exact .cancelled hexit hcancellable

/-- A step that is not the watchdog's. -/
def Label.Idle : Label → Prop
  | .watchdog _ _ => False
  | _ => True

instance : DecidablePred Label.Idle
  | .watchdog _ _ => .isFalse id
  | .main _ | .handler _ | .signal _ | .childExit _ | .cancelled => .isTrue trivial

/-- While the watchdog does nothing, it does not get into its loop body. -/
theorem body_of_idle {s s' : State} {l : Label} (hs : ∀ i, (s.roles i).body = none) (hl : l.Idle)
    (h : step s l = some s') (i : ℕ) : (s'.roles i).body = none := by
  cases does_of_step h with
  | watchdog => exact hl.elim
  | main | handler | signal | childExit => exact hs i
  | create | cancelled => rfl

/-! ### Statements about one service -/

variable {σ σ' : Shared} {v : Service} {i j k : ℕ} {forked : Option ℤ} {reaped : ℤ}

/-- What a modification keeps of every entry, it keeps of the list. -/
theorem map_modify_of_eq {α β : Type*} {f : α → α} {g : α → β} (h : ∀ a, g (f a) = g a)
    (xs : List α) (i : ℕ) : (xs.modify i f).map g = xs.map g := by
  refine List.ext_getElem? fun k ↦ ?_
  rw [List.getElem?_map, List.getElem?_map, List.getElem?_modify]
  split
  · simp [Function.comp_def, h]
  · simp

/-- A `waitpid` reaps a child. -/
def Reaps (children : List Child) (pid reaped : ℤ) : Prop :=
  ∃ ret rest, waitpid children pid reaped = some (ret, rest) ∧ 0 < ret

/-- What a `waitpid` that does not block leaves. -/
theorem poll_eq_some {pid ret : ℤ} (h : σ.poll i pid reaped = some (ret, σ')) :
    ∃ rest, waitpid σ.children pid reaped = some (ret, rest) ∧
      σ' = { σ.call .waitpid i pid with children := rest } := by
  obtain ⟨⟨ret', rest⟩, hwait, heq⟩ := Option.map_eq_some_iff.1 h
  obtain ⟨rfl, rfl⟩ := Prod.mk.inj heq
  exact ⟨rest, hwait, rfl⟩

/-- A statement changes the entry of service `i` only, and not its name. -/
def Touches (σ σ' : Shared) (i : ℕ) : Prop :=
  ∃ f : Service → Service, (∀ v, (f v).name = v.name) ∧ σ'.services = σ.services.modify i f

theorem Touches.of_eq (h : σ'.services = σ.services) (i : ℕ) : Touches σ σ' i :=
  ⟨id, fun _ ↦ rfl, h.trans (List.modify_id i _).symm⟩

theorem Touches.setState (σ : Shared) (i : ℕ) (state : ServiceState) :
    Touches σ (σ.setState i state) i :=
  ⟨fun v ↦ { v with state }, fun _ ↦ rfl, rfl⟩

theorem Touches.setPid (σ : Shared) (i : ℕ) (pid : ℤ) : Touches σ (σ.setPid i pid) i :=
  ⟨fun v ↦ { v with pid }, fun _ ↦ rfl, rfl⟩

theorem Touches.getElem? (h : Touches σ σ' i) (hk : k ≠ i) : σ'.services[k]? = σ.services[k]? := by
  obtain ⟨f, -, hservices⟩ := h
  rw [hservices, List.getElem?_modify_ne _ _ (Ne.symm hk)]

theorem Touches.names (h : Touches σ σ' i) :
    σ'.services.map Service.name = σ.services.map Service.name := by
  obtain ⟨f, hname, hservices⟩ := h
  rw [hservices, map_modify_of_eq hname]

theorem touches_pmStart {pc : StartPc} {pc' : Option StartPc}
    (h : pmStart σ i v forked pc = some (pc', σ')) : Touches σ σ' i := by
  cases pc with
  | check =>
    obtain ⟨-, rfl⟩ := Prod.mk.inj (Option.some.inj h)
    exact .of_eq rfl i
  | fork =>
    cases forked with
    | none =>
      obtain ⟨-, rfl⟩ := Prod.mk.inj (Option.some.inj h)
      exact .of_eq rfl i
    | some pid =>
      obtain ⟨-, hout⟩ := Option.ite_none_right_eq_some.1 h
      obtain ⟨-, rfl⟩ := Prod.mk.inj (Option.some.inj hout)
      exact .of_eq rfl i
  | setPid pid =>
    obtain ⟨-, rfl⟩ := Prod.mk.inj (Option.some.inj h)
    exact .setPid σ i pid
  | _ =>
    obtain ⟨-, rfl⟩ := Prod.mk.inj (Option.some.inj h)
    exact .setState σ i _

theorem touches_poll {pid ret : ℤ} (h : σ.poll i pid reaped = some (ret, σ')) : Touches σ σ' i := by
  obtain ⟨_, -, rfl⟩ := poll_eq_some h
  exact .of_eq rfl i

theorem touches_pmStop {pc : StopPc} {pc' : Option StopPc}
    (h : pmStop σ i v reaped pc = some (pc', σ')) : Touches σ σ' i := by
  cases pc with
  | setStopping | setStopped =>
    obtain ⟨-, rfl⟩ := Prod.mk.inj (Option.some.inj h)
    exact .setState σ i _
  | clearPid =>
    obtain ⟨-, rfl⟩ := Prod.mk.inj (Option.some.inj h)
    exact .setPid σ i _
  | poll =>
    obtain ⟨⟨ret, σ₀⟩, hpoll, hout⟩ := Option.map_eq_some_iff.1 h
    obtain ⟨-, rfl⟩ := Prod.mk.inj hout
    exact touches_poll hpoll
  | blocked pid =>
    obtain ⟨⟨ret, rest⟩, -, hout⟩ := Option.bind_eq_some_iff.1 h
    obtain ⟨-, hout⟩ := Option.ite_none_left_eq_some.1 hout
    obtain ⟨-, rfl⟩ := Prod.mk.inj (Option.some.inj hout)
    exact .of_eq rfl i
  | _ =>
    obtain ⟨-, rfl⟩ := Prod.mk.inj (Option.some.inj h)
    exact .of_eq rfl i

/-- The watchdog's next statement is about the same service, or about none. -/
theorem next_watchdogBody {pc : BodyPc} {w : WatchdogPc}
    (h : watchdogBody σ i v forked reaped pc = some (w, σ')) :
    (∃ pc', w = .body i pc') ∨ w = .loop (i + 1) := by
  cases pc with
  | poll =>
    obtain ⟨⟨ret, σ₀⟩, -, hout⟩ := Option.map_eq_some_iff.1 h
    obtain ⟨rfl, -⟩ := Prod.mk.inj hout
    split
    · exact Or.inl ⟨_, rfl⟩
    · exact Or.inr rfl
  | test =>
    obtain ⟨rfl, -⟩ := Prod.mk.inj (Option.some.inj h)
    split
    · exact Or.inl ⟨_, rfl⟩
    · exact Or.inr rfl
  | sleep =>
    obtain ⟨rfl, -⟩ := Prod.mk.inj (Option.some.inj h)
    split <;> exact Or.inl ⟨_, rfl⟩
  | start j p =>
    obtain ⟨⟨p', σ₀⟩, -, hout⟩ := Option.map_eq_some_iff.1 h
    obtain ⟨rfl, -⟩ := Prod.mk.inj hout
    split <;> exact Or.inl ⟨_, rfl⟩
  | relock =>
    obtain ⟨-, hout⟩ := Option.ite_none_left_eq_some.1 h
    obtain ⟨rfl, -⟩ := Prod.mk.inj (Option.some.inj hout)
    exact Or.inr rfl
  | _ =>
    obtain ⟨rfl, -⟩ := Prod.mk.inj (Option.some.inj h)
    exact Or.inl ⟨_, rfl⟩

theorem bodyAt_watchdogBody {pc : BodyPc} {w : WatchdogPc}
    (h : watchdogBody σ i v forked reaped pc = some (w, σ')) (hk : k ≠ i) : w.bodyAt k = none := by
  rcases next_watchdogBody h with ⟨pc', rfl⟩ | rfl
  · exact bodyAt_body_of_ne hk pc'
  · rfl

/-- A statement of the loop body touches the service the watchdog has found dead, and calls
`pm_start` for it. -/
theorem touches_watchdogBody {pc : BodyPc} {w : WatchdogPc}
    (htarget : ∀ j p, pc = .start j p → j = i) (hfind : findService σ.services v.name = some i)
    (h : watchdogBody σ i v forked reaped pc = some (w, σ')) :
    Touches σ σ' i ∧ ∀ k j p, w = .body k (.start j p) → j = k := by
  cases pc with
  | poll =>
    obtain ⟨⟨ret, σ₀⟩, hpoll, hout⟩ := Option.map_eq_some_iff.1 h
    obtain ⟨rfl, rfl⟩ := Prod.mk.inj hout
    refine ⟨touches_poll hpoll, fun k j p hw ↦ ?_⟩
    split at hw <;> cases hw
  | setFailed =>
    obtain ⟨rfl, rfl⟩ := Prod.mk.inj (Option.some.inj h)
    exact ⟨.setState σ i _, nofun⟩
  | clearPid =>
    obtain ⟨rfl, rfl⟩ := Prod.mk.inj (Option.some.inj h)
    exact ⟨.setPid σ i _, nofun⟩
  | test =>
    obtain ⟨rfl, rfl⟩ := Prod.mk.inj (Option.some.inj h)
    refine ⟨.of_eq rfl i, fun k j p hw ↦ ?_⟩
    split at hw <;> cases hw
  | count =>
    obtain ⟨rfl, rfl⟩ := Prod.mk.inj (Option.some.inj h)
    exact ⟨⟨fun v ↦ { v with restartCount := v.restartCount + 1 }, fun _ ↦ rfl, rfl⟩, nofun⟩
  | unlock =>
    obtain ⟨rfl, rfl⟩ := Prod.mk.inj (Option.some.inj h)
    exact ⟨.of_eq rfl i, nofun⟩
  | sleep =>
    obtain ⟨rfl, rfl⟩ := Prod.mk.inj (Option.some.inj h)
    refine ⟨.of_eq rfl i, fun k j p hw ↦ ?_⟩
    rw [hfind] at hw
    obtain ⟨rfl, hp⟩ := WatchdogPc.body.inj hw
    exact (BodyPc.start.inj hp).1.symm
  | start j p =>
    obtain rfl := htarget j p rfl
    obtain ⟨⟨p', σ₀⟩, hbind, hout⟩ := Option.map_eq_some_iff.1 h
    obtain ⟨v', -, hstart⟩ := Option.bind_eq_some_iff.1 hbind
    obtain ⟨rfl, rfl⟩ := Prod.mk.inj hout
    refine ⟨touches_pmStart hstart, fun k j' p hw ↦ ?_⟩
    split at hw
    · obtain ⟨rfl, hp⟩ := WatchdogPc.body.inj hw
      exact (BodyPc.start.inj hp).1.symm
    · cases (WatchdogPc.body.inj hw).2
  | relock =>
    obtain ⟨-, hout⟩ := Option.ite_none_left_eq_some.1 h
    obtain ⟨rfl, rfl⟩ := Prod.mk.inj (Option.some.inj hout)
    exact ⟨.of_eq rfl i, nofun⟩

/-! ### The wiring -/

/-- `main` has not created the watchdog yet. -/
def MainPc.Booting : MainPc → Prop
  | .register _ | .starting _ | .start _ _ _ => True
  | _ => False

/-- The registrations that are left. -/
def MainPc.unregistered : MainPc → List Registration
  | .register todo => todo
  | _ => []

/-- The names of the services, registered or not. -/
def State.names (s : State) : List String :=
  s.shared.services.map Service.name ++ s.main.unregistered.map Registration.name

/-- The names are distinct and the threads in their places. -/
structure Wired (s : State) : Prop where
  /-- The services' names are distinct. -/
  names : s.names.Nodup
  /-- The watchdog is created after the services were started. -/
  booting : s.main.Booting → s.watchdog = none
  /-- A handler runs on a thread that exists. -/
  host : ∀ pc, s.handler = some (.watchdog, pc) → s.watchdog ≠ none
  /-- The watchdog starts the service it has found dead. -/
  starts : ∀ i j pc, s.watchdog = some (.body i (.start j pc)) → j = i
  /-- The handler stops the service it has found running. -/
  stops : ∀ host i j pc, s.handler = some (host, .stop i j pc) → j = i

variable {s s' : State} {l : Label}

/-- A service is found by its name. -/
theorem Wired.findService (hs : Wired s) (hv : s.shared.services[i]? = some v) :
    findService s.shared.services v.name = some i := by
  have hnd : (s.shared.services.map Service.name).Nodup := (List.nodup_append.1 hs.names).1
  obtain ⟨hi, rfl⟩ := List.getElem?_eq_some_iff.1 hv
  rw [ProcessManager.findService, List.findIdx?_eq_some_iff_getElem]
  refine ⟨hi, decide_eq_true rfl, fun k hk hname ↦ hk.ne ?_⟩
  by_contra hne
  refine List.nodup_iff_getElem?_ne_getElem?.1 hnd k i hk (by simpa using hi) ?_
  rw [List.getElem?_map, List.getElem?_map, List.getElem?_eq_getElem hi,
    List.getElem?_eq_getElem (hk.trans hi)]
  exact congrArg some (of_decide_eq_true hname)

/-- Until it has created the watchdog, the main thread is alone when it moves. -/
theorem Wired.alone (hs : Wired s) (hboot : s.main.Booting) (hfree : s.suspended .main = false) :
    s.watchdog = none ∧ s.handler = none := by
  have hw := hs.booting hboot
  refine ⟨hw, ?_⟩
  rcases hh : s.handler with _ | ⟨host, pc⟩
  · rfl
  cases host with
  | main =>
    rw [State.suspended, hh] at hfree
    cases hfree
  | watchdog => exact absurd hw (hs.host pc hh)

/-- Where the watchdog is, the main thread starts nothing. -/
theorem Wired.start_eq_none (hs : Wired s) (hw : s.watchdog ≠ none) (i : ℕ) :
    (s.roles i).start = none := by
  rw [State.roles]
  cases hmain : s.main with
  | start todo j pc => exact absurd (hs.booting (hmain ▸ trivial)) hw
  | _ => rfl

/-- The names do not change, but for a registration that finds the table full. -/
theorem names_mainThread {m m' : MainPc} (h : mainThread σ forked m = some (m', σ')) :
    (σ'.services.map Service.name ++ m'.unregistered.map Registration.name).Sublist
      (σ.services.map Service.name ++ m.unregistered.map Registration.name) := by
  cases m with
  | register todo =>
    cases todo with
    | nil =>
      obtain ⟨rfl, rfl⟩ := Prod.mk.inj (Option.some.inj h)
      exact List.Sublist.refl _
    | cons reg todo =>
      obtain ⟨rfl, rfl⟩ := Prod.mk.inj (Option.some.inj h)
      dsimp only
      rw [pmRegister]
      split
      · rw [List.map_append, List.append_assoc]
        exact List.Sublist.refl _
      · exact List.Sublist.append_left ((List.sublist_cons_self reg todo).map _) _
  | starting todo =>
    cases todo with
    | nil => cases h
    | cons i todo =>
      obtain ⟨v, -, hout⟩ := Option.map_eq_some_iff.1 h
      obtain ⟨rfl, rfl⟩ := Prod.mk.inj hout
      split <;> exact List.Sublist.refl _
  | start todo j pc =>
    obtain ⟨⟨pc₁, σ₁⟩, hbind, hout⟩ := Option.map_eq_some_iff.1 h
    obtain ⟨v, -, hpm⟩ := Option.bind_eq_some_iff.1 hbind
    obtain ⟨rfl, rfl⟩ := Prod.mk.inj hout
    rw [(touches_pmStart hpm).names]
    split <;> exact List.Sublist.refl _
  | loop =>
    obtain ⟨rfl, rfl⟩ := Prod.mk.inj (Option.some.inj h)
    split <;> exact List.Sublist.refl _
  | cancel | exit =>
    obtain ⟨rfl, rfl⟩ := Prod.mk.inj (Option.some.inj h)
    exact List.Sublist.refl _
  | exited => cases h

/-- Once it has created the watchdog, the main thread starts nothing any more. -/
theorem booting_mainThread {m m' : MainPc} (h : mainThread σ forked m = some (m', σ'))
    (hboot : m'.Booting) : m.Booting := by
  cases m with
  | loop =>
    obtain ⟨rfl, rfl⟩ := Prod.mk.inj (Option.some.inj h)
    split at hboot <;> exact hboot.elim
  | cancel | exit =>
    obtain ⟨rfl, rfl⟩ := Prod.mk.inj (Option.some.inj h)
    exact hboot
  | exited => cases h
  | _ => trivial

/-- A statement of the watchdog. -/
theorem Wired.watchdog {w w' : WatchdogPc} (hs : Wired s) (hw : s.watchdog = some w)
    (h : watchdogThread s.shared forked reaped w = some (w', σ')) :
    Wired { s with watchdog := some w', shared := σ' } := by
  have hboot : ¬ s.main.Booting := fun hb ↦ by
    rw [hs.booting hb] at hw
    cases hw
  have hwired : σ'.services.map Service.name = s.shared.services.map Service.name →
      (∀ k j p, w' = .body k (.start j p) → j = k) →
      Wired { s with watchdog := some w', shared := σ' } := fun hnames hstarts ↦
    { names := by
        rw [State.names, hnames]
        exact hs.names
      booting := fun hb ↦ absurd hb hboot
      host := fun _ _ ↦ nofun
      starts := fun k j p hp ↦ hstarts k j p (Option.some.inj hp)
      stops := hs.stops }
  cases w with
  | test =>
    obtain ⟨rfl, rfl⟩ := Prod.mk.inj (Option.some.inj h)
    refine hwired rfl fun k j p hp ↦ ?_
    split at hp <;> cases hp
  | lock =>
    obtain ⟨-, hout⟩ := Option.ite_none_left_eq_some.1 h
    obtain ⟨rfl, rfl⟩ := Prod.mk.inj (Option.some.inj hout)
    exact hwired rfl nofun
  | loop i =>
    obtain ⟨rfl, rfl⟩ := Prod.mk.inj (Option.some.inj h)
    refine hwired rfl fun k j p hp ↦ ?_
    split at hp
    · split at hp <;> cases hp
    · cases hp
  | body i pc =>
    obtain ⟨v, hv, hout⟩ := Option.bind_eq_some_iff.1 h
    obtain ⟨htouches, hstarts⟩ := touches_watchdogBody
      (fun j p hp ↦ hs.starts i j p (hp ▸ hw)) (hs.findService hv) hout
    exact hwired htouches.names hstarts
  | unlock | sleep =>
    obtain ⟨rfl, rfl⟩ := Prod.mk.inj (Option.some.inj h)
    exact hwired rfl nofun
  | done => cases h

/-- A statement of the handler. -/
theorem Wired.handler {host : Host} {pc : HandlerPc} {pc' : Option HandlerPc} (hs : Wired s)
    (hpc : s.handler = some (host, pc))
    (h : signalHandler s.shared reaped pc = some (pc', σ')) :
    Wired { s with handler := pc'.map (host, ·), shared := σ' } := by
  have hwired : σ'.services.map Service.name = s.shared.services.map Service.name →
      (∀ i j p, pc' = some (.stop i j p) → j = i) →
      Wired { s with handler := pc'.map (host, ·), shared := σ' } := fun hnames hstops ↦
    { names := by
        rw [State.names, hnames]
        exact hs.names
      booting := hs.booting
      host := fun p hp ↦ by
        obtain ⟨_, -, hpair⟩ := Option.map_eq_some_iff.1 hp
        obtain ⟨rfl, -⟩ := Prod.mk.inj hpair
        exact hs.host pc hpc
      starts := hs.starts
      stops := fun _ i j p hp ↦ by
        obtain ⟨p', hp', hpair⟩ := Option.map_eq_some_iff.1 hp
        exact hstops i j p (hp'.trans (congrArg some (Prod.mk.inj hpair).2)) }
  cases pc with
  | setRunning =>
    obtain ⟨rfl, rfl⟩ := Prod.mk.inj (Option.some.inj h)
    exact hwired rfl nofun
  | loop i =>
    rw [signalHandler] at h
    cases hv : s.shared.services[i]? with
    | none =>
      rw [hv] at h
      obtain ⟨rfl, rfl⟩ := Prod.mk.inj (Option.some.inj h)
      exact hwired rfl nofun
    | some v =>
      rw [hv] at h
      obtain ⟨rfl, rfl⟩ := Prod.mk.inj (Option.some.inj h)
      refine hwired rfl fun k j p hp ↦ ?_
      split at hp
      next j' hj' =>
        obtain ⟨rfl, rfl, -⟩ := HandlerPc.stop.inj (Option.some.inj hp)
        obtain ⟨-, hj'⟩ := Option.ite_none_right_eq_some.1 hj'
        rw [hs.findService hv] at hj'
        exact (Option.some.inj hj').symm
      next => cases hp
  | stop i j pc =>
    obtain ⟨⟨pc₁, σ₁⟩, hbind, hout⟩ := Option.map_eq_some_iff.1 h
    obtain ⟨v, -, hpm⟩ := Option.bind_eq_some_iff.1 hbind
    obtain ⟨rfl, rfl⟩ := Prod.mk.inj hout
    refine hwired (touches_pmStop hpm).names fun i' j' p hp ↦ ?_
    have hp := Option.some.inj hp
    split at hp
    · obtain ⟨rfl, rfl, -⟩ := HandlerPc.stop.inj hp
      exact hs.stops host i j pc hpc
    · cases hp

/-- **Every step preserves the wiring.** -/
theorem Wired.step (hs : Wired s) (h : ProcessManager.step s l = some s') : Wired s' := by
  cases does_of_step h with
  | create hfree hm =>
    obtain ⟨-, hh⟩ := hs.alone (hm ▸ trivial) hfree
    have hnames := hs.names
    rw [State.names, hm] at hnames
    exact ⟨hnames, nofun, fun _ _ ↦ nofun, nofun, hs.stops⟩
  | main hfree hthread =>
    exact ⟨hs.names.sublist (names_mainThread hthread),
      fun hb ↦ hs.booting (booting_mainThread hthread hb), hs.host, hs.starts, hs.stops⟩
  | watchdog hw hthread => exact hs.watchdog hw hthread
  | handler hpc hthread => exact hs.handler hpc hthread
  | signal hnone halive =>
    refine ⟨hs.names, hs.booting, fun pc hpc ↦ ?_, hs.starts, fun _ _ _ _ hp ↦ ?_⟩
    · obtain ⟨rfl, -⟩ := Prod.mk.inj (Option.some.inj hpc)
      intro hw
      have hw : s.watchdog = none := hw
      rw [State.alive, hw] at halive
      cases halive
    · cases (Prod.mk.inj (Option.some.inj hp)).2
  | childExit => exact ⟨hs.names, hs.booting, hs.host, hs.starts, hs.stops⟩
  | cancelled hexit hcancellable =>
    refine ⟨hs.names, fun hb ↦ ?_, fun _ _ ↦ nofun, nofun, fun host i j p hp ↦ ?_⟩
    · rw [hexit] at hb
      exact hb.elim
    · exact hs.stops host i j p (Option.ite_none_left_eq_some.1 hp).2

/-- At the start there are no services and no other threads. -/
theorem wired_of_init {registrations : List Registration}
    (hnd : (registrations.map Registration.name).Nodup)
    (h : (processManager registrations).Init s) : Wired s := by
  obtain rfl : s = _ := h
  exact ⟨hnd, fun _ ↦ rfl, nofun, nofun, nofun⟩

end JuliusOS.ProcessManager
