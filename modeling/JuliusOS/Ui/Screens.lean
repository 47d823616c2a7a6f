import JuliusOS.Ui.Lock

/-!
# The screen machine

The screen, the app that is open and the count of swipes on the lock screen are set in many
branches of the loop, some of them through an overlay that opens an app. They stay consistent,
because an overlay that can open an app is only open over the home screen and is the only one
(`Consistent`), and the device is unlocked only by the second of two left swipes
(`screens_consistent`).
-/

namespace JuliusOS.Ui

open UI

/-- What holds of the screens in every reachable state. -/
structure Consistent (c : Control) : Prop where
  /-- On the app screen an app is open. -/
  app : c.state = .app → ∃ name ∈ appInstances, c.currentApp = some name
  /-- On the other screens none is. -/
  noApp : c.state ≠ .app → c.currentApp = none
  /-- Swipes are counted on the lock screen only. -/
  noSwipes : c.state ≠ .lock → c.swipeCount = 0
  /-- The second swipe unlocks. -/
  swipes : c.swipeCount ≤ 1
  /-- Overlays lie over the home screen, and Drop and Cloud over the lock screen too. -/
  above : ∀ o, c.shown o = true →
    c.state = .home ∨ c.state = .lock ∧ (o = .drop ∨ o = .cloud)
  /-- At most one overlay is open. -/
  one : ∀ o o', c.shown o = true → c.shown o' = true → o = o'

namespace Consistent

variable {c : Control}

/-- Spotlight's own `visible` flag does not matter. -/
theorem withVisible (hc : Consistent c) (v : Bool) :
    Consistent { c with spotlightVisible := v } :=
  ⟨hc.app, hc.noApp, hc.noSwipes, hc.swipes, hc.above, hc.one⟩

/-- Closing an overlay keeps the screens consistent. -/
theorem hide (hc : Consistent c) (o : Overlay) : Consistent (c.setShown o false) where
  app := hc.app
  noApp := hc.noApp
  noSwipes := hc.noSwipes
  swipes := hc.swipes
  above o' ho' := hc.above o' (c.shown_of_setShown_false ho').2
  one o' o'' ho' ho'' :=
    hc.one o' o'' (c.shown_of_setShown_false ho').2 (c.shown_of_setShown_false ho'').2

/-- Over a home screen with nothing on it, one overlay can be opened. -/
theorem reveal (hc : Consistent c) (hstate : c.state = .home) (hnone : ∀ o, c.shown o = false)
    (o : Overlay) : Consistent (c.setShown o true) where
  app := hc.app
  noApp := hc.noApp
  noSwipes := hc.noSwipes
  swipes := hc.swipes
  above _ _ := Or.inl hstate
  one o' o'' ho' ho'' := by
    have honly : ∀ o', (c.setShown o true).shown o' = true → o' = o := fun o' ho' ↦
      (c.shown_of_setShown_true ho').resolve_right (by rw [hnone o']; decide)
    rw [honly o' ho', honly o'' ho'']

/-- On the home screen without an app and without swipes, the overlays are what matters. -/
theorem of_home (hstate : c.state = .home) (hcur : c.currentApp = none) (hcount : c.swipeCount = 0)
    (hone : ∀ o o', c.shown o = true → c.shown o' = true → o = o') : Consistent c where
  app happ := absurd (hstate.symm.trans happ) (by decide)
  noApp _ := hcur
  noSwipes _ := hcount
  swipes := hcount ▸ Nat.zero_le 1
  above _ _ := Or.inl hstate
  one := hone

/-- With nothing on the home screen, opening an app keeps the screens consistent. -/
theorem openApp (hc : Consistent c) (hstate : c.state = .home) (hnone : ∀ o, c.shown o = false)
    (name : String) : Consistent (c.openApp name) := by
  have hcur : c.currentApp = none := hc.noApp (by rw [hstate]; decide)
  have hcount : c.swipeCount = 0 := hc.noSwipes (by rw [hstate]; decide)
  have hclosed : ∀ o, c.shown o = true → False := fun o ho ↦ absurd ho (by rw [hnone o]; decide)
  rcases c.openApp_cases name with h | h | ⟨o, -, h⟩ | ⟨hmem, h⟩ <;> rw [h]
  · exact hc
  · exact
      { app := fun happ ↦ absurd happ (by simp)
        noApp := fun _ ↦ hcur
        noSwipes := fun _ ↦ hcount
        swipes := hc.swipes
        above := fun o ho ↦ (hclosed o ho).elim
        one := hc.one }
  · exact hc.reveal hstate hnone o
  · exact
      { app := fun _ ↦ ⟨name, hmem, rfl⟩
        noApp := fun happ ↦ absurd rfl happ
        noSwipes := fun _ ↦ hcount
        swipes := hc.swipes
        above := fun o ho ↦ (hclosed o ho).elim
        one := hc.one }

end Consistent

namespace UI

variable {P : PyText} {s s' : UI} {l : Input}

/-! ### One step -/

/-- An overlay that can open an app is open over the home screen, and alone. -/
theorem home_of_launcher (hc : Consistent s.control) {o : Overlay} (ho : s.shown o = true)
    (hmem : o ∈ [Overlay.switcher, .folder, .spotlight]) :
    s.state = .home ∧ ∀ o', (s.control.setShown o false).shown o' = false := by
  refine ⟨(hc.above o ho).resolve_right ?_, fun o' ↦ Bool.eq_false_iff.2 fun ho' ↦ ?_⟩
  · rintro ⟨-, rfl | rfl⟩ <;> exact absurd hmem (by decide)
  · obtain ⟨hne, ho'⟩ := s.control.shown_of_setShown_false ho'
    exact hne (hc.one o' o ho' ho)

/-- **Every move keeps the screens consistent.** -/
theorem consistent_of_moves {c : Control} (hc : Consistent s.control) (hmove : Moves s l c) :
    Consistent c := by
  cases hmove with
  | stays => exact hc
  | hides o v ho hvis hv => exact (hc.hide o).withVisible v
  | opens name hstate hnone =>
    exact hc.openApp hstate (touchTarget_eq_none_iff.1 hnone) name
  | launches o name ho hmem hvis =>
    obtain ⟨hstate, hnone⟩ := home_of_launcher hc ho hmem
    rw [Control.openApp_setShown _ hmem]
    exact (hc.hide o).openApp hstate hnone name
  | dismisses h => exact hc.withVisible false
  | swipes h hcount =>
    exact
      { app := hc.app
        noApp := hc.noApp
        noSwipes := fun hlock ↦ absurd h.1 hlock
        swipes := Nat.le_of_lt_succ hcount
        above := hc.above
        one := hc.one }
  | unlocks h hcount =>
    have hlock : s.control.state = .lock := h.1
    exact .of_home rfl (hc.noApp (by rw [hlock]; decide)) rfl hc.one
  | shows o v hstate hnone hmem hv =>
    exact (hc.reveal hstate (touchTarget_eq_none_iff.1 hnone) o).withVisible v
  | locks hstate h =>
    have hcur : s.currentApp = none :=
      hc.noApp (by rw [show s.control.state = .home from hstate]; decide)
    refine
      { app := fun happ ↦ absurd happ (by simp)
        noApp := fun _ ↦ hcur
        noSwipes := fun hlock ↦ absurd rfl hlock
        swipes := Nat.zero_le 1
        above := fun o ho ↦ Or.inr ⟨rfl, ?_⟩
        one := hc.one }
    by_contra hne
    have hclosed : s.shown o = false := by
      rcases h with hnone | hesc
      · exact touchTarget_eq_none_iff.1 hnone o
      · exact closed_of_escapesHome hesc (fun he ↦ hne (Or.inl he)) fun he ↦ hne (Or.inr he)
    exact Bool.eq_false_iff.1 hclosed ho
  | leavesApp hstate =>
    have happ : s.control.state = .app := hstate
    exact .of_home rfl rfl (hc.noSwipes (by rw [happ]; decide)) hc.one
  | leavesSettings hstate =>
    have hsettings : s.control.state = .settings := hstate
    exact .of_home rfl (hc.noApp (by rw [hsettings]; decide))
      (hc.noSwipes (by rw [hsettings]; decide)) hc.one

theorem consistent_boot (cfg : Cfg) (notifs : List Notif) :
    Consistent (boot cfg notifs).control where
  app h := absurd h (by simp [control, boot])
  noApp _ := rfl
  noSwipes _ := rfl
  swipes := Nat.zero_le 1
  above _ h := absurd h (by simp [control, boot])
  one _ _ h := absurd h (by simp [control, boot])

/-- Every reachable state has consistent screens. -/
theorem consistent_of_run {s₀ : UI} {ls : List Input} (hinit : (ui P).Init s₀)
    (hrun : (ui P).run s₀ ls = some s) : Consistent s.control := by
  obtain ⟨cfg, notifs, rfl⟩ := hinit
  exact Machine.invariant_of_run (I := fun t ↦ Consistent t.control)
    (fun t l t' ht hstep ↦ consistent_of_moves ht (step_moves hstep))
    (consistent_boot cfg notifs) hrun

/-! ### The swipes since the device was locked -/

/-- One more left swipe where the lock screen handles one; off the lock screen none count. -/
def countSwipe (n : ℕ) (s : UI) (l : Input) : ℕ :=
  if s.state = .lock then if SwipesLock s l then n + 1 else n else 0

/-- The left swipes that the lock screen handles in the run, since it was last entered. -/
def swipesSinceLocked (P : PyText) : ℕ → UI → List Input → ℕ
  | n, _, [] => n
  | n, s, l :: ls =>
    match s.step P l with
    | some s' => swipesSinceLocked P (countSwipe n s l) s' ls
    | none => n

/-- The count goes on where the run does. -/
theorem swipesSinceLocked_append {n : ℕ} {s₀ : UI} {ls : List Input}
    (hrun : (ui P).run s₀ ls = some s) (hstep : s.step P l = some s') :
    swipesSinceLocked P n s₀ (ls ++ [l]) = countSwipe (swipesSinceLocked P n s₀ ls) s l := by
  induction ls generalizing n s₀ with
  | nil =>
    cases hrun
    simp only [List.nil_append, swipesSinceLocked, hstep]
  | cons l' ls ih =>
    obtain ⟨t, ht, hrest⟩ := (ui P).run_cons_eq_some.1 hrun
    have ht : s₀.step P l' = some t := ht
    rw [List.cons_append, swipesSinceLocked, swipesSinceLocked, ht]
    exact ih hrest

/-- A left swipe on the lock screen is counted, or unlocks. -/
theorem step_of_swipesLock (h : SwipesLock s l) (hstep : s.step P l = some s') :
    s'.state = .lock ∧ s'.swipeCount = s.swipeCount + 1 ∨
      s'.state = .home ∧ 2 ≤ s.swipeCount + 1 := by
  obtain ⟨hstate, hnone, hleft⟩ := h
  cases l with
  | mouseUp pos now spawns =>
    obtain ⟨g, hg, hleft⟩ := Option.map_eq_some_iff.1 hleft
    obtain ⟨start, hstart, rfl⟩ := Option.map_eq_some_iff.1 hg
    rw [step, mouseUp, hstart] at hstep
    dsimp only at hstep
    rw [release, hnone] at hstep
    dsimp only at hstep
    rw [releaseScreen, hstate] at hstep
    dsimp only at hstep
    rw [releaseLock, if_pos hleft, Option.map_some, Option.some.injEq] at hstep
    split at hstep
    · rename_i hcount
      exact Or.inr ⟨by rw [← hstep], hcount⟩
    · exact Or.inl ⟨by rw [← hstep]; exact hstate, by rw [← hstep]⟩
  | mouseDown | keyDown | mouseWheel | frame | reply => exact absurd hleft (by simp [gestureOf])

/-- A step that is not such a swipe neither counts one nor unlocks. -/
theorem step_of_not_swipesLock (h : ¬ SwipesLock s l) (hlock : s.state = .lock)
    (hc : Consistent s.control) (hstep : s.step P l = some s') :
    s'.state = .lock ∧ s'.swipeCount = s.swipeCount := by
  have hne : ∀ st, st ≠ .lock → s.state ≠ st := fun st hst he ↦ hst (he.symm.trans hlock)
  have hkeeps : ∀ c, Moves s l c → c.state = .lock ∧ c.swipeCount = s.swipeCount := by
    intro c hmove
    cases hmove with
    | stays => exact ⟨hlock, rfl⟩
    | hides o v ho hvis hv => exact ⟨hlock, rfl⟩
    | opens name hstate hnone => exact absurd hstate (hne _ (by decide))
    | launches o name ho hmem hvis =>
      exact absurd (home_of_launcher hc ho hmem).1 (hne _ (by decide))
    | dismisses h' => exact ⟨hlock, rfl⟩
    | swipes h' hcount => exact absurd h' h
    | unlocks h' hcount => exact absurd h' h
    | shows o v hstate hnone hmem hv => exact absurd hstate (hne _ (by decide))
    | locks hstate h' => exact absurd hstate (hne _ (by decide))
    | leavesApp hstate => exact absurd hstate (hne _ (by decide))
    | leavesSettings hstate => exact absurd hstate (hne _ (by decide))
  exact hkeeps _ (step_moves hstep)

/-- The lock screen is entered with no swipe counted. -/
theorem entered_of_not_lock (hlock : s.state ≠ .lock)
    (hstep : s.step P l = some s') (hlock' : s'.state = .lock) : s'.swipeCount = 0 := by
  have hkeeps : ∀ c, Moves s l c → c.state = .lock → c.swipeCount = 0 := by
    intro c hmove hc'
    cases hmove with
    | stays => exact absurd hc' hlock
    | hides o v ho hvis hv => exact absurd hc' hlock
    | locks hstate h => rfl
    | dismisses h => exact absurd hc' hlock
    | swipes h hcount => exact absurd hc' hlock
    | unlocks h hcount => rfl
    | shows o v hstate hnone hmem hv => exact absurd hc' hlock
    | leavesApp hstate => exact absurd hc' (by simp)
    | leavesSettings hstate => exact absurd hc' (by simp)
    | opens name hstate hnone | launches o name ho hmem hvis =>
      rcases s.control.openApp_cases name with h | h | ⟨o', -, h⟩ | ⟨-, h⟩ <;> rw [h] at hc'
      · exact absurd hc' hlock
      · exact absurd hc' (by simp)
      · exact absurd hc' hlock
      · exact absurd hc' (by simp)
  exact hkeeps _ (step_moves hstep) hlock'

/-- In the lock screen, `swipe_count` is the number of left swipes since it was entered. -/
theorem swipesSinceLocked_of_run {s₀ : UI} {ls : List Input} (hinit : (ui P).Init s₀)
    (hrun : (ui P).run s₀ ls = some s) (hlock : s.state = .lock) :
    swipesSinceLocked P 0 s₀ ls = s.swipeCount := by
  have hinv : (ui P).run s₀ ls = some s ∧
      (s.state = .lock → swipesSinceLocked P 0 s₀ ls = s.swipeCount) := by
    refine Machine.invariant_of_history (M := ui P)
      (I := fun hist t ↦ (ui P).run s₀ hist = some t ∧
        (t.state = .lock → swipesSinceLocked P 0 s₀ hist = t.swipeCount)) ?_ ⟨rfl, ?_⟩ hrun
    · rintro hist t l t' ⟨ht, hcount⟩ hstep
      refine ⟨(ui P).run_append_eq_some.2 ⟨t, ht, ?_⟩, fun hlock' ↦ ?_⟩
      · rw [Machine.run_cons, hstep, Option.bind_some, Machine.run_nil]
      have hstep : t.step P l = some t' := hstep
      have hc := consistent_of_run hinit ht
      rw [swipesSinceLocked_append ht hstep, countSwipe]
      by_cases hlock : t.state = .lock
      · rw [if_pos hlock, hcount hlock]
        by_cases hswipe : SwipesLock t l
        · rw [if_pos hswipe]
          rcases step_of_swipesLock hswipe hstep with ⟨-, h⟩ | ⟨hhome, -⟩
          · exact h.symm
          · exact absurd (hhome.symm.trans hlock') (by decide)
        · rw [if_neg hswipe]
          exact (step_of_not_swipesLock hswipe hlock hc hstep).2.symm
      · -- entered just now, and nothing is carried over from the last time
        rw [if_neg hlock]
        exact (entered_of_not_lock hlock hstep hlock').symm
    · obtain ⟨cfg, notifs, rfl⟩ := hinit
      exact fun _ ↦ rfl
  exact hinv.2 hlock

end UI

/-! ### Every run -/

/-- **The screen machine.** In every reachable state an app is open exactly on the app screen,
swipes are counted only on the lock screen and up to one, and a step that unlocks is a left swipe
that the lock screen handles, at least the second since it was entered. -/
theorem screens_consistent (P : PyText) {s₀ s : UI} {ls : List Input} (hinit : (ui P).Init s₀)
    (hrun : (ui P).run s₀ ls = some s) :
    (s.state = .app ↔ ∃ name ∈ appInstances, s.currentApp = some name) ∧
      (s.state ≠ .app → s.currentApp = none) ∧
      (s.state ≠ .lock → s.swipeCount = 0) ∧ s.swipeCount ≤ 1 ∧
      ∀ l s', s.step P l = some s' → s.state = .lock → s'.state = .home →
        SwipesLock s l ∧ 2 ≤ swipesSinceLocked P 0 s₀ (ls ++ [l]) := by
  have hc := consistent_of_run hinit hrun
  refine ⟨⟨hc.app, ?_⟩, hc.noApp, hc.noSwipes, hc.swipes, fun l s' hstep hlock hhome ↦ ?_⟩
  · rintro ⟨name, -, hcur⟩
    by_contra happ
    rw [show s.currentApp = none from hc.noApp happ] at hcur
    cases hcur
  · have hswipe : SwipesLock s l := by
      by_contra hswipe
      have hstays := (step_of_not_swipesLock hswipe hlock hc hstep).1
      exact absurd (hstays.symm.trans hhome) (by decide)
    refine ⟨hswipe, ?_⟩
    rw [swipesSinceLocked_append hrun hstep, countSwipe, if_pos hlock, if_pos hswipe,
      swipesSinceLocked_of_run hinit hrun hlock]
    rcases step_of_swipesLock hswipe hstep with ⟨hlock', -⟩ | ⟨-, hcount⟩
    · exact absurd (hlock'.symm.trans hhome) (by decide)
    · exact hcount

/-- The device is unlocked by two left swipes. -/
theorem screens_consistent_twoSwipes :
    2 ≤ swipesSinceLocked asciiText 0 (boot DEFAULT_SETTINGS []) (swipeLeft ++ swipeLeft) := by
  have hend : ((ui asciiText).run (boot DEFAULT_SETTINGS []) (swipeLeft ++ swipeLeft)).map
      UI.state = some .home := by
    decide +kernel
  have hbefore : ((ui asciiText).run (boot DEFAULT_SETTINGS [])
      (swipeLeft ++ swipeLeft).dropLast).map UI.state = some .lock := by
    decide +kernel
  obtain ⟨s', hs', hhome⟩ := Option.map_eq_some_iff.1 hend
  obtain ⟨s, hs, hlock⟩ := Option.map_eq_some_iff.1 hbefore
  have hsplit : swipeLeft ++ swipeLeft =
      (swipeLeft ++ swipeLeft).dropLast ++ [.mouseUp ⟨100, 240⟩ 100000 true] := by
    decide
  rw [hsplit, Machine.run_append, hs, Option.bind_some, Machine.run_cons_eq_some] at hs'
  obtain ⟨t, hstep, ht⟩ := hs'
  rw [Machine.run_nil, Option.some.injEq] at ht
  subst ht
  have hstep : s.step asciiText (.mouseUp ⟨100, 240⟩ 100000 true) = some t := hstep
  rw [hsplit]
  exact ((screens_consistent asciiText ⟨_, _, rfl⟩ hs).2.2.2.2 _ t hstep hlock hhome).2

end JuliusOS.Ui
