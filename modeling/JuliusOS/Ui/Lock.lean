import JuliusOS.Ui.Moves

/-!
# The lock screen is left alone

While the UI is locked no overlay should be open: an open overlay is drawn over the lock screen
and is handed the touches. The touch branch of the loop locks the home screen only when nothing
is open, but the escape key locks it once the overlays its chain knows are closed, and the chain
knows neither Drop nor Cloud.

`isolated_iff` says that this is the only way: a run keeps the lock screen isolated in every
state exactly if it never presses escape on the home screen with Drop or Cloud open and nothing
above them.
-/

namespace JuliusOS.Ui

namespace UI

variable {P : PyText} {s s' : UI} {l : Input}

/-- Every flag is cleared, a frame draws no overlay, and every release is the lock screen's. -/
structure LockAlone (P : PyText) (s : UI) : Prop where
  flags : ∀ o, s.shown o = false
  drawn : s.drawn = []
  release : ∀ g pos spawns, s.release P g pos spawns = some (s.releaseLock g)

/-- While locked, the lock screen is alone. -/
def Isolated (P : PyText) (s : UI) : Prop := s.state = .lock → s.LockAlone P

/-- The escape key locks the home screen while Drop or Cloud is open. -/
def LocksUnderOverlay (s : UI) (l : Input) : Prop :=
  EscapesHome s l ∧ (s.shown .drop = true ∨ s.shown .cloud = true)

/-! ### What the flags decide -/

theorem drawn_eq_nil_of_flags (h : ∀ o, s.shown o = false) : s.drawn = [] := by
  refine List.filter_eq_nil_iff.2 fun o _ ↦ ?_
  rw [h o]
  decide

theorem lockAlone_iff (hlock : s.state = .lock) :
    s.LockAlone P ↔ ∀ o, s.shown o = false := by
  refine ⟨LockAlone.flags, fun h ↦ ⟨h, drawn_eq_nil_of_flags h, fun g pos spawns ↦ ?_⟩⟩
  rw [release_of_flags h, releaseScreen, hlock]

/-- Isolation in terms of the screens alone. -/
theorem isolated_iff_control :
    s.Isolated P ↔ (s.control.state = .lock → ∀ o, s.control.shown o = false) :=
  forall_congr' fun hlock ↦ lockAlone_iff hlock

/-! ### One step -/

/-- Falling through its chain, the escape key locks the home screen and closes nothing. -/
theorem step_of_escapesHome (h : EscapesHome s l) :
    s.step P l = some { s with state := .lock, swipeCount := 0 } := by
  obtain ⟨hstate, hspot, hai, hchain, u, rfl⟩ := h
  rw [step, keyDown, if_neg (by rw [hspot]; decide), if_neg (by rw [hai]; decide), if_pos rfl,
    hchain]
  dsimp only
  rw [escapeScreen, hstate]

/-- When the escape key locks the home screen, only Drop and Cloud can be open. -/
theorem closed_of_escapesHome (h : EscapesHome s l) {o : Overlay} (hdrop : o ≠ .drop)
    (hcloud : o ≠ .cloud) : s.shown o = false := by
  obtain ⟨-, hspot, hai, hchain, -⟩ := h
  rw [List.find?_eq_none] at hchain
  have hesc : ∀ o ∈ escapeOrder, s.shown o = false := fun o ho ↦ Bool.eq_false_iff.2 (hchain o ho)
  cases o with
  | cc | notif | switcher | folder => exact hesc _ (by decide)
  | spotlight => exact hspot
  | ai => exact hai
  | drop => exact absurd rfl hdrop
  | cloud => exact absurd rfl hcloud

/-- A move onto the lock screen that does not lock under an overlay finds or leaves none open. -/
theorem flags_of_moves {c : Control} (hmove : Moves s l c)
    (hs : s.state = .lock → ∀ o, s.shown o = false) (hok : ¬ LocksUnderOverlay s l)
    (hc : c.state = .lock) (o : Overlay) : c.shown o = false := by
  cases hmove with
  | stays => exact hs hc o
  | hides o' v ho hvis hv => exact absurd ho (by rw [hs hc o']; decide)
  | opens name hstate hnone =>
    rcases s.control.openApp_cases name with h | h | ⟨o', -, h⟩ | ⟨-, h⟩ <;> rw [h] at hc
    · exact absurd (hstate.symm.trans hc) (by decide)
    · exact absurd hc (by simp)
    · exact absurd (hstate.symm.trans hc) (by decide)
    · exact absurd hc (by simp)
  | launches o' name ho hmem hvis =>
    rcases s.control.openApp_cases name with h | h | ⟨o'', -, h⟩ | ⟨-, h⟩ <;> rw [h] at hc
    · exact absurd ho (by rw [hs hc o']; decide)
    · exact absurd hc (by simp)
    · exact absurd ho (by rw [hs hc o']; decide)
    · exact absurd hc (by simp)
  | dismisses h => exact hs hc o
  | swipes h hcount => exact hs hc o
  | unlocks h hcount => exact absurd hc (by simp)
  | shows o' v hstate hnone hmem hv => exact absurd (hstate.symm.trans hc) (by decide)
  | locks hstate h =>
    rcases h with hnone | hesc
    · exact touchTarget_eq_none_iff.1 hnone o
    · refine Bool.eq_false_iff.2 fun ho ↦ hok ⟨hesc, ?_⟩
      by_contra hne
      refine absurd ho (Bool.eq_false_iff.1 (closed_of_escapesHome hesc ?_ ?_))
      · rintro rfl
        exact hne (Or.inl ho)
      · rintro rfl
        exact hne (Or.inr ho)
  | leavesApp hstate => exact absurd hc (by simp)
  | leavesSettings hstate => exact absurd hc (by simp)

/-- **One step keeps the lock screen isolated exactly if it does not lock under an overlay.** -/
theorem not_locksUnderOverlay_iff (hs : s.Isolated P) (h : s.step P l = some s') :
    ¬ LocksUnderOverlay s l ↔ s'.Isolated P := by
  constructor
  · intro hok
    exact isolated_iff_control.2 (flags_of_moves (step_moves h) (isolated_iff_control.1 hs) hok)
  · rintro hs' ⟨hesc, hopen⟩
    obtain rfl := Option.some.inj ((step_of_escapesHome hesc).symm.trans h)
    have hflags := (hs' rfl).flags
    rcases hopen with hopen | hopen
    · exact absurd hopen (by rw [show s.shown .drop = false from hflags .drop]; decide)
    · exact absurd hopen (by rw [show s.shown .cloud = false from hflags .cloud]; decide)

theorem isolated_boot (cfg : Cfg) (notifs : List Notif) : (boot cfg notifs).Isolated P :=
  fun hlock ↦ (lockAlone_iff hlock).2 fun _ ↦ rfl

end UI

/-! ### Every run -/

open UI

/-- **The lock screen is isolated in every state of a run exactly if no step of the run locks
under Drop or Cloud.** -/
theorem isolated_iff (P : PyText) {s₀ s : UI} {ls : List Input} (hinit : (ui P).Init s₀)
    (hrun : (ui P).run s₀ ls = some s) :
    (ui P).Guarded (fun t l ↦ ¬ LocksUnderOverlay t l) s₀ ls ↔
      ∀ n t, (ui P).run s₀ (ls.take n) = some t → t.Isolated P := by
  obtain ⟨cfg, notifs, rfl⟩ := hinit
  exact Machine.guarded_iff_forall_take (J := fun _ ↦ True)
    (fun t l t' _ ht hstep ↦ ⟨trivial, not_locksUnderOverlay_iff ht hstep⟩) trivial
    (isolated_boot cfg notifs) hrun

/-- Two left swipes unlock the device and a downward swipe locks it again. -/
def unlockThenLock : List Input :=
  swipeLeft ++ swipeLeft ++ swipe ⟨160, 200⟩ ⟨160, 300⟩

/-- A run without keys keeps the lock screen isolated. -/
theorem isolated_of_unlockThenLock :
    ∃ s, (ui asciiText).run (boot DEFAULT_SETTINGS []) unlockThenLock = some s ∧
      ∀ n t, (ui asciiText).run (boot DEFAULT_SETTINGS []) (unlockThenLock.take n) = some t →
        t.Isolated asciiText := by
  have hend : ((ui asciiText).run (boot DEFAULT_SETTINGS []) unlockThenLock).isSome = true := by
    decide +kernel
  obtain ⟨s, hs⟩ := Option.isSome_iff_exists.1 hend
  refine ⟨s, hs, (isolated_iff asciiText ⟨_, _, rfl⟩ hs).1 ?_⟩
  refine Machine.guarded_of_invariant (I := fun _ ↦ True) (P := fun l ↦ ∀ e, l ≠ .keyDown e)
    ?_ (fun _ _ _ _ _ _ ↦ trivial) trivial (by simp [unlockThenLock, swipeLeft, swipe])
  rintro t l - hl ⟨⟨-, -, -, -, u, hu⟩, -⟩
  exact hl _ hu

/-- Unlocked, the device is searched for "dr", the result Drop is opened and escape pressed. -/
def escapeUnderDrop : List Input :=
  swipeLeft ++ swipeLeft ++ swipe ⟨160, 300⟩ ⟨160, 200⟩ ++
    [.keyDown ⟨.other, "d"⟩, .keyDown ⟨.other, "r"⟩, .keyDown ⟨.ret, "\r"⟩, pressEscape]

/-- The escape key leaves Drop open over the lock screen. -/
theorem not_isolated_escapeUnderDrop :
    ∃ s, (ui asciiText).run (boot DEFAULT_SETTINGS []) escapeUnderDrop = some s ∧
      ¬ s.Isolated asciiText := by
  have hend : ((ui asciiText).run (boot DEFAULT_SETTINGS []) escapeUnderDrop).map
      (fun s ↦ (s.state, s.shown .drop)) = some (.lock, true) := by
    decide +kernel
  obtain ⟨s, hs, hend⟩ := Option.map_eq_some_iff.1 hend
  obtain ⟨hlock, hdrop⟩ := Prod.mk.inj hend
  exact ⟨s, hs, fun hs ↦ absurd ((hs hlock).flags .drop) (by rw [hdrop]; decide)⟩

end JuliusOS.Ui
