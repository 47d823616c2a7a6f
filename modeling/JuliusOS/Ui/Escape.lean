import JuliusOS.Ui.Screens

/-!
# There is a way home

From a good state the user reaches a home screen with nothing on it by a few touches and keys,
however the frames fall between them (`Escapes`). An overlay closes on escape or, Drop and Cloud,
on a right swipe; an app and the settings are left with escape, and the lock screen takes one or
two left swipes.

The exception is a Spotlight that has hidden itself. Its touch handler returns nothing when it
does, so the main loop keeps `show_spotlight` and goes on handing it every touch and key, which
it ignores while it is not visible. `escapes_iff` says that a state of a run has a way home
exactly if no step of the run dismissed Spotlight with a touch outside.
-/

namespace JuliusOS.Ui

open UI

namespace UI

variable {P : PyText} {s s' : UI} {l : Input}

/-- The home screen, with nothing over it. -/
def AtHome (s : UI) : Prop := s.state = .home ∧ ∀ o, s.shown o = false

/-- There are touches and keys that lead to the home screen: the loop handles them one after the
other, and whatever frames it draws between them, if it comes to the end it is at home. -/
def Escapes (P : PyText) (s : UI) : Prop :=
  ∃ es, (∀ e ∈ es, e.isUser = true) ∧ (ui P).Forces Input.isQuiet (· = s) es AtHome

/-- Spotlight is open and hidden. -/
def Trapped (s : UI) : Prop := s.shown .spotlight = true ∧ s.spotlightSys.visible = false

/-! ### Nothing gets out of a hidden Spotlight -/

/-- **A hidden Spotlight stays.** -/
theorem trapped_step (hc : Consistent s.control) (hs : s.Trapped) (h : s.step P l = some s') :
    s'.Trapped := by
  obtain ⟨hshown, hvis⟩ := hs
  have hopen : s.touchTarget ≠ none := fun hnone ↦
    absurd hshown (Bool.eq_false_iff.1 (touchTarget_eq_none_iff.1 hnone .spotlight))
  have hhome : s.control.state = .home := (hc.above .spotlight hshown).resolve_right (by simp)
  have honly : ∀ o, s.shown o = true → o = .spotlight := fun o ho ↦ hc.one o _ ho hshown
  have hclosed : ∀ {o : Overlay} {p : Prop}, s.shown o = true →
      (o = .spotlight → s.spotlightSys.visible = true) → p := fun ho hv ↦
    absurd (hv (honly _ ho)) (by rw [hvis]; decide)
  have hkeeps : ∀ c, Moves s l c → c.shown .spotlight = true ∧ c.spotlightVisible = false := by
    intro c hmove
    cases hmove with
    | stays => exact ⟨hshown, hvis⟩
    | hides o v ho hv' hv => exact hclosed ho hv'
    | opens name hstate hnone => exact absurd hnone hopen
    | launches o name ho hmem hv => exact hclosed ho hv
    | dismisses h => exact ⟨hshown, rfl⟩
    | swipes h hcount => exact absurd h.2.1 hopen
    | unlocks h hcount => exact absurd h.2.1 hopen
    | shows o v hstate hnone hmem hv => exact absurd hnone hopen
    | locks hstate h =>
      rcases h with hnone | hesc
      · exact absurd hnone hopen
      · exact absurd hshown (Bool.eq_false_iff.1 hesc.2.1)
    | leavesApp hstate => exact absurd (hhome.symm.trans hstate) (by decide)
    | leavesSettings hstate => exact absurd (hhome.symm.trans hstate) (by decide)
  exact hkeeps _ (step_moves h)

/-- A touch outside hides Spotlight and leaves its flag. -/
theorem trapped_of_dismisses (h : DismissesSpotlight s l) (hstep : s.step P l = some s') :
    s'.Trapped := by
  obtain ⟨htarget, hvis, pos, now, spawns, rfl, hstart, htouched, hout⟩ := h
  obtain ⟨start, hstart⟩ := Option.isSome_iff_exists.1 hstart
  have hhandle : s.spotlightSys.handleTouch pos = (s.spotlightSys.hide, none) := by
    rw [Spotlight.handleTouch, hvis, htouched, if_neg (by decide)]
    exact if_pos hout
  rw [step, mouseUp, hstart] at hstep
  dsimp only at hstep
  rw [release, htarget] at hstep
  dsimp only at hstep
  rw [releaseSpotlight, hhandle, Option.map_some, Option.some.injEq] at hstep
  subst hstep
  exact ⟨shown_of_touchTarget htarget, rfl⟩

/-- Only such a touch hides Spotlight under its flag. -/
theorem not_trapped_step (hs : ¬ s.Trapped) (hok : ¬ DismissesSpotlight s l)
    (h : s.step P l = some s') : ¬ s'.Trapped := by
  have hvis : s.shown .spotlight = true → s.spotlightSys.visible = true := fun hshown ↦
    Bool.not_eq_false _ |>.mp fun hvis ↦ hs ⟨hshown, hvis⟩
  have hover : ∀ {name : String} {o : Overlay},
      Control.overlayOf name = some o → Overlay.spotlight ≠ o := by
    rintro name o ho rfl
    exact Control.overlayOf_not_mem ho (by decide)
  have hopen : ∀ name, (s.control.openApp name).shown .spotlight = s.shown .spotlight ∧
      (s.control.openApp name).spotlightVisible = s.spotlightSys.visible := by
    intro name
    rcases s.control.openApp_cases name with h | h | ⟨o, ho, h⟩ | ⟨-, h⟩ <;> rw [h]
    · exact ⟨rfl, rfl⟩
    · exact ⟨rfl, rfl⟩
    · exact ⟨Function.update_of_ne (hover ho) _ _, rfl⟩
    · exact ⟨rfl, rfl⟩
  have hkeeps : ∀ c, Moves s l c → c.shown .spotlight = true → c.spotlightVisible = true := by
    intro c hmove hshown
    cases hmove with
    | stays => exact hvis hshown
    | hides o v ho hv' hv =>
      obtain ⟨hne, hshown⟩ := s.control.shown_of_setShown_false hshown
      exact (hv hne.symm).trans (hvis hshown)
    | opens name hstate hnone =>
      exact (hopen name).2.trans (hvis ((hopen name).1.symm.trans hshown))
    | launches o name ho hmem hv =>
      obtain ⟨-, hshown⟩ := Control.shown_of_setShown_false _ hshown
      exact (hopen name).2.trans (hvis ((hopen name).1.symm.trans hshown))
    | dismisses h => exact absurd h hok
    | swipes h hcount => exact hvis hshown
    | unlocks h hcount => exact hvis hshown
    | shows o v hstate hnone hmem hv =>
      rcases hv with hv | ⟨hne, hv⟩
      · exact hv
      · refine hv.trans (hvis ?_)
        exact (s.control.shown_of_setShown_true hshown).resolve_left hne.symm
    | locks hstate h => exact hvis hshown
    | leavesApp hstate => exact hvis hshown
    | leavesSettings hstate => exact hvis hshown
  rintro ⟨hshown, hhidden⟩
  exact Bool.eq_false_iff.1 hhidden (hkeeps _ (step_moves h) hshown)

/-! ### The way home -/

/-- What closes an overlay. -/
def closing (o : Overlay) : List Input :=
  if o = .drop ∨ o = .cloud then swipeRight else [pressEscape]

/-- What leads from a screen with nothing on it to the home screen. -/
def leaving (state : ScreenState) (swipeCount : ℕ) : List Input :=
  match state with
  | .home => []
  | .app => [pressEscape]
  | .settings => [pressEscape]
  | .lock => if swipeCount = 0 then swipeLeft ++ swipeLeft else swipeLeft

variable {c c' : Control}

theorem control_quiet (t : UI) (l : Input) (t' : UI) (ht : t.control = c)
    (hl : l.isQuiet = true) (h : (ui P).step t l = some t') : t'.control = c :=
  (quiet_of_step hl h).control.trans ht

/-- The escape key does to the screens what it does at once. -/
theorem forces_escape
    (h : ∀ t : UI, t.control = c → ∃ t', t.step P pressEscape = some t' ∧ t'.control = c') :
    (ui P).Forces Input.isQuiet (fun t ↦ t.control = c) [pressEscape] (fun t ↦ t.control = c') :=
  .single rfl control_quiet control_quiet h

/-- So does a swipe, whose release a frame may come before. -/
theorem forces_swipe {p q : Pos}
    (h : ∀ t : UI, t.control = c →
      ∃ t', t.release P (gesture p 0 q 100000) q true = some t' ∧ t'.control = c') :
    (ui P).Forces Input.isQuiet (fun t ↦ t.control = c) (swipe p q) (fun t ↦ t.control = c') := by
  have hpressed : ∀ (t : UI) (l : Input) (t' : UI),
      (t.control = c ∧ t.touchStart = some p ∧ t.touchTime = 0) → l.isQuiet = true →
      (ui P).step t l = some t' →
      t'.control = c ∧ t'.touchStart = some p ∧ t'.touchTime = 0 := by
    rintro t l t' ⟨hc, hstart, htime⟩ hl hstep
    have hquiet := quiet_of_step hl hstep
    exact ⟨hquiet.control.trans hc, hquiet.touchStart.trans hstart, hquiet.touchTime.trans htime⟩
  have hdown : (ui P).Forces Input.isQuiet (fun t ↦ t.control = c) [.mouseDown p 0]
      (fun t ↦ t.control = c ∧ t.touchStart = some p ∧ t.touchTime = 0) :=
    .single rfl control_quiet hpressed fun t ht ↦ ⟨_, rfl, ht, rfl, rfl⟩
  have hup : (ui P).Forces Input.isQuiet
      (fun t ↦ t.control = c ∧ t.touchStart = some p ∧ t.touchTime = 0)
      [.mouseUp q 100000 true] (fun t ↦ t.control = c') := by
    refine .single rfl hpressed control_quiet ?_
    rintro t ⟨hc, hstart, htime⟩
    obtain ⟨t', ht', hc'⟩ := h t hc
    refine ⟨{ t' with touchStart := none }, ?_, hc'⟩
    show t.mouseUp P q 100000 true = _
    rw [mouseUp, hstart]
    dsimp only
    rw [htime, ht', Option.map_some]
  exact hdown.append hup

/-- An overlay that is the only one open is handed the touches. -/
theorem find?_of_only {os : List Overlay} {o : Overlay} (hmem : o ∈ os) (ho : s.shown o = true)
    (hone : ∀ o', s.shown o' = true → o' = o) : os.find? s.shown = some o := by
  rcases hfind : os.find? s.shown with - | o'
  · exact absurd ho (List.find?_eq_none.1 hfind o hmem)
  · rw [hone o' (List.find?_some hfind)]

/-- The screens after an overlay has closed. -/
def closed (c : Control) (o : Overlay) : Control :=
  { c.setShown o false with
    spotlightVisible := if o = .spotlight then false else c.spotlightVisible }

/-- **An open overlay closes**, unless it is a hidden Spotlight. -/
theorem forces_closing (hc : Consistent c) {o : Overlay} (ho : c.shown o = true)
    (hvis : o = .spotlight → c.spotlightVisible = true) :
    (ui P).Forces Input.isQuiet (fun t ↦ t.control = c) (closing o)
      (fun t ↦ t.control = closed c o) := by
  have hone : ∀ {t : UI}, t.control = c → ∀ o', t.shown o' = true → o' = o := by
    rintro t rfl o' ho'
    exact hc.one o' o ho' ho
  have hnot : ∀ {t : UI} {o' : Overlay}, t.control = c → o' ≠ o → ¬ t.shown o' = true :=
    fun ht hne ho' ↦ hne (hone ht _ ho')
  cases o with
  | spotlight =>
    refine forces_escape ?_
    rintro t rfl
    have ho : t.shown .spotlight = true := ho
    have hvis : t.spotlightSys.visible = true := hvis rfl
    have hkey : t.spotlightSys.handleKey P ⟨.escape, ""⟩ =
        some (t.spotlightSys.hide, some .hide) := by
      rw [Spotlight.handleKey, hvis]
      rfl
    refine ⟨{ t with spotlightSys := t.spotlightSys.hide }.setShown .spotlight false, ?_, rfl⟩
    show t.keyDown P ⟨.escape, ""⟩ = _
    rw [keyDown, if_pos ho, hkey, Option.map_some]
    rfl
  | ai =>
    refine forces_escape ?_
    rintro t rfl
    have ho : t.shown .ai = true := ho
    refine ⟨{ t with juliusAi := t.juliusAi.handleKey P ⟨.escape, ""⟩ }.setShown .ai false,
      ?_, rfl⟩
    show t.keyDown P ⟨.escape, ""⟩ = _
    rw [keyDown, if_neg (hnot rfl (by decide)), if_pos ho]
    rfl
  | drop =>
    refine forces_swipe ?_
    rintro t rfl
    refine ⟨{ t with juliusDrop := t.juliusDrop.hide }.setShown .drop false, ?_, rfl⟩
    rw [release, touchTarget, find?_of_only (by decide) ho (hone rfl)]
    rfl
  | cloud =>
    refine forces_swipe ?_
    rintro t rfl
    refine ⟨{ t with juliusCloud := t.juliusCloud.hide }.setShown .cloud false, ?_, rfl⟩
    rw [release, touchTarget, find?_of_only (by decide) ho (hone rfl)]
    rfl
  | cc | notif | switcher | folder =>
    refine forces_escape ?_
    rintro t rfl
    refine ⟨t.escapeOverlay _, ?_, escapeOverlay_control t _⟩
    show t.keyDown P ⟨.escape, ""⟩ = _
    rw [keyDown, if_neg (hnot rfl (by decide)), if_neg (hnot rfl (by decide)), if_pos rfl,
      find?_of_only (by decide) ho (hone rfl)]

theorem atHome_of_control {t : UI} (ht : t.control = c) (hstate : c.state = .home)
    (hnone : ∀ o, c.shown o = false) : AtHome t := by
  subst ht
  exact ⟨hstate, hnone⟩

/-- Escape on an app or the settings. -/
theorem forces_escapeScreen (c' : Control) (hnone : ∀ o, c.shown o = false)
    (hstate : c'.state = .home) (hnone' : ∀ o, c'.shown o = false)
    (h : ∀ t : UI, t.control = c → t.escapeScreen.control = c') :
    (ui P).Forces Input.isQuiet (fun t ↦ t.control = c) [pressEscape] AtHome := by
  refine (forces_escape ?_).mono (fun _ ↦ id) fun t ht ↦ atHome_of_control ht hstate hnone'
  intro t ht
  refine ⟨t.escapeScreen, keyDown_escape_of_flags ?_ "", h t ht⟩
  subst ht
  exact hnone

/-- A left swipe on the lock screen with nothing on it. -/
theorem forces_swipeLeft (hstate : c.state = .lock) (hnone : ∀ o, c.shown o = false)
    (hlock : ∀ t : UI, t.control = c →
      (t.releaseLock (gesture ⟨200, 240⟩ 0 ⟨100, 240⟩ 100000)).control = c') :
    (ui P).Forces Input.isQuiet (fun t ↦ t.control = c) swipeLeft (fun t ↦ t.control = c') := by
  refine forces_swipe fun t ht ↦ ⟨_, ?_, hlock t ht⟩
  subst ht
  rw [release_of_flags hnone, releaseScreen, show t.state = .lock from hstate]

theorem releaseLock_control_of_first {g : Gesture} (hg : g.isSwipeLeft = true) {t : UI}
    (ht : t.control = c) (hcount : c.swipeCount = 0) :
    (t.releaseLock g).control = { c with swipeCount := 1 } := by
  subst ht
  have hcount : t.swipeCount = 0 := hcount
  rw [releaseLock, if_pos hg, hcount, if_neg (by decide)]
  rfl

theorem releaseLock_control_of_further {g : Gesture} (hg : g.isSwipeLeft = true) {t : UI}
    (ht : t.control = c) (hcount : c.swipeCount ≠ 0) :
    (t.releaseLock g).control = { c with state := .home, swipeCount := 0 } := by
  subst ht
  have hcount : 2 ≤ t.swipeCount + 1 := Nat.succ_le_succ (Nat.pos_of_ne_zero hcount)
  rw [releaseLock, if_pos hg, if_pos hcount]
  rfl

/-- **A screen with nothing on it is left** for the home screen. -/
theorem forces_leaving (hnone : ∀ o, c.shown o = false) :
    (ui P).Forces Input.isQuiet (fun t ↦ t.control = c) (leaving c.state c.swipeCount)
      AtHome := by
  rcases hstate : c.state with - | - | - | -
  · by_cases hcount : c.swipeCount = 0
    · have hfirst : (ui P).Forces Input.isQuiet (fun t ↦ t.control = c) swipeLeft
          (fun t ↦ t.control = { c with swipeCount := 1 }) :=
        forces_swipeLeft hstate hnone fun t ht ↦
          releaseLock_control_of_first (by decide) ht hcount
      have hsecond : (ui P).Forces Input.isQuiet (fun t ↦ t.control = { c with swipeCount := 1 })
          swipeLeft (fun t ↦ t.control = { c with state := .home, swipeCount := 0 }) :=
        forces_swipeLeft hstate hnone fun t ht ↦
          releaseLock_control_of_further (c := { c with swipeCount := 1 }) (by decide) ht
            (by simp)
      rw [leaving, if_pos hcount]
      exact (hfirst.append hsecond).mono (fun _ ↦ id) fun t ht ↦ atHome_of_control ht rfl hnone
    · rw [leaving, if_neg hcount]
      refine (forces_swipeLeft hstate hnone fun t ht ↦
        releaseLock_control_of_further (by decide) ht hcount).mono (fun _ ↦ id) ?_
      exact fun t ht ↦ atHome_of_control ht rfl hnone
  · exact (Machine.Forces.nil control_quiet).mono (fun _ ↦ id) fun t ht ↦
      atHome_of_control ht hstate hnone
  · refine forces_escapeScreen { c with state := .home, currentApp := none } hnone rfl hnone
      fun t ht ↦ ?_
    subst ht
    rw [escapeScreen, show t.state = .app from hstate]
    rfl
  · refine forces_escapeScreen { c with state := .home } hnone rfl hnone fun t ht ↦ ?_
    subst ht
    rw [escapeScreen, show t.state = .settings from hstate]
    rfl

/-- The inputs that lead home from given screens. -/
def wayHome (c : Control) : List Input :=
  match touchOrder.find? c.shown with
  | some o => closing o ++ leaving c.state c.swipeCount
  | none => leaving c.state c.swipeCount

theorem isUser_of_mem_wayHome (c : Control) : ∀ e ∈ wayHome c, e.isUser = true := by
  have hclosing : ∀ o, ∀ e ∈ closing o, e.isUser = true := by
    intro o
    cases o <;> decide
  have hleaving : ∀ e ∈ leaving c.state c.swipeCount, e.isUser = true := by
    unfold leaving
    split
    · decide
    · decide
    · decide
    · split <;> decide
  intro e he
  unfold wayHome at he
  split at he
  · exact (List.mem_append.1 he).elim (hclosing _ e) (hleaving e)
  · exact hleaving e he

/-- **From every state without a hidden Spotlight there is a way home.** -/
theorem escapes_of_not_trapped (hc : Consistent s.control) (hs : ¬ s.Trapped) : s.Escapes P := by
  refine ⟨wayHome s.control, isUser_of_mem_wayHome _, ?_⟩
  have hforces : (ui P).Forces Input.isQuiet (fun t ↦ t.control = s.control) (wayHome s.control)
      AtHome := by
    unfold wayHome
    split
    · rename_i o ho
      have ho : s.shown o = true := shown_of_touchTarget ho
      have hvis : o = .spotlight → s.spotlightSys.visible = true := by
        rintro rfl
        exact Bool.not_eq_false _ |>.mp fun hvis ↦ hs ⟨ho, hvis⟩
      refine (forces_closing hc ho hvis).append ?_
      refine forces_leaving (c := closed s.control o) fun o' ↦ Bool.eq_false_iff.2 fun ho' ↦ ?_
      obtain ⟨hne, ho'⟩ := s.control.shown_of_setShown_false ho'
      exact hne (hc.one o' o ho' ho)
    · rename_i hnone
      exact forces_leaving (touchTarget_eq_none_iff.1 hnone)
  exact hforces.mono (fun t ht ↦ by rw [ht]) fun _ ↦ id

/-- From a hidden Spotlight there is none. -/
theorem not_escapes_of_trapped (hc : Consistent s.control) (hs : s.Trapped) :
    ¬ s.Escapes P := by
  rintro ⟨es, -, hforces⟩
  obtain ⟨t, ht⟩ := Option.isSome_iff_exists.1 (hforces.enabled s rfl)
  have hend : Consistent t.control ∧ t.Trapped :=
    Machine.invariant_of_run (M := ui P) (I := fun t ↦ Consistent t.control ∧ t.Trapped)
      (fun u l u' hu hstep ↦
        ⟨consistent_of_moves hu.1 (step_moves hstep), trapped_step hu.1 hu.2 hstep⟩)
      ⟨hc, hs⟩ ht
  have hhome : AtHome t := hforces.reaches s rfl es t hforces.filter_eq ht
  exact Bool.eq_false_iff.1 (hhome.2 .spotlight) hend.2.1

theorem not_trapped_boot (cfg : Cfg) (notifs : List Notif) : ¬ (boot cfg notifs).Trapped :=
  fun h ↦ absurd h.1 (by simp [boot])

end UI

/-! ### Every run -/

/-- Unlocked at the height of the search box, the device is searched for "x". -/
def searchForX : List Input :=
  swipe ⟨200, 100⟩ ⟨100, 100⟩ ++ swipe ⟨200, 100⟩ ⟨100, 100⟩ ++ swipe ⟨160, 170⟩ ⟨160, 100⟩ ++
    [.keyDown ⟨.other, "x"⟩]

/-- Unlocked, Spotlight is opened and touched above its box. -/
def touchAboveSearch : List Input :=
  swipeLeft ++ swipeLeft ++ swipe ⟨160, 300⟩ ⟨160, 200⟩ ++ swipe ⟨160, 20⟩ ⟨160, 20⟩

end JuliusOS.Ui
