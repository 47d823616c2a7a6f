import JuliusOS.Foundations.Calls
import JuliusOS.Foundations.MostRecent
import JuliusOS.Ui.Overlays

/-!
# The app switcher agrees with itself

The switcher keeps the recent apps, the index of the highlighted card and the place its cards scroll
to. A swipe changes the index, which stops at both ends of the list, and the place, which does not;
a tap on a close button takes a name out of the list and leaves the index. The cards that are tapped
are those of the last frame, so a card may name an app that has been closed since, and removing it
raises.

`coherent_iff` says that these are the only ways out of step.
-/

namespace JuliusOS.Ui.AppSwitcher

variable {s : AppSwitcher}

/-! ### The calls -/

/-- A call of one of the switcher's methods. -/
inductive Call
  | addRecent (appName : String)
  | show'
  | hide
  /-- A frame in which the animation is at `scrollX`. -/
  | draw (scrollX : Int)
  | touch (pos : Pos) (isSwipeLeft isSwipeRight : Bool)
deriving DecidableEq, Repr

/-- The switcher after a call, and whether the call raises. -/
def call (s : AppSwitcher) : Call → AppSwitcher × Bool
  | .addRecent appName => (s.addRecent appName, false)
  | .show' => (s.show', false)
  | .hide => (s.hide, false)
  | .draw scrollX => (s.draw scrollX, false)
  | .touch pos isSwipeLeft isSwipeRight =>
    match s.handleTouch pos isSwipeLeft isSwipeRight with
    | some r => (r.1, false)
    | none => (s, true)

/-- A switcher and the apps that have been opened, the last one first. -/
structure Used where
  switcher : AppSwitcher
  opened : List String

/-- The apps a call opens. -/
def Call.opens : Call → List String
  | .addRecent appName => [appName]
  | _ => []

/-- A call, with the apps that have been opened. -/
def Used.call (u : Used) (c : Call) : Used × Bool :=
  (⟨(u.switcher.call c).1, c.opens ++ u.opened⟩, (u.switcher.call c).2)

/-- The switcher from `__init__` on. -/
def calls : Machine (Calls.State Used) Call :=
  Calls.machine (· = ⟨init, []⟩) Used.call

/-! ### What is promised -/

/-- The highlighted card is one of the cards, and the one the cards scroll to. -/
structure Centered (s : AppSwitcher) : Prop where
  nonneg : 0 ≤ s.selected
  le : s.selected ≤ max 0 ((s.recent.length : Int) - 1)
  target : s.targetX = 180 * s.selected

/-- The recent apps are at most eight, none twice, from last to first opened, and the highlighted
card is centered. -/
structure Coherent (u : Used) : Prop extends Centered u.switcher where
  ordered : MostRecent.Ordered 8 u.switcher.recent u.opened

/-- The card that a tap hits: the first one that it hits the close button or the card of. -/
def tapped (s : AppSwitcher) (pos : Pos) : Option Card :=
  (s.cardRects.getD []).reduceOption.find? fun card ↦ card.close.hit pos || card.rect.hit pos

/-- A swipe goes on to another card; a close button that is tapped is that of an app which is still
there, with another card after the highlighted one, unless that is the first. -/
def Follows (s : AppSwitcher) : Call → Prop
  | .touch pos isSwipeLeft isSwipeRight =>
    s.visible = true →
      if isSwipeLeft then s.selected + 1 < s.recent.length
      else if isSwipeRight then 0 < s.selected
      else ∀ card, s.tapped pos = some card → card.close.hit pos = true →
        card.name ∈ s.recent ∧ (s.selected = 0 ∨ s.selected + 1 < s.recent.length)
  | _ => True

/-- The call follows the cards. -/
def Used.Follows (u : Used) (c : Call) : Prop := u.switcher.Follows c

/-! ### The highlighted card -/

theorem centered_congr {t : AppSwitcher} (hrecent : t.recent = s.recent)
    (hselected : t.selected = s.selected) (htarget : t.targetX = s.targetX) (h : Centered s) :
    Centered t :=
  ⟨hselected ▸ h.nonneg, hselected ▸ hrecent ▸ h.le, hselected ▸ htarget ▸ h.target⟩

theorem centered_hide (h : Centered s) : Centered s.hide := ⟨h.nonneg, h.le, h.target⟩

theorem centered_left_iff (h : Centered s) :
    Centered { s with
      selected := min (s.selected + 1) (s.recent.length - 1)
      targetX := s.targetX + 180 } ↔ s.selected + 1 < s.recent.length := by
  have hnonneg := h.nonneg
  have htarget := h.target
  constructor
  · intro h'
    have htarget' : s.targetX + 180 = 180 * min (s.selected + 1) ((s.recent.length : Int) - 1) :=
      h'.target
    omega
  · intro hroom
    refine ⟨?_, ?_, ?_⟩ <;> dsimp only <;> omega

theorem centered_right_iff (h : Centered s) :
    Centered { s with selected := max (s.selected - 1) 0, targetX := s.targetX - 180 } ↔
      0 < s.selected := by
  have hnonneg := h.nonneg
  have hle := h.le
  have htarget := h.target
  constructor
  · intro h'
    have htarget' : s.targetX - 180 = 180 * max (s.selected - 1) 0 := h'.target
    omega
  · intro hpos
    refine ⟨?_, ?_, ?_⟩ <;> dsimp only <;> omega

/-- A name is taken out of the list. -/
theorem centered_erase_iff (h : Centered s) {name : String} (hmem : name ∈ s.recent) :
    Centered { s with recent := s.recent.erase name } ↔
      s.selected = 0 ∨ s.selected + 1 < s.recent.length := by
  have hnonneg := h.nonneg
  have hlen : (s.recent.erase name).length + 1 = s.recent.length := by
    rw [List.length_erase_of_mem hmem]
    exact Nat.sub_add_cancel (List.length_pos_of_mem hmem)
  constructor
  · intro h'
    have hle : s.selected ≤ max 0 (((s.recent.erase name).length : Int) - 1) := h'.le
    omega
  · intro hroom
    refine ⟨hnonneg, ?_, h.target⟩
    dsimp only
    omega

theorem centered_addRecent (h : Centered s) {opened : List String}
    (hordered : MostRecent.Ordered 8 s.recent opened) (appName : String) :
    Centered (s.addRecent appName) := by
  have hlen : s.recent.length ≤ (s.addRecent appName).recent.length :=
    hordered.le_length_use appName
  refine ⟨h.nonneg, ?_, h.target⟩
  have hle := h.le
  show s.selected ≤ max 0 (((s.addRecent appName).recent.length : Int) - 1)
  omega

theorem draw_frame (s : AppSwitcher) (scrollX : Int) :
    (s.draw scrollX).recent = s.recent ∧ (s.draw scrollX).selected = s.selected ∧
      (s.draw scrollX).targetX = s.targetX := by
  unfold draw
  split_ifs <;> exact ⟨rfl, rfl, rfl⟩

/-! ### Taps -/

/-- A card that a tap does not hit is passed over. -/
theorem touchCard_eq_none_iff (pos : Pos) (card : Card) :
    s.touchCard pos card = none ↔ (card.close.hit pos || card.rect.hit pos) = false := by
  unfold touchCard
  cases card.close.hit pos <;> cases card.rect.hit pos <;> simp

/-- The handler is what the card that is tapped says. -/
theorem findSome_touchCard (pos : Pos) :
    (s.cardRects.getD []).reduceOption.findSome? (s.touchCard pos) =
      (s.tapped pos).bind (s.touchCard pos) := by
  unfold tapped
  induction (s.cardRects.getD []).reduceOption with
  | nil => rfl
  | cons card cards ih =>
    rw [List.findSome?_cons, List.find?_cons]
    cases hhit : card.close.hit pos || card.rect.hit pos with
    | false =>
      rw [(touchCard_eq_none_iff pos card).2 hhit]
      exact ih
    | true =>
      cases htouch : s.touchCard pos card with
      | none =>
        rw [touchCard_eq_none_iff, hhit] at htouch
        cases htouch
      | some r => exact htouch.symm

/-- **What a tap does**: nothing, or what the first card it hits says. -/
theorem call_tap (hvis : s.visible = true) (pos : Pos) :
    (s.call (.touch pos false false) = (s, false) ∧ s.tapped pos = none) ∨
    ∃ card, s.tapped pos = some card ∧
      ((card.close.hit pos = false ∧ s.call (.touch pos false false) = (s.hide, false)) ∨
       (card.close.hit pos = true ∧ card.name ∈ s.recent ∧
        s.call (.touch pos false false) = ({ s with recent := s.recent.erase card.name }, false)) ∨
       (card.close.hit pos = true ∧ card.name ∉ s.recent ∧
        s.call (.touch pos false false) = (s, true))) := by
  have htouch : s.handleTouch pos false false =
      ((s.tapped pos).bind (s.touchCard pos)).getD (some (s, none)) := by
    rw [handleTouch, findSome_touchCard, hvis]
    rfl
  cases htap : s.tapped pos with
  | none =>
    rw [htap] at htouch
    refine .inl ⟨?_, rfl⟩
    simp only [call, htouch, Option.bind_none, Option.getD_none]
  | some card =>
    have hhit : (card.close.hit pos || card.rect.hit pos) = true := by
      have hpred := List.find?_some (p := fun c : Card ↦ c.close.hit pos || c.rect.hit pos) htap
      exact hpred
    rw [htap, Option.bind_some, touchCard] at htouch
    refine .inr ⟨card, rfl, ?_⟩
    cases hclose : card.close.hit pos with
    | false =>
      rw [hclose, Bool.false_or] at hhit
      refine .inl ⟨rfl, ?_⟩
      simp only [call, htouch, hclose, hhit, Bool.false_eq_true, if_false, if_true,
        Option.getD_some]
    | true =>
      by_cases hmem : card.name ∈ s.recent
      · refine .inr (.inl ⟨rfl, hmem, ?_⟩)
        simp only [call, htouch, hclose, hmem, if_true, Option.getD_some]
      · refine .inr (.inr ⟨rfl, hmem, ?_⟩)
        simp only [call, htouch, hclose, hmem, if_true, if_false, Option.getD_some]

theorem call_left (hvis : s.visible = true) (pos : Pos) (isSwipeRight : Bool) :
    s.call (.touch pos true isSwipeRight) =
      ({ s with
        selected := min (s.selected + 1) (s.recent.length - 1)
        targetX := s.targetX + 180 }, false) := by
  simp only [call, handleTouch, hvis, Bool.not_true, Bool.false_eq_true, if_false, if_true]

theorem call_right (hvis : s.visible = true) (pos : Pos) :
    s.call (.touch pos false true) =
      ({ s with selected := max (s.selected - 1) 0, targetX := s.targetX - 180 }, false) := by
  simp only [call, handleTouch, hvis, Bool.not_true, Bool.false_eq_true, if_false, if_true]

theorem call_touch_of_hidden (hvis : s.visible = false) (pos : Pos)
    (isSwipeLeft isSwipeRight : Bool) :
    s.call (.touch pos isSwipeLeft isSwipeRight) = (s, false) := by
  simp only [call, handleTouch, hvis, Bool.not_false, if_true]

/-! ### One call -/

/-- A touch leaves the card centered, and raises nothing, exactly if it follows the cards. -/
theorem touch_centered_iff (h : Centered s) (pos : Pos) (isSwipeLeft isSwipeRight : Bool) :
    ((s.call (.touch pos isSwipeLeft isSwipeRight)).2 = false ∧
        Centered (s.call (.touch pos isSwipeLeft isSwipeRight)).1) ↔
      Follows s (.touch pos isSwipeLeft isSwipeRight) := by
  cases hvis : s.visible with
  | false =>
    rw [call_touch_of_hidden hvis]
    refine iff_of_true ⟨rfl, h⟩ fun hvis' ↦ ?_
    rw [hvis] at hvis'
    cases hvis'
  | true =>
    simp only [Follows, hvis, true_implies]
    cases isSwipeLeft with
    | true =>
      rw [call_left hvis, if_pos rfl, ← centered_left_iff h]
      exact ⟨fun hcall ↦ hcall.2, fun hcall ↦ ⟨rfl, hcall⟩⟩
    | false =>
      rw [if_neg Bool.false_ne_true]
      cases isSwipeRight with
      | true =>
        rw [call_right hvis, if_pos rfl, ← centered_right_iff h]
        exact ⟨fun hcall ↦ hcall.2, fun hcall ↦ ⟨rfl, hcall⟩⟩
      | false =>
        rw [if_neg Bool.false_ne_true]
        rcases call_tap hvis pos with ⟨hcall, htap⟩ | ⟨card, htap, hcases⟩
        · rw [hcall]
          refine iff_of_true ⟨rfl, h⟩ fun card hcard ↦ ?_
          rw [htap] at hcard
          cases hcard
        · have hcard : ∀ q : Card → Prop, (∀ c, s.tapped pos = some c → q c) ↔ q card := by
            intro q
            rw [htap]
            exact ⟨fun hq ↦ hq card rfl, fun hq c hc ↦ Option.some.inj hc ▸ hq⟩
          rw [hcard]
          rcases hcases with ⟨hclose, hcall⟩ | ⟨hclose, hmem, hcall⟩ | ⟨hclose, hmem, hcall⟩
          · rw [hcall, hclose]
            exact iff_of_true ⟨rfl, centered_hide h⟩ fun hcl ↦ (Bool.false_ne_true hcl).elim
          · rw [hcall, ← centered_erase_iff h hmem]
            exact ⟨fun hc _ ↦ ⟨hmem, hc.2⟩, fun hc ↦ ⟨rfl, (hc hclose).2⟩⟩
          · rw [hcall]
            exact iff_of_false (fun hc ↦ Bool.noConfusion hc.1) fun hc ↦ hmem (hc hclose).1

/-- What a call leaves of the recent apps. -/
theorem call_ordered {opened : List String} (h : MostRecent.Ordered 8 s.recent opened)
    (c : Call) : MostRecent.Ordered 8 (s.call c).1.recent (c.opens ++ opened) := by
  cases c with
  | addRecent appName => exact h.use appName
  | show' => exact h
  | hide => exact h
  | draw scrollX =>
    show MostRecent.Ordered 8 (s.draw scrollX).recent opened
    rw [(draw_frame s scrollX).1]
    exact h
  | touch pos isSwipeLeft isSwipeRight =>
    show MostRecent.Ordered 8 _ opened
    cases hvis : s.visible with
    | false =>
      rw [call_touch_of_hidden hvis]
      exact h
    | true =>
      cases isSwipeLeft with
      | true =>
        rw [call_left hvis]
        exact h
      | false =>
        cases isSwipeRight with
        | true =>
          rw [call_right hvis]
          exact h
        | false =>
          rcases call_tap hvis pos with ⟨hcall, -⟩ | ⟨card, -, ⟨-, hcall⟩ | ⟨-, -, hcall⟩ |
            ⟨-, -, hcall⟩⟩
          · rw [hcall]
            exact h
          · rw [hcall]
            exact h
          · rw [hcall]
            exact h.erase card.name
          · rw [hcall]
            exact h

/-- **A call leaves the switcher coherent, and raises nothing, exactly if it follows the cards.** -/
theorem call_coherent_iff {u : Used} (h : Coherent u) (c : Call) :
    ((u.call c).2 = false ∧ Coherent (u.call c).1) ↔ u.Follows c := by
  have hordered : MostRecent.Ordered 8 (u.call c).1.switcher.recent (u.call c).1.opened :=
    call_ordered h.ordered c
  have hiff : ((u.switcher.call c).2 = false ∧ Centered (u.switcher.call c).1) ↔
      Follows u.switcher c := by
    cases c with
    | addRecent appName =>
      exact iff_of_true ⟨rfl, centered_addRecent h.toCentered h.ordered appName⟩ trivial
    | show' => exact iff_of_true ⟨rfl, le_rfl, le_max_left _ _, rfl⟩ trivial
    | hide => exact iff_of_true ⟨rfl, centered_hide h.toCentered⟩ trivial
    | draw scrollX =>
      obtain ⟨hrecent, hselected, htarget⟩ := draw_frame u.switcher scrollX
      exact iff_of_true ⟨rfl, centered_congr hrecent hselected htarget h.toCentered⟩ trivial
    | touch pos isSwipeLeft isSwipeRight => exact touch_centered_iff h.toCentered _ _ _
  rw [Used.Follows, ← hiff]
  exact ⟨fun hc ↦ ⟨hc.1, hc.2.toCentered⟩, fun hc ↦ ⟨hc.1, hc.2, hordered⟩⟩

/-! ### Every run -/

/-- **After every call the switcher is coherent, and none raises, exactly if every touch follows
the cards.** -/
theorem coherent_iff (cs : List Call) :
    calls.Guarded (fun u c ↦ u.object.Follows c) (Calls.start ⟨init, []⟩) cs ↔
      ∀ n t, calls.run (Calls.start ⟨init, []⟩) (cs.take n) = some t →
        t.raised = false ∧ Coherent t.object := by
  have hinit : Coherent ⟨init, []⟩ :=
    ⟨⟨le_rfl, le_max_left _ _, rfl⟩, MostRecent.ordered_nil 8⟩
  exact Calls.guarded_iff_of_call_iff (I := Coherent) (fun _ ↦ Iff.rfl)
    (fun u c h ↦ call_coherent_iff h c) hinit cs

/-- The only card is closed twice between two frames. -/
theorem not_coherent_closed_twice : ∃ t, calls.run (Calls.start ⟨init, []⟩)
    [.addRecent "Notes", .show', .draw 0, .touch ⟨220, 125⟩ false false,
      .touch ⟨220, 125⟩ false false] = some t ∧ t.raised = true :=
  ⟨_, rfl, by decide +kernel⟩

end JuliusOS.Ui.AppSwitcher
