import JuliusOS.Foundations.Calls
import JuliusOS.Ui.Spotlight

/-!
# Spotlight opens what it highlights

`draw` shows the first eight results and highlights the row whose index is `selected`; the return
key opens `results[selected]`. The two are the same as long as `selected` is the index of a row that
is drawn. Typing sets it to 0 and the arrow up stops there, but showing the overlay again and the
backspace key rebuild the results and leave `selected` as it was, the arrow down goes on past the
eighth row, and with no results it goes to -1.

`sound_iff` says that these are the only ways: what the overlay shows is sound after every call
exactly if no call takes one of them.
-/

namespace JuliusOS.Ui.Spotlight

variable {P : PyText} {s : Spotlight}

/-! ### The calls -/

/-- A call of one of Spotlight's methods. -/
inductive Call
  | show'
  | hide
  | draw
  | key (event : KeyEvent)
  | touch (pos : Pos)
deriving DecidableEq, Repr

/-- Spotlight after a call, and whether the call raises. -/
def call (P : PyText) (s : Spotlight) : Call → Spotlight × Bool
  | .show' => (s.show', false)
  | .hide => (s.hide, false)
  | .draw => (s.draw, false)
  | .key event =>
    match s.handleKey P event with
    | some r => (r.1, false)
    | none => (s, true)
  | .touch pos => ((s.handleTouch pos).1, false)

/-- Spotlight from `__init__` on. -/
def calls (P : PyText) : Machine (Calls.State Spotlight) Call :=
  Calls.machine (· = Spotlight.init) (call P)

/-- The row that is drawn in the colour of the selected one. -/
def highlighted (s : Spotlight) : Option SearchResult :=
  if 0 ≤ s.selected then (s.results.take 8)[s.selected.toNat]? else none

/-- `selected` is in `0..max(0, len(results) - 1)`, and is a row that is drawn where one is. -/
structure OnRow (s : Spotlight) : Prop where
  nonneg : 0 ≤ s.selected
  le : s.selected ≤ max 0 ((s.results.length : Int) - 1)
  drawn : s.results ≠ [] → s.selected < 8

/-- What is promised of a Spotlight that is visible. -/
structure Sound (P : PyText) (s : Spotlight) : Prop extends OnRow s where
  /-- The return key opens the highlighted result, or nothing where there is none. -/
  opens : ∀ u, s.handleKey P ⟨.ret, u⟩ = some (s, s.highlighted.map .result)

/-- The calls that leave `selected` on a row. -/
def Follows (P : PyText) (s : Spotlight) : Call → Prop
  | .show' => s.selected = 0
  | .key event =>
    match event.key with
    | .backspace => s.selected = 0 ∨ s.selected < (find P (dropLast s.query)).length
    | .down => s.results ≠ [] ∧ (s.selected < 7 ∨ s.results.length ≤ 8)
    | _ => True
  | _ => True

/-- A call on a Spotlight that is hidden does nothing, `show` apart. -/
def Ok (P : PyText) (s : Spotlight) (c : Call) : Prop :=
  s.visible = true ∨ c = .show' → Follows P s c

/-! ### The return key -/

theorem onRow_congr {t : Spotlight} (hselected : t.selected = s.selected)
    (hresults : t.results = s.results) (h : OnRow s) : OnRow t := by
  refine ⟨?_, ?_, ?_⟩
  · exact hselected ▸ h.nonneg
  · exact hselected ▸ hresults ▸ h.le
  · exact hselected ▸ hresults ▸ h.drawn

/-- The selection stays where it is while the results are rebuilt. -/
theorem onRow_search_iff (h : OnRow s) (q : String) :
    OnRow (s.search P q) ↔ s.selected = 0 ∨ s.selected < (find P q).length := by
  have hdrawn : s.selected < 8 := by
    by_cases hnil : s.results = []
    · have hle := h.le
      rw [hnil] at hle
      simp only [List.length_nil] at hle
      omega
    · exact h.drawn hnil
  have hnonneg := h.nonneg
  constructor
  · intro h'
    have hle : s.selected ≤ max 0 (((find P q).length : Int) - 1) := h'.le
    omega
  · intro hsel
    refine ⟨hnonneg, ?_, fun _ ↦ hdrawn⟩
    show s.selected ≤ max 0 (((find P q).length : Int) - 1)
    omega

/-- **The return key opens the highlighted row** when the selection is on a row. -/
theorem handleKey_ret (hvis : s.visible = true) (h : OnRow s) (u : String) :
    s.handleKey P ⟨.ret, u⟩ = some (s, s.highlighted.map .result) := by
  have hnonneg := h.nonneg
  have hle := h.le
  unfold handleKey highlighted
  simp only [hvis, Bool.not_true, Bool.false_eq_true, if_false]
  by_cases hnil : s.results = []
  · simp [hnil]
  · have hpos : 0 < s.results.length := List.length_pos_iff.2 hnil
    have hlt : s.selected.toNat < s.results.length := by omega
    have hrow : (s.results.take 8)[s.selected.toNat]? = s.results[s.selected.toNat]? :=
      List.getElem?_take_of_lt (by have := h.drawn hnil; omega)
    rw [if_pos (by simp [hnil]; omega), pyIndex, if_pos hnonneg, if_pos hnonneg, hrow,
      List.getElem?_eq_getElem hlt]
    rfl

theorem sound_of_onRow (hvis : s.visible = true) (h : OnRow s) : Sound P s :=
  ⟨h, handleKey_ret hvis h⟩

/-! ### One call -/

/-- The arrow down keeps the selection on a row where there is a next one that is drawn, and where
it is on the last result. -/
theorem onRow_down_iff (h : OnRow s) :
    OnRow { s with selected := min (s.selected + 1) (s.results.length - 1) } ↔
      s.results ≠ [] ∧ (s.selected < 7 ∨ s.results.length ≤ 8) := by
  have hnonneg := h.nonneg
  constructor
  · intro h'
    have hnil : s.results ≠ [] := by
      intro hnil
      have := h'.nonneg
      simp only [hnil, List.length_nil] at this
      omega
    have hdrawn : min (s.selected + 1) (s.results.length - 1 : Int) < 8 := h'.drawn hnil
    exact ⟨hnil, by omega⟩
  · rintro ⟨hnil, hroom⟩
    have hpos : 0 < s.results.length := List.length_pos_iff.2 hnil
    have hdrawn := h.drawn hnil
    refine ⟨?_, ?_, fun _ ↦ ?_⟩ <;> dsimp only <;> omega

theorem onRow_up (h : OnRow s) : OnRow { s with selected := max (s.selected - 1) 0 } := by
  have hnonneg := h.nonneg
  have hle := h.le
  refine ⟨?_, ?_, fun hnil ↦ ?_⟩
  · exact le_max_right _ _
  · dsimp only
    omega
  · have hdrawn := h.drawn hnil
    dsimp only
    omega

theorem onRow_zero (h : s.selected = 0) : OnRow s :=
  ⟨h.ge, h ▸ le_max_left _ _, fun _ ↦ h ▸ by decide⟩

theorem draw_frame (s : Spotlight) :
    s.draw.visible = s.visible ∧ s.draw.selected = s.selected ∧ s.draw.results = s.results := by
  unfold draw
  split_ifs <;> exact ⟨rfl, rfl, rfl⟩

theorem handleTouch_frame (s : Spotlight) (pos : Pos) :
    (((s.handleTouch pos).1.visible = true → s.visible = true) ∧
      (s.handleTouch pos).1.selected = s.selected ∧
      (s.handleTouch pos).1.results = s.results) := by
  unfold handleTouch
  split
  · exact ⟨id, rfl, rfl⟩
  · split
    · exact ⟨id, rfl, rfl⟩
    · split_ifs
      · exact ⟨fun h ↦ (Bool.false_ne_true h).elim, rfl, rfl⟩
      · exact ⟨id, rfl, rfl⟩

theorem call_key {event : KeyEvent} {r : Spotlight × Option SpotlightReply}
    (h : s.handleKey P event = some r) : call P s (.key event) = (r.1, false) := by
  simp only [call, h]

/-- A key that a visible Spotlight handles. -/
theorem call_key_onRow_iff (hvis : s.visible = true) (h : OnRow s) (event : KeyEvent) :
    ((call P s (.key event)).2 = false ∧
        ((call P s (.key event)).1.visible = true → OnRow (call P s (.key event)).1)) ↔
      Follows P s (.key event) := by
  obtain ⟨key, u⟩ := event
  have hdo {r : Spotlight × Option SpotlightReply} (hr : s.handleKey P ⟨key, u⟩ = some r)
      (hvis' : r.1.visible = true) :
      ((call P s (.key ⟨key, u⟩)).2 = false ∧ ((call P s (.key ⟨key, u⟩)).1.visible = true →
        OnRow (call P s (.key ⟨key, u⟩)).1)) ↔ OnRow r.1 := by
    rw [call_key hr]
    exact ⟨fun hcall ↦ hcall.2 hvis', fun hrow ↦ ⟨rfl, fun _ ↦ hrow⟩⟩
  have hnot : (!s.visible) = false := by rw [hvis]; rfl
  cases key with
  | escape =>
    have hkey : s.handleKey P ⟨.escape, u⟩ = some (s.hide, some .hide) := by
      simp only [handleKey, hnot, Bool.false_eq_true, if_false]
    rw [call_key hkey]
    exact ⟨fun _ ↦ trivial, fun _ ↦ ⟨rfl, fun hhid ↦ (Bool.false_ne_true hhid).elim⟩⟩
  | backspace =>
    refine (hdo (r := (s.search P (dropLast s.query), none)) ?_ hvis).trans (onRow_search_iff h _)
    simp only [handleKey, hnot, Bool.false_eq_true, if_false]
  | ret => exact (hdo (handleKey_ret hvis h u) hvis).trans (iff_of_true h trivial)
  | down =>
    refine (hdo (r := ({ s with
      selected := min (s.selected + 1) (s.results.length - 1) }, none)) ?_ hvis).trans
      (onRow_down_iff h)
    simp only [handleKey, hnot, Bool.false_eq_true, if_false]
  | up =>
    refine (hdo (r := ({ s with selected := max (s.selected - 1) 0 }, none)) ?_ hvis).trans
      (iff_of_true (onRow_up h) trivial)
    simp only [handleKey, hnot, Bool.false_eq_true, if_false]
  | other =>
    cases htyped : KeyEvent.typed P ⟨.other, u⟩ with
    | false =>
      refine (hdo (r := (s, none)) ?_ hvis).trans (iff_of_true h trivial)
      simp only [handleKey, hnot, htyped, Bool.false_eq_true, if_false]
    | true =>
      refine (hdo (r := ({ s.search P (s.query ++ u) with selected := 0 }, none)) ?_ hvis).trans
        (iff_of_true (onRow_zero rfl) trivial)
      simp only [handleKey, hnot, htyped, Bool.false_eq_true, if_false, if_true]

/-- **A call leaves a visible Spotlight on a row, and raises nothing, exactly if it follows the
results.** -/
theorem call_onRow_iff (h : s.visible = true → OnRow s) (c : Call) :
    ((call P s c).2 = false ∧ ((call P s c).1.visible = true → OnRow (call P s c).1)) ↔
      Ok P s c := by
  cases c with
  | show' =>
    refine ⟨fun hcall _ ↦ ?_, fun hok ↦ ⟨rfl, fun _ ↦ onRow_zero (hok (.inr rfl))⟩⟩
    have hle : s.selected ≤ 0 := (hcall.2 rfl).le
    have hnonneg : 0 ≤ s.selected := (hcall.2 rfl).nonneg
    exact le_antisymm hle hnonneg
  | hide => exact ⟨fun _ _ ↦ trivial, fun _ ↦ ⟨rfl, fun hvis ↦ (Bool.false_ne_true hvis).elim⟩⟩
  | draw =>
    obtain ⟨hvis, hselected, hresults⟩ := draw_frame s
    exact ⟨fun _ _ ↦ trivial, fun _ ↦ ⟨rfl, fun hvis' ↦
      onRow_congr hselected hresults (h (hvis ▸ hvis'))⟩⟩
  | touch pos =>
    obtain ⟨hvis, hselected, hresults⟩ := handleTouch_frame s pos
    exact ⟨fun _ _ ↦ trivial, fun _ ↦ ⟨rfl, fun hvis' ↦
      onRow_congr hselected hresults (h (hvis hvis'))⟩⟩
  | key event =>
    cases hvis : s.visible with
    | true =>
      exact (call_key_onRow_iff hvis (h hvis) event).trans
        ⟨fun hfollows _ ↦ hfollows, fun hok ↦ hok (.inl hvis)⟩
    | false =>
      have hkey : s.handleKey P event = some (s, none) := by
        rw [handleKey, hvis]
        rfl
      rw [call_key hkey]
      refine iff_of_true ⟨rfl, fun hvis' ↦ ?_⟩ fun hok ↦ ?_
      · rw [hvis] at hvis'
        cases hvis'
      · rcases hok with hok | hok
        · rw [hvis] at hok
          cases hok
        · cases hok

/-! ### Every run -/

/-- **After every call Spotlight opens what it highlights, exactly if no call leaves the
selection behind.** -/
theorem sound_iff (P : PyText) (cs : List Call) :
    (calls P).Guarded (fun s c ↦ Ok P s.object c) (Calls.start init) cs ↔
      ∀ n u, (calls P).run (Calls.start init) (cs.take n) = some u →
        u.raised = false ∧ (u.object.visible = true → Sound P u.object) := by
  refine Calls.guarded_iff_of_call_iff (I := fun s ↦ s.visible = true → Sound P s)
    (K := fun s ↦ s.visible = true → OnRow s) ?_ ?_ ?_ cs
  · intro s
    exact forall_congr' fun hvis ↦ ⟨sound_of_onRow hvis, fun hsound ↦ hsound.toOnRow⟩
  · intro s c h
    exact call_onRow_iff h c
  · intro hvis
    cases hvis

/-- An arrow down in an empty search selects the row -1. -/
theorem not_sound_down : ∃ u, (calls asciiText).run (Calls.start init)
    [.show', .key ⟨.down, ""⟩] = some u ∧ u.object.visible = true ∧
      ¬ Sound asciiText u.object := by
  refine ⟨_, rfl, rfl, fun h ↦ ?_⟩
  exact absurd h.nonneg (by decide)

end JuliusOS.Ui.Spotlight
