import JuliusOS.Apps.Encoder
import JuliusOS.Launcher.Gestures

/-!
# Apps that cannot be drawn

The launcher closes an app that raises in `draw`. If nothing but a key to the app itself gets it out
of the state in which it raises, it is not seen any more: it is closed in the frame in which it is
opened, before a key can reach it, unless the key comes with the tap (`run_frames_of_broken`).

The encoder is such an app once there is something in its output (`encoder_run_frames`).
-/

namespace JuliusOS.Launcher

open Globals

variable {σ ε : Type*} {A : Instances σ ε} {s t : Globals σ} {app : AppName} {B : σ → Prop}

/-- In a state in `B` the app raises when it is drawn, and only a key to it leads out of `B`. -/
structure Broken (A : Instances σ ε) (app : AppName) (B : σ → Prop) : Prop where
  raises : ∀ x, B x → (A.draw app x).2 = true
  draw : ∀ other x, B x → B (A.draw other x).1
  button : ∀ other pos x, B x → B (A.handleInput other (.button pos) x).1
  key : ∀ other e x, other ≠ app → B x → B (A.handleInput other (.key e) x).1

/-- An event that can open an app. -/
def Event.isRelease : Event ε → Bool
  | .mouseButtonUp _ _ => true
  | _ => false

/-- An event that an app is given for what is typed. -/
def Event.isKey : Event ε → Bool
  | .keyDown _ => true
  | _ => false

/-- In a frame no key comes after a release. -/
def KeysFirst (es : List (Event ε)) : Prop :=
  es.Pairwise fun e e' ↦ e.isRelease = true → e'.isKey = false

/-- The steps of a frame. -/
def frame (es : List (Event ε)) : List (Label ε) := es.map .event ++ [.draw]

/-! ### One step -/

theorem instances_mouseMotion (s : Globals σ) (pos : Pos) (pressed : Bool) :
    (s.mouseMotion pos pressed).instances = s.instances ∧
      (s.mouseMotion pos pressed).currentApp = s.currentApp := by
  rw [mouseMotion]
  by_cases hpressed : pressed = true
  · rw [if_pos hpressed]
    by_cases hhome : s.currentApp = none ∧ s.showRecent = false
    · rw [if_pos hhome]
      exact ⟨rfl, rfl⟩
    · rw [if_neg hhome]
      exact ⟨rfl, rfl⟩
  · rw [if_neg hpressed]
    exact ⟨rfl, rfl⟩

theorem instances_mouseButtonUp (s : Globals σ) (pos : Pos) (fast : Bool) :
    (s.mouseButtonUp pos fast).instances = s.instances := by
  rw [mouseButtonUp]
  cases s.gesture pos fast with
  | tap => cases s.tapTarget pos <;> rfl
  | recent | home | back | close | closeRecent | none => rfl

/-- Only a release opens an app. -/
theorem currentApp_handle {e : Event ε} (he : e.isRelease = false) :
    (s.handle A e).currentApp = s.currentApp := by
  cases e with
  | quit => rfl
  | mouseButtonDown pos => exact congrArg Shown.currentApp (shown_passInput (.button pos))
  | keyDown e => exact congrArg Shown.currentApp (shown_passInput (.key e))
  | mouseMotion pos pressed => exact (instances_mouseMotion s pos pressed).2
  | mouseButtonUp pos fast => cases he

/-- **An event leaves a broken app broken**, unless it is a key to it. -/
theorem Broken.handle (h : Broken A app B) (hB : B s.instances) {e : Event ε}
    (hkey : e.isKey = true → s.currentApp ≠ some app) : B (s.handle A e).instances := by
  cases e with
  | quit => exact hB
  | mouseButtonDown pos =>
    rw [Globals.handle]
    cases happ : s.currentApp with
    | none =>
      rw [passInput_of_none (s := s.startDrag pos) happ]
      exact hB
    | some other =>
      rw [passInput_of_some (s := s.startDrag pos) happ]
      exact h.button other pos s.instances hB
  | keyDown e =>
    rw [Globals.handle]
    cases happ : s.currentApp with
    | none =>
      rw [passInput_of_none happ]
      exact hB
    | some other =>
      rw [passInput_of_some happ]
      refine h.key other e s.instances (fun hother ↦ hkey rfl ?_) hB
      rw [happ, hother]
  | mouseMotion pos pressed =>
    show B (s.mouseMotion pos pressed).instances
    rw [(instances_mouseMotion s pos pressed).1]
    exact hB
  | mouseButtonUp pos fast =>
    show B (s.mouseButtonUp pos fast).instances
    rw [instances_mouseButtonUp]
    exact hB

/-- **A broken app is closed when it is drawn.** -/
theorem Broken.draw_spec (h : Broken A app B) (hB : B s.instances)
    (halone : s.showRecent = true → s.currentApp = none) :
    B (s.draw A).instances ∧ (s.draw A).currentApp ≠ some app := by
  rw [Globals.draw]
  by_cases hrecent : s.showRecent = true
  · rw [if_pos hrecent, halone hrecent]
    exact ⟨hB, (Option.some_ne_none app).symm⟩
  · rw [if_neg hrecent]
    cases happ : s.currentApp with
    | none =>
      rw [Option.elim_none, happ]
      exact ⟨hB, (Option.some_ne_none app).symm⟩
    | some other =>
      refine ⟨h.draw other s.instances hB, ?_⟩
      show (if (A.draw other s.instances).2 then none else some other) ≠ some app
      intro hopen
      cases hraise : (A.draw other s.instances).2 with
      | true =>
        rw [hraise] at hopen
        cases hopen
      | false =>
        rw [hraise] at hopen
        obtain rfl : other = app := Option.some.inj hopen
        rw [h.raises s.instances hB] at hraise
        cases hraise

/-! ### Frames -/

/-- The events of a frame, at whose start the app is not open. -/
theorem Broken.run_events (h : Broken A app B) {es : List (Event ε)} (hes : KeysFirst es)
    (hB : B s.instances) (hopen : s.currentApp ≠ some app ∨ ∀ e ∈ es, e.isKey = false)
    (hrun : (launcher A).run s (es.map .event) = some t) : B t.instances := by
  induction es generalizing s with
  | nil =>
    obtain rfl := Option.some.inj hrun
    exact hB
  | cons e es ih =>
    obtain ⟨u, hu, hrest⟩ := (launcher A).run_cons_eq_some.1 hrun
    obtain ⟨hfirst, hpairs⟩ := List.pairwise_cons.1 hes
    have hue : s.handle A e = u := by
      rw [step_event] at hu
      split at hu
      case isTrue => cases hu
      case isFalse => exact Option.some.inj hu
    subst hue
    have hkey : e.isKey = true → s.currentApp ≠ some app := by
      intro hkey
      rcases hopen with hopen | hnone
      · exact hopen
      · rw [hnone e (List.mem_cons_self ..)] at hkey
        cases hkey
    refine ih hpairs (h.handle hB hkey) ?_ hrest
    cases hrelease : e.isRelease with
    | true => exact Or.inr fun e' he' ↦ hfirst e' he' hrelease
    | false =>
      rcases hopen with hopen | hnone
      · left
        rw [currentApp_handle hrelease]
        exact hopen
      · exact Or.inr fun e' he' ↦ hnone e' (List.mem_cons_of_mem e he')

/-- In every state that can be reached no app is open under the recent apps. -/
theorem alone_of_reachable (hs : (launcher A).Reachable s) :
    s.showRecent = true → s.currentApp = none := by
  obtain ⟨x, ls, ⟨instances, rfl⟩, hrun⟩ := hs
  exact (fits_of_run instances hrun).alone

theorem Broken.run_draw (h : Broken A app B) (hs : (launcher A).Reachable s) (hB : B s.instances)
    (hrun : (launcher A).run s [.draw] = some t) : B t.instances ∧ t.currentApp ≠ some app := by
  obtain ⟨u, hu, hnil⟩ := (launcher A).run_cons_eq_some.1 hrun
  obtain rfl : u = t := Option.some.inj hnil
  rw [step_draw] at hu
  split at hu
  case isTrue => cases hu
  case isFalse =>
    obtain rfl := Option.some.inj hu
    exact h.draw_spec hB (alone_of_reachable hs)

/-- **A broken app is not seen any more.** Once it is in a state in which it raises, it is closed
after the present frame and after every later one, if in none of those a key comes after a
release. -/
theorem run_frames_of_broken (h : Broken A app B) (hs : (launcher A).Reachable s)
    (hB : B s.instances) {frames : List (List (Event ε))} (hframes : ∀ es ∈ frames, KeysFirst es)
    (hrun : (launcher A).run s (.draw :: frames.flatMap frame) = some t) :
    B t.instances ∧ t.currentApp ≠ some app := by
  rw [← List.singleton_append] at hrun
  obtain ⟨u, hdraw, hrest⟩ := (launcher A).run_append_eq_some.1 hrun
  obtain ⟨hBu, hopen⟩ := h.run_draw hs hB hdraw
  have hu := hs.run hdraw
  clear hrun hdraw hs hB
  induction frames generalizing u with
  | nil =>
    obtain rfl := Option.some.inj hrest
    exact ⟨hBu, hopen⟩
  | cons es frames ih =>
    obtain ⟨hes, hframes⟩ := List.forall_mem_cons.1 hframes
    rw [List.flatMap_cons, frame, List.append_assoc] at hrest
    obtain ⟨v, hevents, hrest⟩ := (launcher A).run_append_eq_some.1 hrest
    obtain ⟨w, hdraw, hrest⟩ := (launcher A).run_append_eq_some.1 hrest
    have hBv := h.run_events hes hBu (Or.inl hopen) hevents
    obtain ⟨hBw, hopen'⟩ := h.run_draw (hu.run hevents) hBv hdraw
    exact ih hframes w hrest hBw hopen' ((hu.run hevents).run hdraw)

/-! ### The encoder -/

open JuliusOS.Apps (Encoder)

/-- The encoder among other apps, with a font that renders some texts. -/
def withEncoder (renders : List Char → Bool) (others : Instances σ Encoder.Press) :
    Instances (Encoder × σ) Encoder.Press where
  handleInput app i x :=
    if app = .encoder then
      match i with
      | .key e => ((x.1.handleInput e, x.2), false)
      | .button _ => (x, false)
    else ((x.1, (others.handleInput app i x.2).1), (others.handleInput app i x.2).2)
  draw app x :=
    if app = .encoder then (x, x.1.draw renders)
    else ((x.1, (others.draw app x.2).1), (others.draw app x.2).2)

/-- The encoder with an output is broken. -/
theorem broken_encoder (renders : List Char → Bool) (others : Instances σ Encoder.Press)
    {e : Encoder} (he : e.Shows) :
    Broken (withEncoder renders others) .encoder fun x ↦ x.1 = e where
  raises := by
    rintro x rfl
    show (if _ then (x, x.1.draw renders) else _).2 = true
    rw [if_pos rfl]
    exact Encoder.draw_of_shows he renders
  draw := by
    rintro other x rfl
    show (if _ then (x, x.1.draw renders) else _).1.1 = x.1
    split <;> rfl
  button := by
    rintro other pos x rfl
    show (if _ then (x, false) else _).1.1 = x.1
    split <;> rfl
  key := by
    rintro other k x hother rfl
    show (if _ then _ else _ : (Encoder × σ) × Bool).1.1 = x.1
    rw [if_neg hother]

/-- **Once the encoder has put something out, it is not seen any more**, and its output stays as it
is, if in no frame a key comes after a release. -/
theorem encoder_run_frames (renders : List Char → Bool) (others : Instances σ Encoder.Press)
    {s t : Globals (Encoder × σ)} (hs : (launcher (withEncoder renders others)).Reachable s)
    (hshows : s.instances.1.Shows) {frames : List (List (Event Encoder.Press))}
    (hframes : ∀ es ∈ frames, KeysFirst es)
    (hrun : (launcher (withEncoder renders others)).run s (.draw :: frames.flatMap frame) =
      some t) :
    t.instances.1 = s.instances.1 ∧ t.currentApp ≠ some .encoder :=
  run_frames_of_broken (broken_encoder renders others hshows) hs rfl hframes hrun

/-- The encoder after its first use. -/
def used : Encoder :=
  Encoder.init.run [.ofKey .ret, ⟨.letter 'h', ['h'], []⟩, .ofKey .ret]

theorem encoder_run_frames_escape :
    ∃ t, (launcher (withEncoder (fun _ ↦ true) idle)).run (init (used, ()))
        (.draw :: [[.mouseButtonDown ⟨20, 50⟩], [.keyDown (.ofKey .escape)]].flatMap frame) =
          some t ∧
      t.instances.1 = used ∧ t.currentApp ≠ some .encoder := by
  have hframes : ∀ es ∈ ([[.mouseButtonDown ⟨20, 50⟩], [.keyDown (.ofKey .escape)]] :
      List (List (Event Encoder.Press))), KeysFirst es :=
    List.forall_mem_cons.2 ⟨List.pairwise_singleton _ _, List.forall_mem_singleton.2
      (List.pairwise_singleton _ _)⟩
  exact ⟨_, rfl, encoder_run_frames (fun _ ↦ true) idle (s := init (used, ()))
    ⟨_, [], ⟨_, rfl⟩, rfl⟩ (by decide) hframes rfl⟩

end JuliusOS.Launcher
