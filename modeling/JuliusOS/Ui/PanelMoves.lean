import JuliusOS.Ui.Loop
import JuliusOS.Ui.SettingsRuns

/-!
# What one input can do to the panels

The two screens that change the settings and the Notification Center, as a machine of their own:
whatever the main loop does with an input is for them a run of a few steps (`UI.step_panels`), so a
result about their machine is one about every reachable state of the UI.
-/

namespace JuliusOS.Ui

/-- The settings with their two screens, and the Notification Center. -/
structure Panels extends SharedSettings where
  notifCenter : NotificationCenter

/-- What the main loop does with the panels. -/
inductive PanelEvent
  | settings (e : SettingsEvent)
  | showNotif
  | hideNotif
  | touchNotif (pos : Pos)
  | frameNotif (clearWidth : Int)

namespace Panels

variable {w w' : Panels}

def step (w : Panels) : PanelEvent → Option Panels
  | .settings e => (w.toSharedSettings.step e).map fun t ↦ ⟨t, w.notifCenter⟩
  | .showNotif => some { w with notifCenter := w.notifCenter.show' }
  | .hideNotif => some { w with notifCenter := w.notifCenter.hide }
  | .touchNotif pos => some { w with notifCenter := w.notifCenter.handleTouch pos }
  | .frameNotif clearWidth =>
    (w.notifCenter.draw clearWidth).map fun n ↦ { w with notifCenter := n }

def machine : Machine Panels PanelEvent where
  Init w := ∃ cfg notifs, w = ⟨.init cfg, .init notifs⟩
  step := step

/-- The Notification Center does not touch the settings. -/
theorem step_shared {e : PanelEvent} (h : w.step e = some w') :
    SharedSettings.machine.Leads w.toSharedSettings w'.toSharedSettings := by
  cases e with
  | settings e =>
    obtain ⟨t, ht, rfl⟩ := Option.map_eq_some_iff.1 h
    exact .single ht
  | frameNotif clearWidth =>
    obtain ⟨n, -, rfl⟩ := Option.map_eq_some_iff.1 h
    exact .refl _
  | showNotif | hideNotif | touchNotif pos =>
    cases h
    exact .refl _

theorem leads_settings {e : SettingsEvent} {t : SharedSettings}
    (h : w.toSharedSettings.step e = some t) : machine.Leads w ⟨t, w.notifCenter⟩ :=
  .single (l := .settings e) (Option.map_eq_some_iff.2 ⟨t, h, rfl⟩)

end Panels

namespace UI

open Panels

variable {P : PyText} {s s' : UI}

/-- The panels of the UI. -/
def panels (s : UI) : Panels := ⟨⟨s.cfg, s.controlCenter, s.itemsFlatCache⟩, s.notifCenter⟩

@[simp] theorem setShown_panels (s : UI) (o : Overlay) (b : Bool) :
    (s.setShown o b).panels = s.panels := rfl

@[simp] theorem openApp_panels (s : UI) (name : String) : (s.openApp name).panels = s.panels := by
  unfold openApp
  repeat' split
  all_goals rfl

theorem spotlightReplied_panels (s : UI) (res : Option SpotlightReply) :
    (s.spotlightReplied res).panels = s.panels := by
  unfold spotlightReplied
  repeat' split
  all_goals simp

theorem releaseSwitcher_panels {g : Gesture} {pos : Pos} (h : s.releaseSwitcher g pos = some s') :
    s'.panels = s.panels := by
  obtain ⟨r, -, rfl⟩ := Option.map_eq_some_iff.1 h
  dsimp only
  repeat' split
  · rfl
  · rw [setShown_panels, openApp_panels]
    rfl
  · rfl

theorem releaseFolder_panels (g : Gesture) (pos : Pos) :
    (s.releaseFolder g pos).panels = s.panels := by
  unfold releaseFolder
  dsimp only
  split
  · rfl
  · rw [setShown_panels, openApp_panels]
    rfl
  · rfl

theorem releaseCc_leads {g : Gesture} {pos : Pos} {spawns : Bool}
    (h : s.releaseCc g pos spawns = some s') : machine.Leads s.panels s'.panels := by
  obtain ⟨r, hr, rfl⟩ := Option.map_eq_some_iff.1 h
  have htouch : machine.Leads s.panels { s.panels with controlCenter := r.1, cfg := r.2 } :=
    leads_settings (e := .touchCc pos spawns) (Option.map_eq_some_iff.2 ⟨r, hr, rfl⟩)
  dsimp only
  split
  · exact htouch.trans (leads_settings (e := .hideCc) rfl)
  · exact htouch

theorem releaseNotif_leads (g : Gesture) (pos : Pos) :
    machine.Leads s.panels (s.releaseNotif g pos).panels := by
  have htouch : machine.Leads s.panels
      { s.panels with notifCenter := s.notifCenter.handleTouch pos } :=
    .single (l := .touchNotif pos) rfl
  unfold releaseNotif
  dsimp only
  split
  · exact htouch.trans (.single (l := .hideNotif) rfl)
  · exact htouch

theorem releaseHome_leads (g : Gesture) (pos : Pos) :
    machine.Leads s.panels (s.releaseHome g pos).panels := by
  unfold releaseHome
  split
  · exact .single (l := .showNotif) rfl
  split
  · exact leads_settings (e := .showCc) rfl
  repeat' split
  all_goals first | exact .of_eq rfl | exact .of_eq (openApp_panels ..)

theorem releaseSettings_leads (g : Gesture) (pos : Pos) :
    machine.Leads s.panels (s.releaseSettings g pos).panels := by
  unfold releaseSettings
  split
  · exact .of_eq rfl
  split
  · exact .of_eq rfl
  split
  · exact leads_settings (e := .tapSettings pos) rfl
  · exact .refl _

theorem releaseLock_panels (g : Gesture) : (s.releaseLock g).panels = s.panels := by
  unfold releaseLock
  repeat' split
  all_goals rfl

theorem releaseApp_panels (g : Gesture) : (s.releaseApp g).panels = s.panels := by
  unfold releaseApp
  split <;> rfl

theorem releaseScreen_leads (g : Gesture) (pos : Pos) :
    machine.Leads s.panels (s.releaseScreen g pos).panels := by
  unfold releaseScreen
  split
  · exact .of_eq (releaseLock_panels g)
  · exact releaseHome_leads g pos
  · exact .of_eq (releaseApp_panels g)
  · exact releaseSettings_leads g pos

theorem release_leads {g : Gesture} {pos : Pos} {spawns : Bool}
    (h : s.release P g pos spawns = some s') : machine.Leads s.panels s'.panels := by
  unfold release at h
  split at h
  · exact .of_eq (releaseSwitcher_panels h)
  · cases h
    exact .of_eq (releaseFolder_panels g pos)
  · exact releaseCc_leads h
  · cases h
    exact releaseNotif_leads g pos
  · cases h
    exact .of_eq (spotlightReplied_panels ..)
  · cases h
    unfold releaseAi
    dsimp only
    split <;> exact .of_eq rfl
  · cases h
    unfold releaseDrop
    split <;> exact .of_eq rfl
  · cases h
    unfold releaseCloud
    split <;> exact .of_eq rfl
  · cases h
    exact releaseScreen_leads g pos

theorem mouseUp_leads {pos : Pos} {now : Int} {spawns : Bool}
    (h : s.mouseUp P pos now spawns = some s') : machine.Leads s.panels s'.panels := by
  unfold mouseUp at h
  split at h
  · cases h
    exact .refl _
  · obtain ⟨t, ht, rfl⟩ := Option.map_eq_some_iff.1 h
    have hleads : machine.Leads s.panels t.panels := release_leads ht
    exact hleads

theorem keyDown_leads {event : KeyEvent} (h : s.keyDown P event = some s') :
    machine.Leads s.panels s'.panels := by
  unfold keyDown at h
  split at h
  · obtain ⟨r, -, rfl⟩ := Option.map_eq_some_iff.1 h
    exact .of_eq (spotlightReplied_panels ..)
  split at h
  · cases h
    split <;> exact .of_eq rfl
  split at h
  · split at h
    next o _ =>
      cases h
      cases o with
      | cc => exact leads_settings (e := .hideCc) rfl
      | notif => exact .single (l := .hideNotif) rfl
      | _ => exact .of_eq rfl
    · cases h
      unfold escapeScreen
      split <;> exact .of_eq rfl
  · cases h
    exact .refl _

theorem frame_leads {v : FrameEnv} (h : s.frame v = some s') :
    machine.Leads s.panels s'.panels := by
  refine frame_of_draws (I := fun t ↦ machine.Leads s.panels t.panels) (fun t ht ↦ ?_)
    (fun t t' o ht hdraw ↦ ht.trans ?_) h
  · unfold drawScreen at ht
    split at ht
    · obtain ⟨items, hitems, rfl⟩ := Option.map_eq_some_iff.1 ht
      exact leads_settings (e := .frameSettings s.settingsScroll)
        (Option.map_eq_some_iff.2 ⟨items, hitems, rfl⟩)
    · cases ht
      exact .refl _
  · cases o with
    | notif =>
      obtain ⟨n, hn, rfl⟩ := Option.map_eq_some_iff.1 hdraw
      exact .single (l := .frameNotif v.clearWidth) (Option.map_eq_some_iff.2 ⟨n, hn, rfl⟩)
    | cc =>
      obtain ⟨c, hc, rfl⟩ := Option.map_eq_some_iff.1 hdraw
      exact leads_settings (e := .frameCc) (Option.map_eq_some_iff.2 ⟨c, hc, rfl⟩)
    | _ =>
      cases hdraw
      exact .of_eq rfl

/-- **What the main loop does with an input** is a run of the panels. -/
theorem step_panels {l : Input} (h : s.step P l = some s') :
    machine.Leads s.panels s'.panels := by
  cases l with
  | mouseDown pos now =>
    cases h
    exact .of_eq rfl
  | mouseUp pos now spawns => exact mouseUp_leads h
  | keyDown event => exact keyDown_leads h
  | mouseWheel y =>
    cases h
    split <;> exact .of_eq rfl
  | frame v => exact frame_leads h
  | reply answer =>
    cases h
    exact .of_eq rfl

/-- From boot on, the panels are always in a state that they reach by themselves. -/
theorem panels_reachable (h : (ui P).Reachable s) : machine.Reachable s.panels :=
  h.simulation (fun s hs ↦ by
    obtain ⟨cfg, notifs, rfl⟩ := hs
    exact ⟨cfg, notifs, rfl⟩) fun _ _ _ ↦ step_panels

/-- So are the settings and their two screens. -/
theorem shared_reachable (h : (ui P).Reachable s) :
    SharedSettings.machine.Reachable s.panels.toSharedSettings :=
  (panels_reachable h).simulation (fun w hw ↦ by
    obtain ⟨cfg, notifs, rfl⟩ := hw
    exact ⟨cfg, rfl⟩) fun _ _ _ ↦ Panels.step_shared

end UI

end JuliusOS.Ui
