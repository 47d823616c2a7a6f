import JuliusOS.Drivers.St7796
import JuliusOS.Foundations.Panel

/-!
# What the display shows

The way of a pixel in `drivers/st7796/julius_st7796.c`: threads change the framebuffer in memory
and then queue the work item, which sends the memory to the panel, a byte at a time, while it may go
on changing. The driver may be suspended, which drops the work item, and resumed, which sends
everything.

When nothing is under way the panel shows the memory (`run_shows`), once anything was ever sent, if
no operation fails that has changed the memory: `julius_fb_write` queues the work item only if
`fb_sys_write` has written something and returned how much, and not if it has written up to the end
and returned an error.
-/

namespace JuliusOS.Drivers.St7796

/-- `vmem_size`. -/
abbrev vmemSize : ℕ := 307200

/-- `ST7796_SLPOUT`. -/
abbrev slpOut : UInt8 := 0x11

/-- `ST7796_DISPON`. -/
abbrev dispOn : UInt8 := 0x29

/-- `ST7796_MADCTL`. -/
abbrev madCtl : UInt8 := 0x36

/-! ### The bus -/

/-- What happens to the panel. -/
inductive Act
  /-- The line that tells data from commands. -/
  | dc (level : Bool)
  /-- A byte is sent. -/
  | byte (b : UInt8)
  /-- The byte of `vmem` at an offset is sent. -/
  | mem (k : ℕ)
deriving DecidableEq

/-- What is sent is not in the memory. -/
def Act.Fixed : Act → Prop
  | .mem _ => False
  | _ => True

instance : DecidablePred Act.Fixed
  | .mem _ => inferInstanceAs (Decidable False)
  | .dc _ | .byte _ => inferInstanceAs (Decidable True)

/-- What the statements of the driver do. -/
def Stmt.acts : Stmt → List Act
  | .dcCmd => [.dc false]
  | .cmd c => [.byte c]
  | .dcData => [.dc true]
  | .data ds => ds.map .byte
  | .sync => (List.range vmemSize).map .mem

/-- What some statements do. -/
def acts (stmts : List Stmt) : List Act := stmts.flatMap Stmt.acts

theorem acts_append (s s' : List Stmt) : acts (s ++ s') = acts s ++ acts s' := List.flatMap_append

/-- The panel and the line that tells data from commands. -/
structure Wire where
  dc : Bool
  panel : Panel

namespace Wire

/-- A byte is sent. -/
def send (w : Wire) (b : UInt8) : Wire :=
  { w with panel := w.panel.step (if w.dc then .data b else .cmd b) }

/-- What an act does, given the memory. -/
def act (vmem : ℕ → UInt8) (w : Wire) : Act → Wire
  | .dc level => { w with dc := level }
  | .byte b => w.send b
  | .mem k => w.send (vmem k)

/-- Some acts. -/
def run (vmem : ℕ → UInt8) (w : Wire) (as : List Act) : Wire := as.foldl (act vmem) w

variable {vmem : ℕ → UInt8} {w : Wire}

theorem run_append (as as' : List Act) : w.run vmem (as ++ as') = (w.run vmem as).run vmem as' :=
  List.foldl_append

/-- The memory matters only for what is in it. -/
theorem act_of_fixed {a : Act} (ha : a.Fixed) (vmem vmem' : ℕ → UInt8) (w : Wire) :
    w.act vmem a = w.act vmem' a := by
  cases a with
  | dc level => rfl
  | byte b => rfl
  | mem k => exact ha.elim

theorem run_writeCmd (c : UInt8) :
    w.run vmem (acts (writeCmd c)) = ⟨false, w.panel.step (.cmd c)⟩ := rfl

theorem run_bytes (hdc : w.dc = true) (ds : Bytes) :
    w.run vmem (ds.map .byte) = ⟨true, w.panel.run (ds.map .data)⟩ := by
  induction ds generalizing w with
  | nil =>
    show w = ⟨true, w.panel⟩
    rw [← hdc]
  | cons d ds ih =>
    show (w.send d).run vmem (ds.map .byte) = _
    rw [ih (w := w.send d) hdc, send, hdc]
    rfl

theorem run_writeData (ds : Bytes) :
    w.run vmem (acts (writeData ds)) = ⟨true, w.panel.run (ds.map .data)⟩ := by
  have hacts : acts (writeData ds) = .dc true :: ds.map .byte := by
    simp only [acts, writeData, Stmt.acts, List.flatMap_cons, List.flatMap_nil, List.append_nil,
      List.singleton_append]
  rw [hacts]
  show Wire.run vmem { w with dc := true } (ds.map .byte) = _
  rw [run_bytes rfl]

/-- A command and its parameters. -/
theorem run_send (c : UInt8) (ds : Bytes) :
    w.run vmem (acts (writeCmd c ++ writeData ds)) = ⟨true, w.panel.run (Panel.send c ds)⟩ := by
  rw [acts, List.flatMap_append, ← acts, ← acts, run_append, run_writeCmd, run_writeData]
  rfl

end Wire

/-- The commands of `julius_init_display` after the reset of the hardware, with what
`julius_write_byte` and `julius_write_data` send after each. -/
def setup : List (UInt8 × Bytes) :=
  [(0x01, []), (slpOut, []), (Panel.colMod, [0x55]), (madCtl, [0x48]), (0xB1, [0xA0, 0x11]),
    (0xB6, [0x02, 0x02]), (0xB7, [0xC6]), (0xC0, [0x17, 0x15]), (0xC1, [0x41]),
    (0xC5, [0x00, 0x12, 0x80]),
    (0xE0, [0xF0, 0x00, 0x07, 0x10, 0x09, 0x17, 0x26, 0x4B, 0x65, 0x43, 0x07, 0x19, 0x19, 0x27,
      0x33]),
    (0xE1, [0xF0, 0x06, 0x0F, 0x03, 0x10, 0x0E, 0x30, 0x47, 0x43, 0x03, 0x0E, 0x0E, 0x22, 0x27]),
    (0x13, []), (dispOn, [])]

/-- `julius_init_display`. -/
def initDisplay : List Stmt := setup.flatMap fun x ↦ writeCmd x.1 ++ writeData x.2

/-- **The panel is set up** for pixels of sixteen bits, from every state, with its columns from
right to left and blue first. -/
theorem run_initDisplay (vmem : ℕ → UInt8) (w : Wire) :
    (w.run vmem (acts initDisplay)).panel.params Panel.colMod = Panel.sixteenBits ∧
      (w.run vmem (acts initDisplay)).panel.params madCtl = [0x48] := by
  have hrun : ∀ (cs : List (UInt8 × Bytes)) (w : Wire),
      (w.run vmem (acts (cs.flatMap fun x ↦ writeCmd x.1 ++ writeData x.2))).panel =
        w.panel.run (cs.flatMap fun x ↦ Panel.send x.1 x.2) := by
    intro cs
    induction cs with
    | nil => exact fun _ ↦ rfl
    | cons x cs ih =>
      intro w
      rw [List.flatMap_cons, List.flatMap_cons, acts_append, Wire.run_append, ih, Wire.run_send,
        Panel.run_append]
  have hpanel := hrun setup w
  rw [← initDisplay] at hpanel
  rw [hpanel]
  constructor
  · have hsplit : setup = setup.take 2 ++ (Panel.colMod, [0x55]) :: setup.drop 3 := rfl
    rw [hsplit, List.flatMap_append, List.flatMap_cons, Panel.run_append, Panel.run_append,
      Panel.params_sends (by decide), Panel.params_send (by decide), if_pos rfl]
  · have hsplit : setup = setup.take 3 ++ (madCtl, [0x48]) :: setup.drop 4 := rfl
    rw [hsplit, List.flatMap_append, List.flatMap_cons, Panel.run_append, Panel.run_append,
      Panel.params_sends (by decide), Panel.params_send (by decide), if_pos rfl]

/-- What `julius_flush` does before the pixels. -/
def header : List Act :=
  acts (setWindow 0 0 (fbWidth - 1) (fbHeight - 1)) ++ [.dc true]

/-- The bytes of the pixels from an offset on. -/
def mems (k : ℕ) : List Act := (List.range' k (vmemSize - k)).map .mem

/-- `julius_flush` sends the window and all the pixels. -/
theorem acts_flush : acts flush = header ++ mems 0 := by
  have hsync : acts [.dcData, .sync] = .dc true :: mems 0 := by
    rw [mems, Nat.sub_zero, ← List.range_eq_range']
    simp only [acts, Stmt.acts, List.flatMap_cons, List.flatMap_nil, List.append_nil,
      List.singleton_append]
  rw [flush, acts_append, hsync, header, List.append_assoc, List.singleton_append]

theorem mems_succ {k : ℕ} (hk : k < vmemSize) : mems k = .mem k :: mems (k + 1) := by
  rw [mems, mems, show vmemSize - k = vmemSize - (k + 1) + 1 by omega, List.range'_succ,
    List.map_cons]

theorem mems_vmemSize : mems vmemSize = [] := by
  rw [mems, Nat.sub_self]
  rfl

/-- **The window is the whole panel.** -/
theorem run_header {vmem : ℕ → UInt8} {w : Wire}
    (hformat : w.panel.params Panel.colMod = Panel.sixteenBits) :
    (w.run vmem header).dc = true ∧ Panel.Writing 320 480 0 (w.run vmem header).panel := by
  have hrun : w.run vmem header = ⟨true, w.panel.run (Panel.window 1 63 1 223)⟩ := by
    have hx : coordinate 0 ++ coordinate (fbWidth - 1) = [0, 0, 1, 63] := by decide
    have hy : coordinate 0 ++ coordinate (fbHeight - 1) = [0, 0, 1, 223] := by decide
    rw [header, setWindow, hx, hy, List.append_assoc (writeCmd caSet ++ _), acts_append,
      acts_append, acts_append, Wire.run_append, Wire.run_append, Wire.run_append, Wire.run_send,
      ← Wire.run_append, ← acts_append, Wire.run_send, Wire.run_append, Wire.run_writeCmd,
      Panel.window, Panel.run_append, Panel.run_append]
    rfl
  rw [hrun]
  exact ⟨rfl, (Panel.run_window hformat (by decide) (by decide)).1⟩

/-! ### The driver -/

/-- A thread that may operate on the framebuffer. -/
inductive Thread
  | idle
  /-- In an operation. -/
  | entered
  /-- In an operation that has changed the memory. -/
  | changed
deriving DecidableEq

/-- The driver, with those who use it. -/
structure Fb where
  wire : Wire
  /-- `vmem`, by offset. -/
  vmem : ℕ → UInt8
  /-- `work` is queued. -/
  queued : Bool
  /-- What is still to be sent: nothing, if neither `work` runs nor `julius_st7796_resume`. -/
  sending : List Act
  threads : List Thread
  /-- Suspended. -/
  asleep : Bool

/-- What can happen next. -/
inductive FrameLabel
  /-- A thread begins an operation. -/
  | enter (i : ℕ)
  /-- It changes the memory. -/
  | change (i : ℕ) (vmem : ℕ → UInt8)
  /-- It ends the operation, and queues `work` if the operation does. -/
  | leave (i : ℕ) (op : FbOp)
  /-- `work` is taken from the queue. -/
  | dequeue
  /-- The next byte is sent. -/
  | send
  /-- `julius_st7796_suspend`, with all tasks frozen. -/
  | suspend
  /-- `julius_st7796_resume` begins. -/
  | resume

namespace Fb

/-- After `probe`, with a panel that has been reset, whatever is left in it: nothing has been sent
but the commands that set the panel up. -/
def probed (wire : Wire) (n : ℕ) : Fb :=
  ⟨wire.run (fun _ ↦ 0) (acts initDisplay), fun _ ↦ 0, false, [], List.replicate n .idle, false⟩

/-- Some operation has changed the memory and does not end yet. -/
abbrev Changing (s : Fb) : Prop := .changed ∈ s.threads

/-- Nothing is under way. -/
structure Idle (s : Fb) : Prop where
  queued : s.queued = false
  sending : s.sending = []
  threads : ¬ s.Changing
  asleep : s.asleep = false

end Fb

/-- The driver as a machine. -/
def frames : Machine Fb FrameLabel where
  Init s := ∃ wire n, s = .probed wire n
  step s
    | .enter i =>
      if s.asleep = false ∧ s.threads[i]? = some .idle then
        some { s with threads := s.threads.set i .entered }
      else none
    | .change i vmem =>
      if s.threads[i]? = some .entered ∨ s.threads[i]? = some .changed then
        some { s with vmem := vmem, threads := s.threads.set i .changed }
      else none
    | .leave i op =>
      if s.threads[i]? = some .entered ∨ s.threads[i]? = some .changed then
        some { s with threads := s.threads.set i .idle, queued := s.queued || op.schedules }
      else none
    | .dequeue =>
      if s.queued = true ∧ s.sending = [] then
        some { s with queued := false, sending := acts flush }
      else none
    | .send =>
      match s.sending with
      | [] => none
      | a :: rest => some { s with wire := s.wire.act s.vmem a, sending := rest }
    | .suspend =>
      if s.asleep = false ∧ s.sending = [] ∧ ∀ t ∈ s.threads, t = .idle then
        some { s with
          queued := false
          wire := s.wire.run s.vmem (acts (writeCmd dispOff ++ writeCmd slpIn))
          asleep := true }
      else none
    | .resume =>
      if s.asleep = true then
        some { s with
          sending := acts (writeCmd slpOut ++ writeCmd dispOn ++ flush)
          asleep := false }
      else none

/-- An operation that has changed the memory queues the work item at its end. -/
def Queues (s : Fb) : FrameLabel → Prop
  | .leave i op => s.threads[i]? = some .changed → op.schedules = true
  | _ => True

/-- A step after which everything is sent. -/
def FrameLabel.Sends : FrameLabel → Prop
  | .leave _ op => op.schedules = true
  | .resume => True
  | _ => False

/-! ### How far the panel is -/

variable {s t : Fb} {l : FrameLabel} {k : ℕ}

/-- Commands that lead to a window, whatever is in the memory. -/
structure Opens (as : List Act) (w : Wire) : Prop where
  fixed : ∀ a ∈ as, a.Fixed
  dc : ∀ vmem, (w.run vmem as).dc = true
  writing : ∀ vmem, Panel.Writing 320 480 0 (w.run vmem as).panel

theorem Opens.tail {a : Act} {as : List Act} {w : Wire} (h : Opens (a :: as) w)
    (vmem : ℕ → UInt8) : Opens as (w.act vmem a) := by
  obtain ⟨ha, has⟩ := List.forall_mem_cons.1 h.fixed
  have hrun : ∀ vmem', (w.act vmem a).run vmem' as = w.run vmem' (a :: as) := fun vmem' ↦ by
    rw [Wire.act_of_fixed ha vmem vmem']
    rfl
  refine ⟨has, fun vmem' ↦ ?_, fun vmem' ↦ ?_⟩
  · rw [hrun]
    exact h.dc vmem'
  · rw [hrun]
    exact h.writing vmem'

/-- The first `k` bytes of the memory were sent. -/
inductive Progress (s : Fb) : ℕ → Prop
  | window (rest : List Act) (hne : rest ≠ []) (hsending : s.sending = rest ++ mems 0)
      (hopens : Opens rest s.wire) : Progress s 0
  | pixels (k : ℕ) (hk : k < vmemSize) (hsending : s.sending = mems k) (hdc : s.wire.dc = true)
      (hwriting : Panel.Writing 320 480 k s.wire.panel) : Progress s k
  | done (hsending : s.sending = [])
      (hformat : s.wire.panel.params Panel.colMod = Panel.sixteenBits) : Progress s vmemSize

/-- Some commands in front of the window. -/
theorem Progress.of_flush {before : List Act} (hsending : s.sending = before ++ acts flush)
    (hfixed : ∀ a ∈ before, a.Fixed)
    (hformat : ∀ vmem, (s.wire.run vmem before).panel.params Panel.colMod = Panel.sixteenBits) :
    Progress s 0 := by
  have hheader : ∀ a ∈ header, a.Fixed := by decide
  refine .window (before ++ header) ?_ ?_
    ⟨List.forall_mem_append.2 ⟨hfixed, hheader⟩, fun vmem ↦ ?_, fun vmem ↦ ?_⟩
  · rw [header, ← List.append_assoc]
    exact List.append_ne_nil_of_right_ne_nil _ (List.cons_ne_nil _ _)
  · rw [hsending, acts_flush, List.append_assoc]
  · rw [Wire.run_append]
    exact (run_header (hformat vmem)).1
  · rw [Wire.run_append]
    exact (run_header (hformat vmem)).2

/-- The state behind `Progress` is what is sent and to whom. -/
theorem Progress.congr (h : Progress s k) (hsending : t.sending = s.sending)
    (hwire : t.wire = s.wire) : Progress t k := by
  cases h with
  | window rest hne hs hopens => exact .window rest hne (hsending.trans hs) (hwire ▸ hopens)
  | pixels k hk hs hdc hwriting =>
    exact .pixels k hk (hsending.trans hs) (hwire ▸ hdc) (hwire ▸ hwriting)
  | done hs hformat => exact .done (hsending.trans hs) (hwire ▸ hformat)

/-- Where nothing is sent, the panel is set up. -/
theorem Progress.of_nil (h : Progress s k) (hnil : s.sending = []) :
    k = vmemSize ∧ s.wire.panel.params Panel.colMod = Panel.sixteenBits := by
  cases h with
  | window rest hne hs hopens =>
    rw [hnil] at hs
    exact absurd (List.append_eq_nil_iff.1 hs.symm).1 hne
  | pixels k hk hs hdc hwriting =>
    rw [hnil, mems_succ hk] at hs
    cases hs
  | done hs hformat => exact ⟨rfl, hformat⟩

/-- What was sent is what is in the memory now. -/
def Fresh (s : Fb) (k : ℕ) : Prop :=
  ∀ i < 320 * 480,
    (2 * i + 1 = k → s.wire.panel.upper = some (s.vmem (2 * i))) ∧
      (2 * i + 1 < k →
        s.wire.panel.gram (i % 320) (i / 320) = (s.vmem (2 * i), s.vmem (2 * i + 1)))

theorem fresh_zero (s : Fb) : Fresh s 0 := fun _ _ ↦
  ⟨fun h ↦ absurd h (Nat.succ_ne_zero _), fun h ↦ absurd h (Nat.not_lt_zero _)⟩

/-- A byte of the pixels is sent. -/
theorem act_mem (hdc : s.wire.dc = true) (k : ℕ) :
    s.wire.act s.vmem (.mem k) = ⟨true, s.wire.panel.step (.data (s.vmem k))⟩ := by
  show (⟨s.wire.dc, s.wire.panel.step (if s.wire.dc then _ else _)⟩ : Wire) = _
  rw [hdc, if_pos rfl]

/-- **One more byte is sent**, as it is in the memory now. -/
theorem Progress.send (h : Progress s k) {a : Act} {rest : List Act}
    (hsending : s.sending = a :: rest)
    (ht : t = { s with wire := s.wire.act s.vmem a, sending := rest }) :
    ∃ k', Progress t k' ∧ (Fresh s k → Fresh t k') := by
  cases h with
  | done hs hformat =>
    rw [hs] at hsending
    cases hsending
  | window before hne hs hopens =>
    cases before with
    | nil => exact absurd rfl hne
    | cons b before =>
      rw [hs, List.cons_append] at hsending
      obtain ⟨rfl, rfl⟩ := List.cons.inj hsending
      have hopens' := hopens.tail s.vmem
      refine ⟨0, ?_, fun _ ↦ fresh_zero t⟩
      subst ht
      cases before with
      | nil => exact .pixels 0 (by decide) rfl (hopens'.dc s.vmem) (hopens'.writing s.vmem)
      | cons c before => exact .window (c :: before) (List.cons_ne_nil _ _) rfl hopens'
  | pixels k hk hs hdc hwriting =>
    rw [hs, mems_succ hk] at hsending
    obtain ⟨rfl, rfl⟩ := List.cons.inj hsending
    rw [act_mem hdc] at ht
    have hk' : k < 307200 := hk
    refine ⟨k + 1, ?_, fun hfresh i hi ↦ ?_⟩
    · subst ht
      rcases Nat.mod_two_eq_zero_or_one k with heven | hodd
      · exact .pixels (k + 1) (by show k + 1 < 307200; omega) rfl rfl
          (hwriting.step_even heven _).1
      · by_cases hlast : k + 1 < 307200
        · exact .pixels (k + 1) hlast rfl rfl (hwriting.step_odd hodd hlast _)
        · obtain rfl : k = 307199 := by omega
          refine .done mems_vmemSize ?_
          rw [(Panel.step_data_frame hwriting.command _).2.1]
          exact hwriting.format
    · subst ht
      show (_ → (s.wire.panel.step (.data (s.vmem k))).upper = some (s.vmem (2 * i))) ∧
        (_ → (s.wire.panel.step (.data (s.vmem k))).gram _ _ = _)
      rcases Nat.mod_two_eq_zero_or_one k with heven | hodd
      · obtain ⟨-, hgram, hupper⟩ := hwriting.step_even heven (s.vmem k)
        refine ⟨fun hik ↦ ?_, fun hik ↦ ?_⟩
        · rw [hupper, show k = 2 * i by omega]
        · rw [hgram]
          exact (hfresh i hi).2 (by omega)
      · refine ⟨fun hik ↦ absurd hik (by omega), fun hik ↦ ?_⟩
        by_cases hnow : 2 * i + 1 = k
        · rw [hwriting.gram_odd ((hfresh i hi).1 hnow), if_pos]
          · rw [hnow]
          · exact ⟨by rw [show k / 2 = i by omega], by rw [show k / 2 = i by omega]⟩
        · obtain ⟨a, ha⟩ : ∃ a, s.wire.panel.upper = some a := by
            refine Option.isSome_iff_exists.1 ?_
            rw [hwriting.upper, hodd]
            rfl
          rw [hwriting.gram_odd ha, if_neg]
          · exact (hfresh i hi).2 (by omega)
          · rintro ⟨hcol, hrow⟩
            have heq := Panel.place_inj hcol hrow
            omega

/-! ### What the steps keep -/

/-- What every step keeps. -/
structure Base (s : Fb) : Prop where
  progress : ∃ k, Progress s k
  asleep : s.asleep = true → s.sending = [] ∧ s.queued = false ∧ ∀ t ∈ s.threads, t = .idle

/-- What the panel shows is what is in the memory, or will be. -/
def Synced (s : Fb) : Prop :=
  ∃ k, Progress s k ∧ (s.queued = true ∨ s.Changing ∨ s.asleep = true ∨ Fresh s k)

/-- Another thread than those in a state leaves them there. -/
theorem mem_set_of_ne {threads : List Thread} {x y z : Thread} {i : ℕ}
    (hi : threads[i]? = some y) (hne : x ≠ y) (h : x ∈ threads) : x ∈ threads.set i z := by
  obtain ⟨j, hj⟩ := List.mem_iff_getElem?.1 h
  have hij : i ≠ j := by
    rintro rfl
    exact hne (Option.some.inj (hj.symm.trans hi))
  exact List.mem_iff_getElem?.2 ⟨j, (List.getElem?_set_ne hij).trans hj⟩

/-- A thread in an operation keeps the driver awake. -/
theorem Base.awake (hb : Base s) {i : ℕ} {x : Thread} (hi : s.threads[i]? = some x)
    (hx : x ≠ .idle) : s.asleep = false := by
  refine eq_false_of_ne_true fun hasleep ↦ hx ?_
  exact (hb.asleep hasleep).2.2 x (List.mem_of_getElem? hi)

/-- The panel is set up by commands other than `COLMOD`. -/
theorem format_writeCmd {w : Wire} (hformat : w.panel.params Panel.colMod = Panel.sixteenBits)
    {c d : UInt8} (hc : c ≠ Panel.colMod) (hd : d ≠ Panel.colMod) (vmem : ℕ → UInt8) :
    (w.run vmem (acts (writeCmd c ++ writeCmd d))).panel.params Panel.colMod =
      Panel.sixteenBits := by
  rw [acts_append, Wire.run_append, Wire.run_writeCmd, Wire.run_writeCmd]
  show ((w.panel.step (.cmd c)).step (.cmd d)).params _ = _
  rw [Panel.params_step_cmd hd.symm, Panel.params_step_cmd hc.symm, hformat]

/-- What a step keeps where it sends nothing. -/
theorem Base.of_still (hb : Base s) (hsending : t.sending = s.sending) (hwire : t.wire = s.wire)
    (hasleep : t.asleep = false) : Base t where
  progress := by
    obtain ⟨k, hk⟩ := hb.progress
    exact ⟨k, hk.congr hsending hwire⟩
  asleep := fun h ↦ absurd (hasleep.symm.trans h) Bool.false_ne_true

/-- An end of an operation. -/
theorem step_leave (hb : Base s) {i : ℕ} {op : FbOp}
    (hi : s.threads[i]? = some .entered ∨ s.threads[i]? = some .changed)
    (ht : t = { s with
      threads := s.threads.set i .idle, queued := s.queued || op.schedules }) :
    Base t ∧ (Synced s → Queues s (.leave i op) → Synced t) ∧
      (op.schedules = true → Synced t) := by
  have hawake : s.asleep = false := by
    rcases hi with hi | hi
    · exact hb.awake hi (by decide)
    · exact hb.awake hi (by decide)
  have hqueued : op.schedules = true → Synced t := by
    intro hop
    obtain ⟨k, hk⟩ := hb.progress
    refine ⟨k, hk.congr (by rw [ht]) (by rw [ht]), Or.inl ?_⟩
    rw [ht]
    show (s.queued || op.schedules) = true
    rw [hop, Bool.or_true]
  refine ⟨hb.of_still (by rw [ht]) (by rw [ht]) (by rw [ht]; exact hawake), ?_, hqueued⟩
  rintro ⟨k, hk, hsync⟩ hok
  rcases hi with hi | hi
  · refine ⟨k, hk.congr (by rw [ht]) (by rw [ht]), ?_⟩
    rw [ht]
    rcases hsync with hq | hc | ha | hf
    · left
      show (s.queued || op.schedules) = true
      rw [hq, Bool.true_or]
    · exact Or.inr (Or.inl (mem_set_of_ne hi (by decide) hc))
    · exact Or.inr (Or.inr (Or.inl ha))
    · exact Or.inr (Or.inr (Or.inr hf))
  · exact hqueued (hok hi)

/-- **What a step keeps**, and what it brings about. -/
theorem step_spec (hb : Base s) (hstep : frames.step s l = some t) :
    Base t ∧ (Synced s → Queues s l → Synced t) ∧ (l.Sends → Synced t) := by
  cases l with
  | enter i =>
    obtain ⟨⟨hawake, hi⟩, ht⟩ := Option.ite_none_right_eq_some.1 hstep
    obtain rfl := Option.some.inj ht
    refine ⟨hb.of_still rfl rfl hawake, ?_, False.elim⟩
    rintro ⟨k, hk, hsync⟩ -
    refine ⟨k, hk.congr rfl rfl, ?_⟩
    rcases hsync with hq | hc | ha | hf
    · exact Or.inl hq
    · exact Or.inr (Or.inl (mem_set_of_ne hi (by decide) hc))
    · exact Or.inr (Or.inr (Or.inl ha))
    · exact Or.inr (Or.inr (Or.inr hf))
  | change i vmem =>
    obtain ⟨hi, ht⟩ := Option.ite_none_right_eq_some.1 hstep
    obtain rfl := Option.some.inj ht
    obtain ⟨x, hx, hidle⟩ : ∃ x, s.threads[i]? = some x ∧ x ≠ .idle := by
      rcases hi with hi | hi
      · exact ⟨_, hi, by decide⟩
      · exact ⟨_, hi, by decide⟩
    have hlt : i < s.threads.length := (List.getElem?_eq_some_iff.1 hx).1
    refine ⟨hb.of_still rfl rfl (hb.awake hx hidle), ?_, False.elim⟩
    rintro ⟨k, hk, -⟩ -
    exact ⟨k, hk.congr rfl rfl, Or.inr (Or.inl (List.mem_set hlt _))⟩
  | leave i op =>
    obtain ⟨hi, ht⟩ := Option.ite_none_right_eq_some.1 hstep
    exact step_leave hb hi (Option.some.inj ht).symm
  | dequeue =>
    obtain ⟨⟨hqueued, hnil⟩, ht⟩ := Option.ite_none_right_eq_some.1 hstep
    obtain rfl := Option.some.inj ht
    obtain ⟨k, hk⟩ := hb.progress
    have hstart : Progress { s with queued := false, sending := acts flush } 0 :=
      .of_flush (List.nil_append _).symm (List.forall_mem_nil _) fun _ ↦ (hk.of_nil hnil).2
    refine ⟨⟨⟨0, hstart⟩, fun hasleep ↦ ?_⟩, fun _ _ ↦ ?_, False.elim⟩
    · have hq := (hb.asleep hasleep).2.1
      rw [hqueued] at hq
      cases hq
    · exact ⟨0, hstart, Or.inr (Or.inr (Or.inr (fresh_zero _)))⟩
  | send =>
    obtain ⟨k, hk⟩ := hb.progress
    cases hsending : s.sending with
    | nil =>
      rw [frames] at hstep
      simp only [hsending] at hstep
      cases hstep
    | cons a rest =>
      have ht : t = { s with wire := s.wire.act s.vmem a, sending := rest } := by
        rw [frames] at hstep
        simp only [hsending] at hstep
        exact (Option.some.inj hstep).symm
      obtain ⟨k', hk', -⟩ := hk.send hsending ht
      refine ⟨⟨⟨k', hk'⟩, fun hasleep ↦ ?_⟩, ?_, False.elim⟩
      · have hnil := (hb.asleep (by rw [ht] at hasleep; exact hasleep)).1
        rw [hsending] at hnil
        cases hnil
      · rintro ⟨j, hj, hsync⟩ -
        obtain ⟨j', hj', hfresh⟩ := hj.send hsending ht
        refine ⟨j', hj', ?_⟩
        rcases hsync with hq | hc | ha | hf
        · exact Or.inl (by rw [ht]; exact hq)
        · exact Or.inr (Or.inl (by rw [ht]; exact hc))
        · exact Or.inr (Or.inr (Or.inl (by rw [ht]; exact ha)))
        · exact Or.inr (Or.inr (Or.inr (hfresh hf)))
  | suspend =>
    obtain ⟨⟨hawake, hnil, hidle⟩, ht⟩ := Option.ite_none_right_eq_some.1 hstep
    obtain ⟨k, hk⟩ := hb.progress
    have hdone : Progress t vmemSize := by
      obtain rfl := Option.some.inj ht
      exact .done hnil (format_writeCmd (hk.of_nil hnil).2 (by decide) (by decide) s.vmem)
    obtain rfl := Option.some.inj ht
    exact ⟨⟨⟨_, hdone⟩, fun _ ↦ ⟨hnil, rfl, hidle⟩⟩,
      fun _ _ ↦ ⟨_, hdone, Or.inr (Or.inr (Or.inl rfl))⟩, False.elim⟩
  | resume =>
    obtain ⟨hasleep, ht⟩ := Option.ite_none_right_eq_some.1 hstep
    obtain ⟨k, hk⟩ := hb.progress
    have hnil := (hb.asleep hasleep).1
    have hstart : Progress t 0 := by
      obtain rfl := Option.some.inj ht
      have hsending : acts (writeCmd slpOut ++ writeCmd dispOn ++ flush) =
          acts (writeCmd slpOut ++ writeCmd dispOn) ++ acts flush := acts_append _ _
      exact .of_flush hsending (by decide)
        (format_writeCmd (hk.of_nil hnil).2 (by decide) (by decide))
    have hsynced : Synced t := ⟨0, hstart, Or.inr (Or.inr (Or.inr (fresh_zero t)))⟩
    refine ⟨⟨⟨0, hstart⟩, fun h ↦ ?_⟩, fun _ _ ↦ hsynced, fun _ ↦ hsynced⟩
    obtain rfl := Option.some.inj ht
    cases h

/-! ### Runs -/

theorem base_probed (wire : Wire) (n : ℕ) : Base (.probed wire n) :=
  ⟨⟨vmemSize, .done rfl (run_initDisplay _ wire).1⟩, fun h ↦ absurd h Bool.false_ne_true⟩

theorem base_run (hb : Base s) {ls : List FrameLabel} (hrun : frames.run s ls = some t) : Base t :=
  Machine.invariant_of_run (I := Base) (fun _ _ _ hu hstep ↦ (step_spec hu hstep).1) hb hrun

/-- **Nothing is lost.** After a run in which some operation has queued the work item, or the driver
has been resumed, and in which every operation that has changed the memory has queued it, the panel
shows the memory whenever nothing is under way. -/
theorem run_shows {wire : Wire} {n : ℕ} {ls : List FrameLabel}
    (hok : frames.Guarded Queues (.probed wire n) ls)
    (hsends : ∃ l ∈ ls, l.Sends) (hrun : frames.run (.probed wire n) ls = some t) (hidle : t.Idle)
    {x y : ℕ} (hx : x < 320) (hy : y < 480) :
    t.wire.panel.gram x y =
      (t.vmem (2 * (y * 320 + x)), t.vmem (2 * (y * 320 + x) + 1)) := by
  obtain ⟨l, hl, hsend⟩ := hsends
  obtain ⟨before, after, rfl⟩ := List.append_of_mem hl
  obtain ⟨u, hu, hrest⟩ := frames.run_append_eq_some.1 hrun
  obtain ⟨v, hv, hafter⟩ := frames.run_cons_eq_some.1 hrest
  have hguard := (frames.guarded_append_iff.1 hok).2 u hu
  have hbase := base_run (base_probed wire n) hu
  obtain ⟨hbv, -, hsynced⟩ := step_spec hbase hv
  -- from the step that sends everything on, the panel is in step with the memory
  have hend : Base t ∧ Synced t := by
    have hstep (a : Fb) (l : FrameLabel) (b : Fb) (hab : Base a ∧ Synced a)
        (hok : Queues a l) (hstep : frames.step a l = some b) : Base b ∧ Synced b := by
      obtain ⟨hb, hkeep, -⟩ := step_spec hab.1 hstep
      exact ⟨hb, hkeep hab.2 hok⟩
    exact Machine.invariant_of_guarded hstep ⟨hbv, hsynced hsend⟩ (hguard.2 v hv) hafter
  obtain ⟨k, hk, hsync⟩ := hend.2
  obtain ⟨rfl, -⟩ := hk.of_nil hidle.sending
  obtain ⟨hcol, hrow⟩ := (Panel.pixel_iff (i := y * 320 + x) hx).2 rfl
  rcases hsync with hq | hc | ha | hf
  · rw [hidle.queued] at hq
    cases hq
  · exact absurd hc hidle.threads
  · rw [hidle.asleep] at ha
    cases ha
  · have hpixel := (hf (y * 320 + x) (by omega)).2 (by show _ < 307200; omega)
    rwa [← hcol, ← hrow] at hpixel

/-- **What is sent comes to an end.** -/
theorem run_send_all (s : Fb) :
    ∃ t, frames.run s (List.replicate s.sending.length .send) = some t ∧ t.sending = [] ∧
      t.vmem = s.vmem ∧ t.queued = s.queued ∧ t.threads = s.threads ∧ t.asleep = s.asleep := by
  induction hsending : s.sending generalizing s with
  | nil => exact ⟨s, rfl, hsending, rfl, rfl, rfl, rfl⟩
  | cons a rest ih =>
    have hstep : frames.step s .send =
        some { s with wire := s.wire.act s.vmem a, sending := rest } := by
      rw [frames]
      simp only [hsending]
    obtain ⟨t, ht, hframe⟩ := ih { s with wire := s.wire.act s.vmem a, sending := rest } rfl
    exact ⟨t, frames.run_cons_eq_some.2 ⟨_, hstep, ht⟩, hframe⟩

/-- Sending is never in the way. -/
theorem guarded_send (s : Fb) (n : ℕ) : frames.Guarded Queues s (List.replicate n .send) :=
  Machine.guarded_of_invariant (I := fun _ ↦ True) (P := fun l ↦ l = .send)
    (fun _ l _ hl ↦ by rw [hl]; trivial) (fun _ _ _ _ _ _ ↦ trivial) trivial
    fun _ hl ↦ (List.mem_replicate.1 hl).2

/-- A rectangle that fills the display with one byte, and is shown. -/
theorem run_shows_fillrect :
    ∃ wire ls t, frames.run (.probed wire 1) ls = some t ∧ t.Idle ∧
      ∀ x < 320, ∀ y < 480, t.wire.panel.gram x y = (7, 7) := by
  obtain ⟨wire⟩ : Nonempty Wire :=
    ⟨⟨false, ⟨0, fun _ ↦ [], false, false, 0, 0, none, fun _ _ ↦ (0, 0)⟩⟩⟩
  set s : Fb := ⟨(Fb.probed wire 1).wire, fun _ ↦ 7, false, acts flush, [.idle], false⟩ with hs
  obtain ⟨t, ht, hnil, hvmem, hqueued, hthreads, hasleep⟩ := run_send_all s
  generalize s.sending.length = n at ht
  set before : List FrameLabel :=
    [.enter 0, .change 0 fun _ ↦ 7, .leave 0 .fillrect, .dequeue] with hbefore
  have hfirst : frames.run (.probed wire 1) before = some s := rfl
  have hrun : frames.run (.probed wire 1) (before ++ List.replicate n .send) = some t :=
    frames.run_append_eq_some.2 ⟨s, hfirst, ht⟩
  have hok : frames.Guarded Queues (.probed wire 1) (before ++ List.replicate n .send) := by
    refine frames.guarded_append_iff.2 ⟨?_, fun u _ ↦ guarded_send u _⟩
    refine Machine.guarded_of_invariant (I := fun _ ↦ True)
      (P := fun l ↦ ∀ s : Fb, Queues s l) (fun s _ _ h ↦ h s) (fun _ _ _ _ _ _ ↦ trivial) trivial ?_
    rw [hbefore]
    simp only [List.forall_mem_cons, List.not_mem_nil, false_implies, implies_true, and_true]
    exact ⟨fun _ ↦ trivial, fun _ ↦ trivial, fun _ _ ↦ rfl, fun _ ↦ trivial⟩
  have hchanging : ¬ t.Changing := by
    rw [Fb.Changing, hthreads]
    exact (by decide : Thread.changed ∉ [Thread.idle])
  have hidle : t.Idle := ⟨hqueued, hnil, hchanging, hasleep⟩
  have hsends : ∃ l ∈ before ++ List.replicate n .send, l.Sends :=
    ⟨.leave 0 .fillrect, List.mem_append_left _ (by rw [hbefore]; simp), rfl⟩
  refine ⟨wire, _, t, hrun, hidle, fun x hx y hy ↦ ?_⟩
  rw [run_shows hok hsends hrun hidle hx hy, hvmem]

end JuliusOS.Drivers.St7796
