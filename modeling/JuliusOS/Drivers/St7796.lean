import JuliusOS.Foundations.Machine
import Mathlib.Data.Int.Notation
import Mathlib.Data.List.Infix
import Mathlib.Logic.Function.Basic

/-!
# Removing the display's driver

`julius_st7796_remove` of `drivers/st7796/julius_st7796.c`, among threads in the operations of the
framebuffer and the work item that they queue, which flushes the framebuffer to the panel. A
function without branches is the list of its statements, and where it is, is the list of those to
come. `schedule_work` queues the item unless it is queued, and `cancel_work_sync` removes a queued
item and waits for a running one.

The item is cancelled before the framebuffer is unregistered, so an operation in between queues it
again. Nothing goes wrong exactly if none does, once the panel sleeps, and the item is no more in
the way by then (`lateFlush_iff`).
-/

namespace JuliusOS.Drivers.St7796

/-- `JULIUS_FB_WIDTH`. -/
abbrev fbWidth : UInt16 := 320

/-- `JULIUS_FB_HEIGHT`. -/
abbrev fbHeight : UInt16 := 480

/-- `ST7796_DISPOFF`. -/
abbrev dispOff : UInt8 := 0x28

/-- `ST7796_SLPIN`. -/
abbrev slpIn : UInt8 := 0x10

/-- `ST7796_CASET`. -/
abbrev caSet : UInt8 := 0x2A

/-- `ST7796_RASET`. -/
abbrev raSet : UInt8 := 0x2B

/-- `ST7796_RAMWR`. -/
abbrev ramWr : UInt8 := 0x2C

/-! ### What is sent to the panel -/

/-- The statements that drive the panel. -/
inductive Stmt
  /-- `julius_dc_cmd`. -/
  | dcCmd
  /-- `spi_write` of a command. -/
  | cmd (cmd : UInt8)
  /-- `julius_dc_data`. -/
  | dcData
  /-- `spi_write` of data. -/
  | data (data : List UInt8)
  /-- `spi_sync` of `vmem`. -/
  | sync
deriving DecidableEq

/-- `julius_write_cmd`. -/
def writeCmd (cmd : UInt8) : List Stmt := [.dcCmd, .cmd cmd]

/-- `julius_write_data`. -/
def writeData (data : List UInt8) : List Stmt := [.dcData, .data data]

/-- The bytes of a coordinate: `x>>8` and `x&0xFF`. -/
def coordinate (x : UInt16) : List UInt8 := [(x >>> 8).toUInt8, (x &&& 0xFF).toUInt8]

/-- `julius_set_window`. -/
def setWindow (x0 y0 x1 y1 : UInt16) : List Stmt :=
  writeCmd caSet ++ writeData (coordinate x0 ++ coordinate x1) ++
  writeCmd raSet ++ writeData (coordinate y0 ++ coordinate y1) ++
  writeCmd ramWr

/-- `julius_flush`. -/
def flush : List Stmt := setWindow 0 0 (fbWidth - 1) (fbHeight - 1) ++ [.dcData, .sync]

/-- The statements of `julius_st7796_remove`. -/
inductive RemoveStmt
  /-- `cancel_work_sync` removes a queued item. -/
  | cancel
  /-- `cancel_work_sync` waits for a running one. -/
  | wait
  /-- A statement that drives the panel. -/
  | panel (stmt : Stmt)
  /-- `unregister_framebuffer`. -/
  | unregister
  /-- `fb_dealloc_cmap`. -/
  | deallocCmap
  /-- `framebuffer_release`. -/
  | release
  /-- `dma_free_coherent`. -/
  | free
deriving DecidableEq

/-- `julius_st7796_remove`. -/
def st7796Remove : List RemoveStmt :=
  [.cancel, .wait] ++ (writeCmd dispOff ++ writeCmd slpIn).map .panel ++
  [.unregister, .deallocCmap, .release, .free]

/-! ### The driver -/

/-- The operations of the framebuffer that change it. -/
inductive FbOp
  /-- `julius_fb_write`, in which `fb_sys_write` has returned `ret`. -/
  | write (ret : ℤ)
  /-- `julius_fb_fillrect`. -/
  | fillrect
  /-- `julius_fb_copyarea`. -/
  | copyarea
  /-- `julius_fb_imageblit`. -/
  | imageblit
deriving DecidableEq

/-- An operation comes to `schedule_work`. -/
def FbOp.schedules : FbOp → Bool
  | .write ret => 0 < ret
  | _ => true

/-- The driver, with those who use it. -/
structure JuliusFb where
  /-- `work` is queued. -/
  queued : Bool
  /-- What `work` still has to do: nothing, if it does not run. -/
  work : List Stmt
  /-- The threads that come to `schedule_work` next. -/
  scheduling : ℕ → Bool
  /-- What `julius_st7796_remove` still has to do. -/
  remove : List RemoveStmt

/-- What can happen next. -/
inductive Label
  /-- Thread `i` is in an operation, up to `schedule_work`. -/
  | op (i : ℕ) (op : FbOp)
  /-- `schedule_work` of thread `i`. -/
  | schedule (i : ℕ)
  /-- `work` is taken from the queue. -/
  | dequeue
  /-- The next statement of `julius_flush`. -/
  | flush
  /-- The next statement of `julius_st7796_remove`. -/
  | remove
deriving DecidableEq

namespace JuliusFb

variable (s : JuliusFb)

/-- After `probe`. -/
def probed : JuliusFb := ⟨false, [], fun _ ↦ false, st7796Remove⟩

/-- `unregister_framebuffer` has not returned. -/
abbrev Registered : Prop := .unregister ∈ s.remove

/-- `julius_st7796_remove` has put the panel to sleep. -/
abbrev Asleep : Prop := .panel (.cmd slpIn) ∉ s.remove

/-- `vmem` was freed. -/
abbrev Freed : Prop := .free ∉ s.remove

/-- Whether a thread comes to `schedule_work` next. -/
def setScheduling (i : ℕ) (b : Bool) : JuliusFb :=
  { s with scheduling := Function.update s.scheduling i b }

end JuliusFb

/-- The driver as a machine. The operations go on until `unregister_framebuffer` returns. -/
def st7796 : Machine JuliusFb Label where
  Init s := s = .probed
  step s
    | .op i op =>
      if s.Registered ∧ s.scheduling i = false then some (s.setScheduling i op.schedules) else none
    | .schedule i =>
      if s.Registered ∧ s.scheduling i = true then
        some { s.setScheduling i false with queued := true }
      else none
    | .dequeue =>
      if s.queued = true ∧ s.work = [] then some { s with queued := false, work := flush } else none
    | .flush =>
      match s.work with
      | [] => none
      | _ :: rest => some { s with work := rest }
    | .remove =>
      match s.remove with
      | [] => none
      | .cancel :: rest => some { s with queued := false, remove := rest }
      | .wait :: rest => if s.work = [] then some { s with remove := rest } else none
      | _ :: rest => some { s with remove := rest }

/-! ### Flushes that come too late -/

/-- A command for the panel. -/
def Stmt.IsCmd : Stmt → Prop
  | .cmd _ => True
  | _ => False

instance : DecidablePred Stmt.IsCmd
  | .cmd _ => inferInstanceAs (Decidable True)
  | .dcCmd | .dcData | .data _ | .sync => inferInstanceAs (Decidable False)

/-- A step is no statement of `julius_flush` after the memory was freed, and sends no command in
`julius_flush` after the panel was put to sleep. -/
def NotLate (s : JuliusFb) : Label → Prop
  | .flush => ∀ stmt ∈ s.work.head?, ¬ s.Freed ∧ (s.Asleep → ¬ stmt.IsCmd)
  | _ => True

instance (s : JuliusFb) (l : Label) : Decidable (NotLate s l) :=
  match l with
  | .flush =>
    inferInstanceAs (Decidable (∀ stmt ∈ s.work.head?, ¬ s.Freed ∧ (s.Asleep → ¬ stmt.IsCmd)))
  | .op .. | .schedule _ | .dequeue | .remove => inferInstanceAs (Decidable True)

/-- A step of the work item. -/
def Label.IsWork : Label → Prop
  | .dequeue | .flush => True
  | _ => False

/-- When the panel is put to sleep, the work item is not queued, and if it runs, it has sent all of
its commands; then no operation queues it; and when the memory is freed, it does not run. -/
def Quiet (s : JuliusFb) : Label → Prop
  | .schedule _ => ¬ s.Asleep
  | .remove =>
    (s.remove.head? = some (.panel (.cmd slpIn)) →
      s.queued = false ∧ ∀ stmt ∈ s.work, ¬ stmt.IsCmd) ∧
    (s.remove.head? = some .free → s.work = [])
  | _ => True

/-! ### Safe states -/

variable {s s' s₀ t : JuliusFb} {l : Label} {ls : List Label} {stmt : Stmt} {r : RemoveStmt}
  {rest : List RemoveStmt}

/-- The work item will not be late if it is left alone. -/
structure Safe (s : JuliusFb) : Prop where
  asleep : s.Asleep → s.queued = false ∧ ∀ stmt ∈ s.work, ¬ stmt.IsCmd
  freed : s.Freed → s.work = []

/-- The panel is put to sleep before the memory is freed. -/
theorem asleep_of_freed (h : s.remove <:+ st7796Remove) (hfreed : s.Freed) : s.Asleep := by
  have hall : ∀ rest ∈ st7796Remove.tails, .free ∉ rest → .panel (.cmd slpIn) ∉ rest := by decide
  exact hall _ ((List.mem_tails _ _).2 h) hfreed

/-- The panel is put to sleep once. -/
theorem not_mem_of_slpIn (h : .panel (.cmd slpIn) :: rest <:+ st7796Remove) :
    .panel (.cmd slpIn) ∉ rest := by
  have hall : ∀ rest ∈ st7796Remove.tails, rest.head? = some (.panel (.cmd slpIn)) →
      .panel (.cmd slpIn) ∉ rest.tail := by decide
  exact hall _ ((List.mem_tails _ _).2 h) rfl

/-- The memory is freed last. -/
theorem eq_nil_of_free (h : .free :: rest <:+ st7796Remove) : rest = [] := by
  have hall : ∀ rest ∈ st7796Remove.tails, rest.head? = some .free → rest.tail = [] := by decide
  exact hall _ ((List.mem_tails _ _).2 h) rfl

/-- What a statement of `julius_st7796_remove` does. -/
theorem remove_eq_some (hstep : st7796.step s .remove = some s') :
    ∃ r rest, s.remove = r :: rest ∧ s'.remove = rest ∧ s'.work = s.work ∧
      (s'.queued = s.queued ∨ r = .cancel ∧ s'.queued = false) := by
  simp only [st7796] at hstep
  split at hstep
  next => cases hstep
  next rest hr =>
    obtain rfl := Option.some.inj hstep
    exact ⟨_, rest, hr, rfl, rfl, .inr ⟨rfl, rfl⟩⟩
  next rest hr =>
    split at hstep
    · obtain rfl := Option.some.inj hstep
      exact ⟨_, rest, hr, rfl, rfl, .inl rfl⟩
    · cases hstep
  next r rest _ _ hr =>
    obtain rfl := Option.some.inj hstep
    exact ⟨r, rest, hr, rfl, rfl, .inl rfl⟩

/-- What is left to do of `julius_st7796_remove` is a part of it. -/
theorem remove_suffix (h : s.remove <:+ st7796Remove) (hstep : st7796.step s l = some s') :
    s'.remove <:+ st7796Remove := by
  cases l with
  | remove =>
    obtain ⟨r, rest, hr, hr', -⟩ := remove_eq_some hstep
    rw [hr] at h
    exact hr' ▸ (List.suffix_cons r rest).trans h
  | flush =>
    simp only [st7796] at hstep
    split at hstep
    · cases hstep
    · exact Option.some.inj hstep ▸ h
  | _ =>
    simp only [st7796, Option.ite_none_right_eq_some] at hstep
    exact Option.some.inj hstep.2 ▸ h

/-! ### The work item, left alone -/

/-- The work item runs on through a part of what it has to do. -/
theorem run_flush {pre post : List Stmt} (hwork : s.work = pre ++ post) :
    st7796.run s (List.replicate pre.length .flush) = some { s with work := post } := by
  induction pre generalizing s with
  | nil =>
    rw [List.nil_append] at hwork
    exact congrArg some (hwork ▸ rfl)
  | cons stmt pre ih =>
    have hstep : st7796.step s .flush = some { s with work := pre ++ post } := by
      simp only [st7796, hwork, List.cons_append]
    rw [List.length_cons, List.replicate_succ, st7796.run_cons, hstep, Option.bind_some]
    exact ih (s := { s with work := pre ++ post }) rfl

/-- While the panel sleeps, the work item must not have a command left to send. -/
theorem not_isCmd_of_guarded (hasleep : s.Asleep)
    (h : ∀ n, st7796.Guarded NotLate s (List.replicate n .flush)) :
    ∀ stmt ∈ s.work, ¬ stmt.IsCmd := by
  intro stmt hmem
  obtain ⟨pre, post, hwork⟩ := List.append_of_mem hmem
  have hguard := h (pre.length + 1)
  rw [List.replicate_succ', st7796.guarded_append_singleton (run_flush hwork)] at hguard
  exact (hguard.2 stmt rfl).2 hasleep

/-- What is safe is not late. -/
theorem Safe.notLate (hsafe : Safe s) : NotLate s l := by
  cases l with
  | flush =>
    intro stmt hmem
    have hwork : stmt ∈ s.work := List.mem_of_mem_head? hmem
    refine ⟨fun hfreed ↦ ?_, fun hasleep ↦ (hsafe.asleep hasleep).2 stmt hwork⟩
    rw [hsafe.freed hfreed] at hwork
    exact List.not_mem_nil hwork
  | _ => trivial

/-- A statement that stands once in `remove` is not ahead any more once it was run. -/
theorem notMem_rest_iff {q : RemoveStmt} (honce : r = q → q ∉ rest) :
    q ∉ rest ↔ r = q ∨ q ∉ r :: rest := by
  rw [List.mem_cons, not_or]
  by_cases heq : r = q
  · exact iff_of_true (honce heq) (.inl heq)
  · rw [or_iff_right heq, and_iff_right fun hqr ↦ heq hqr.symm]

/-- A step from a safe state leads to a safe state exactly if it is quiet. -/
theorem quiet_iff (h : s.remove <:+ st7796Remove) (hsafe : Safe s)
    (hstep : st7796.step s l = some s') : Quiet s l ↔ Safe s' := by
  cases l with
  | op i op =>
    simp only [st7796, Option.ite_none_right_eq_some] at hstep
    obtain rfl := Option.some.inj hstep.2
    exact iff_of_true trivial ⟨hsafe.asleep, hsafe.freed⟩
  | schedule i =>
    simp only [st7796, Option.ite_none_right_eq_some] at hstep
    obtain rfl := Option.some.inj hstep.2
    constructor
    · exact fun hquiet ↦ ⟨fun hasleep ↦ absurd hasleep hquiet, hsafe.freed⟩
    · exact fun hsafe' hasleep ↦ Bool.noConfusion (hsafe'.asleep hasleep).1
  | dequeue =>
    simp only [st7796, Option.ite_none_right_eq_some] at hstep
    obtain ⟨⟨hqueued, -⟩, hstep⟩ := hstep
    obtain rfl := Option.some.inj hstep
    -- the panel does not sleep, as the item is queued
    have hawake : ¬ s.Asleep := fun hasleep ↦
      Bool.noConfusion (hqueued.symm.trans (hsafe.asleep hasleep).1)
    exact iff_of_true trivial
      ⟨fun hasleep ↦ absurd hasleep hawake, fun hfreed ↦ absurd (asleep_of_freed h hfreed) hawake⟩
  | flush =>
    simp only [st7796] at hstep
    split at hstep
    next => cases hstep
    next stmt rest hwork =>
      obtain rfl := Option.some.inj hstep
      refine iff_of_true trivial ⟨fun hasleep ↦ ?_, fun hfreed ↦ ?_⟩
      · obtain ⟨hqueued, hcmd⟩ := hsafe.asleep hasleep
        exact ⟨hqueued, fun stmt' hmem ↦ hcmd stmt' (hwork ▸ List.mem_cons_of_mem _ hmem)⟩
      · exact absurd (hwork.symm.trans (hsafe.freed hfreed)) (List.cons_ne_nil _ _)
  | remove =>
    obtain ⟨r, rest, hr, hr', hwork, hqueued⟩ := remove_eq_some hstep
    rw [hr] at h
    have hasleep : s'.Asleep ↔ r = .panel (.cmd slpIn) ∨ s.Asleep := by
      show _ ∉ s'.remove ↔ _ ∨ _ ∉ s.remove
      rw [hr, hr']
      exact notMem_rest_iff fun hslp ↦ not_mem_of_slpIn (hslp ▸ h)
    have hfreed : s'.Freed ↔ r = .free ∨ s.Freed := by
      show _ ∉ s'.remove ↔ _ ∨ _ ∉ s.remove
      rw [hr, hr']
      exact notMem_rest_iff fun hfree ↦ eq_nil_of_free (hfree ▸ h) ▸ List.not_mem_nil
    simp only [Quiet, hr, List.head?_cons, Option.some.injEq]
    constructor
    · rintro ⟨hslp, hfree⟩
      refine ⟨fun ha ↦ ?_, fun hf ↦ ?_⟩
      · obtain ⟨hq, hcmd⟩ : s.queued = false ∧ ∀ stmt ∈ s.work, ¬ stmt.IsCmd :=
          (hasleep.1 ha).elim hslp hsafe.asleep
        exact ⟨hqueued.elim (fun h ↦ h.trans hq) fun h ↦ h.2, hwork ▸ hcmd⟩
      · exact hwork.trans ((hfreed.1 hf).elim hfree hsafe.freed)
    · refine fun hsafe' ↦ ⟨?_, fun hfree ↦ hwork ▸ hsafe'.freed (hfreed.2 (.inl hfree))⟩
      rintro rfl
      obtain ⟨hq, hcmd⟩ := hsafe'.asleep (hasleep.2 (.inl rfl))
      refine ⟨?_, hwork ▸ hcmd⟩
      rcases hqueued with hsame | ⟨hcancel, -⟩
      · exact hsame.symm.trans hq
      · cases hcancel

/-- **A state is safe exactly if the work item, left alone, will not be late.** -/
theorem safe_iff (h : s.remove <:+ st7796Remove) :
    Safe s ↔ ∀ ls, (∀ l ∈ ls, l.IsWork) → st7796.Guarded NotLate s ls := by
  constructor
  · intro hsafe ls hls
    refine Machine.guarded_of_invariant (M := st7796) (P := Label.IsWork)
      (I := fun s ↦ s.remove <:+ st7796Remove ∧ Safe s) (fun s l hs _ ↦ hs.2.notLate) ?_
      ⟨h, hsafe⟩ hls
    rintro s l s' ⟨hs, hsafe⟩ hl hstep
    refine ⟨remove_suffix hs hstep, (quiet_iff hs hsafe hstep).1 ?_⟩
    cases l with
    | dequeue | flush => trivial
    | op | schedule | remove => exact hl.elim
  · intro hguard
    have hflush (n : ℕ) : ∀ l ∈ List.replicate n Label.flush, l.IsWork :=
      fun l hl ↦ (List.eq_of_mem_replicate hl) ▸ trivial
    refine ⟨fun hasleep ↦ ⟨?_, not_isCmd_of_guarded hasleep fun n ↦ hguard _ (hflush n)⟩, ?_⟩
    · -- a queued item would be taken from the queue after the present run
      by_contra hq
      have hqueued : s.queued = true := by simpa using hq
      have hrun : st7796.run s (List.replicate s.work.length .flush) = some { s with work := [] } :=
        run_flush (List.append_nil _).symm
      have hdequeue : st7796.step { s with work := [] } .dequeue =
          some { s with queued := false, work := flush } := by
        simp only [st7796]
        rw [if_pos ⟨hqueued, trivial⟩]
      refine not_isCmd_of_guarded (s := { s with queued := false, work := flush }) hasleep
        (fun n ↦ ?_) (.cmd caSet) (List.mem_cons_of_mem _ (List.mem_cons_self ..)) trivial
      have hall := hguard
        (List.replicate s.work.length .flush ++ .dequeue :: List.replicate n .flush) (by
          intro l hl
          rw [List.mem_append, List.mem_cons] at hl
          exact hl.elim (hflush _ l) fun hl ↦ hl.elim (fun he ↦ he ▸ trivial) (hflush _ l))
      exact ((st7796.guarded_append_iff.1 hall).2 _ hrun).2 _ hdequeue
    · intro hfreed
      by_contra hwork
      obtain ⟨stmt, rest, hcons⟩ := List.exists_cons_of_ne_nil hwork
      have hone := (hguard [.flush] (hflush 1)).1
      exact (hone stmt (by rw [hcons]; rfl)).1 hfreed

/-! ### Removing the driver -/

/-- **The work item is late neither in a run nor in what it may do after any part of it, exactly if
the run is quiet.** -/
theorem lateFlush_iff (h0 : st7796.Init s₀) (hrun : st7796.run s₀ ls = some t) :
    st7796.Guarded Quiet s₀ ls ↔
      ∀ n ls', (∀ l ∈ ls', l.IsWork) → st7796.Guarded NotLate s₀ (ls.take n ++ ls') := by
  obtain rfl : s₀ = .probed := h0
  have hinit : Safe .probed := ⟨fun h ↦ absurd (by decide) h, fun _ ↦ rfl⟩
  have hvisit : st7796.Guarded Quiet .probed ls ↔
      ∀ n u, st7796.run .probed (ls.take n) = some u → Safe u :=
    st7796.guarded_iff_forall_take (J := fun s ↦ s.remove <:+ st7796Remove)
      (fun s l s' hs hsafe hstep ↦ ⟨remove_suffix hs hstep, quiet_iff hs hsafe hstep⟩)
      List.suffix_rfl hinit hrun
  have hsuffix {n : ℕ} {u : JuliusFb} (hu : st7796.run .probed (ls.take n) = some u) :
      u.remove <:+ st7796Remove :=
    Machine.invariant_of_run (I := fun s ↦ s.remove <:+ st7796Remove)
      (fun s l s' hs hstep ↦ remove_suffix hs hstep) List.suffix_rfl hu
  rw [hvisit]
  constructor
  · intro hall n ls' hls'
    refine st7796.guarded_append_iff.2
      ⟨?_, fun u hu ↦ (safe_iff (hsuffix hu)).1 (hall n u hu) ls' hls'⟩
    refine Machine.guarded_of_forall_take (I := Safe) (fun s l hs ↦ hs.notLate) fun m u hu ↦ ?_
    rw [List.take_take] at hu
    exact hall _ u hu
  · intro hlate n u hu
    exact (safe_iff (hsuffix hu)).2 fun ls' hls' ↦
      (st7796.guarded_append_iff.1 (hlate n ls' hls')).2 u hu

/-- A driver that is removed while nobody uses it. -/
theorem lateFlush_iff_unused :
    st7796.Guarded Quiet .probed (List.replicate 10 .remove) ↔
      ∀ n ls', (∀ l ∈ ls', l.IsWork) →
        st7796.Guarded NotLate .probed ((List.replicate 10 .remove).take n ++ ls') :=
  lateFlush_iff rfl rfl

/-- Something is written to the framebuffer after `cancel_work_sync`, and flushed when its memory is
gone. -/
theorem notLate_false :
    ¬ ∀ s₀ ls t, st7796.Init s₀ → st7796.run s₀ ls = some t → st7796.Guarded NotLate s₀ ls := by
  intro h
  have hguard := h .probed
    (List.replicate 6 .remove ++ [.op 0 (.write 1), .schedule 0] ++ List.replicate 4 .remove ++
      [.dequeue, .flush]) _ rfl rfl
  revert hguard
  decide

end JuliusOS.Drivers.St7796
