import JuliusOS.Foundations.Panel
import Mathlib.Data.List.Induction

/-!
# The framebuffer of the display driver

`drivers/display/julius_display.c`: a framebuffer in memory, and a panel on SPI that is sent the
whole of it after every `write` of the framebuffer device. What the kernel's helpers make of the
memory is a parameter of the operations, and so is what is in the panel before; every transfer
arrives.

The drawing operations change the memory, but send nothing. So the panel shows what was there after
the last `write`, whatever has been drawn since (`run_shows_last_write`). It takes the upper byte of
a pixel first, while the memory of a little-endian machine has the lower one first, so it shows
every pixel with its bytes exchanged.
-/

namespace JuliusOS.Drivers

open Panel (Bus send)

namespace JuliusDisplay

/-- `JULIUS_DISPLAY_WIDTH`. -/
abbrev displayWidth : ℕ := 320

/-- `JULIUS_DISPLAY_HEIGHT`. -/
abbrev displayHeight : ℕ := 480

/-- `vmem_size`. -/
abbrev vmemSize : ℕ := 307200

/-- `CMD_SWRESET`. -/
abbrev swReset : UInt8 := 0x01

/-- `CMD_MADCTL`. -/
abbrev madCtl : UInt8 := 0x36

/-- `julius_write_cmd`. -/
def writeCmd (cmd : UInt8) : List Bus := [.cmd cmd]

/-- `julius_write_data`. -/
def writeData (data : Bytes) : List Bus := data.map .data

/-- The bytes of a coordinate: `(x>>8)&0xFF` and `x&0xFF`. -/
def coordinate (x : ℕ) : Bytes := [UInt8.ofNat (x >>> 8 &&& 0xFF), UInt8.ofNat (x &&& 0xFF)]

/-- `julius_set_window`. -/
def setWindow (x0 y0 x1 y1 : ℕ) : List Bus :=
  writeCmd Panel.caSet ++ writeData (coordinate x0 ++ coordinate x1) ++
  writeCmd Panel.raSet ++ writeData (coordinate y0 ++ coordinate y1) ++
  writeCmd Panel.ramWr

/-- What `julius_init_display` sends after the reset of the hardware. -/
def initDisplay : List Bus :=
  writeCmd swReset ++ writeCmd Panel.slpOut ++
  writeCmd Panel.colMod ++ writeData [0x55] ++
  writeCmd madCtl ++ writeData [0x00] ++
  writeCmd Panel.dispOn

/-- What `julius_update_display` sends. -/
def updateDisplay (vmem : Buf vmemSize) : List Bus :=
  setWindow 0 0 (displayWidth - 1) (displayHeight - 1) ++ vmem.bytes.map .data

/-- The operations of `julius_fb_ops` that change the memory, with what is in it afterwards. -/
inductive FbOp
  /-- `julius_fb_write`. -/
  | write (vmem : Buf vmemSize)
  /-- `sys_fillrect`. -/
  | fillrect (vmem : Buf vmemSize)
  /-- `sys_copyarea`. -/
  | copyarea (vmem : Buf vmemSize)
  /-- `sys_imageblit`. -/
  | imageblit (vmem : Buf vmemSize)

/-- What is in the memory after an operation. -/
def FbOp.memory : FbOp → Buf vmemSize
  | write vmem | fillrect vmem | copyarea vmem | imageblit vmem => vmem

/-- What is in the memory after the last `write`, if there is one. -/
def lastWrite : List FbOp → Option (Buf vmemSize)
  | [] => none
  | op :: ops =>
    (lastWrite ops).or (match op with
      | .write vmem => some vmem
      | _ => none)

end JuliusDisplay

/-- The driver and its panel. -/
structure JuliusDisplay where
  panel : Panel
  vmem : Buf JuliusDisplay.vmemSize
  /-- `gpio_bl`. -/
  bl : Bool

namespace JuliusDisplay

/-- `julius_display_probe`, with a panel that has been reset, whatever is left in it. -/
def probe (panel : Panel) : JuliusDisplay := ⟨panel.run initDisplay, Buf.zero vmemSize, true⟩

/-- An operation of the framebuffer. -/
def step (d : JuliusDisplay) : FbOp → JuliusDisplay
  | .write vmem => { d with vmem := vmem, panel := d.panel.run (updateDisplay vmem) }
  | .fillrect vmem | .copyarea vmem | .imageblit vmem => { d with vmem := vmem }

/-- One operation after another. -/
def run (d : JuliusDisplay) (ops : List FbOp) : JuliusDisplay := ops.foldl step d

/-- A pixel of the memory, as a little-endian machine has it. -/
def pixel (vmem : Buf vmemSize) (x y : ℕ) : ℕ :=
  (vmem.bytes.getD (2 * (y * displayWidth + x)) 0).toNat +
    (vmem.bytes.getD (2 * (y * displayWidth + x) + 1) 0).toNat * 256

/-- A pixel with its two bytes exchanged. -/
def exchanged (pixel : ℕ) : ℕ := pixel % 256 * 256 + pixel / 256

/-- A pixel of the panel. -/
def shown (p : Panel) (x y : ℕ) : ℕ := (p.gram x y).1.toNat * 256 + (p.gram x y).2.toNat

/-! ### What is sent -/

/-- The panel is on, and takes pixels of sixteen bits. -/
structure On (d : JuliusDisplay) : Prop where
  format : d.panel.params Panel.colMod = Panel.sixteenBits
  access : d.panel.params madCtl = [0x00]
  awake : d.panel.awake = true
  on : d.panel.on = true
  bl : d.bl = true

theorem probe_spec (p : Panel) : On (probe p) ∧ (probe p).panel.gram = p.gram := by
  have hrun : (probe p).panel =
      ((((p.run (send swReset [])).run (send Panel.slpOut [])).run
        (send Panel.colMod [0x55])).run (send madCtl [0x00])).run (send Panel.dispOn []) := rfl
  refine ⟨⟨?_, ?_, ?_, ?_, rfl⟩, ?_⟩
  all_goals rw [hrun]
  · rw [Panel.params_send (by decide), if_neg (by decide), Panel.params_send (by decide),
      if_neg (by decide), Panel.params_send (by decide), if_pos rfl]
  · rw [Panel.params_send (by decide), if_neg (by decide), Panel.params_send (by decide),
      if_pos rfl]
  · rw [Panel.awake_send (by decide), Panel.awake_send (by decide), Panel.awake_send (by decide),
      Panel.awake_send (by decide)]
    rfl
  · rw [Panel.on_send (by decide), if_pos rfl]
  · rw [Panel.gram_send (by decide), Panel.gram_send (by decide), Panel.gram_send (by decide),
      Panel.gram_send (by decide), Panel.gram_send (by decide)]

/-- What is sent is a frame of the whole panel. -/
theorem updateDisplay_eq (vmem : Buf vmemSize) :
    updateDisplay vmem =
      Panel.window 1 63 1 223 ++ Panel.bytes (fun j ↦ vmem.bytes.getD j 0) vmemSize := by
  have hwindow : setWindow 0 0 (displayWidth - 1) (displayHeight - 1) =
      Panel.window 1 63 1 223 := by decide
  have hdata := Panel.map_data_eq vmem.bytes
  rw [vmem.length_bytes] at hdata
  rw [updateDisplay, hwindow, hdata]

/-- **A `write` sends the whole memory.** -/
theorem On.write {d : JuliusDisplay} (h : On d) (vmem : Buf vmemSize) :
    On (step d (.write vmem)) ∧
      Panel.Shows displayWidth (displayWidth * displayHeight) (fun j ↦ vmem.bytes.getD j 0)
        (step d (.write vmem)).panel := by
  have hpanel : (step d (.write vmem)).panel = d.panel.run (updateDisplay vmem) := by rw [step]
  rw [updateDisplay_eq] at hpanel
  obtain ⟨hshows, hsame⟩ := Panel.run_frame (w := displayWidth) (h := displayHeight)
    (a := 1) (b := 63) (c := 1) (d := 223) h.format (by decide) (by decide)
    (fun j ↦ vmem.bytes.getD j 0) (n := vmemSize) rfl
  rw [← hpanel] at hshows hsame
  refine ⟨⟨?_, ?_, ?_, ?_, h.bl⟩, hshows⟩
  · rw [hsame.params _ (by decide) (by decide) (by decide)]
    exact h.format
  · rw [hsame.params _ (by decide) (by decide) (by decide)]
    exact h.access
  · rw [hsame.awake]
    exact h.awake
  · rw [hsame.on]
    exact h.on

/-! ### Runs -/

theorem run_append (d : JuliusDisplay) (ops ops' : List FbOp) :
    run d (ops ++ ops') = run (run d ops) ops' := List.foldl_append

theorem lastWrite_append_singleton (ops : List FbOp) (op : FbOp) :
    lastWrite (ops ++ [op]) = (lastWrite [op]).or (lastWrite ops) := by
  induction ops with
  | nil => exact (Option.or_none).symm
  | cons o ops ih =>
    show (lastWrite (ops ++ [op])).or _ = (lastWrite [op]).or ((lastWrite ops).or _)
    rw [ih, Option.or_assoc]

/-- What the panel shows after some operations. -/
structure Spec (p : Panel) (ops : List FbOp) (d : JuliusDisplay) : Prop where
  on : On d
  written : ∀ vmem, lastWrite ops = some vmem →
    Panel.Shows displayWidth (displayWidth * displayHeight) (fun j ↦ vmem.bytes.getD j 0) d.panel
  untouched : lastWrite ops = none → d.panel.gram = p.gram

/-- What one more operation does. -/
theorem Spec.step {p : Panel} {ops : List FbOp} {d : JuliusDisplay} (h : Spec p ops d) (op : FbOp) :
    Spec p (ops ++ [op]) (JuliusDisplay.step d op) := by
  cases op with
  | write vmem =>
    obtain ⟨hon, hshows⟩ := h.on.write vmem
    refine ⟨hon, fun v hv ↦ ?_, fun hnone ↦ ?_⟩
    · rw [lastWrite_append_singleton] at hv
      obtain rfl : vmem = v := Option.some.inj hv
      exact hshows
    · rw [lastWrite_append_singleton] at hnone
      cases hnone
  | fillrect vmem | copyarea vmem | imageblit vmem =>
    have hlast : ∀ o, lastWrite [o] = none → lastWrite (ops ++ [o]) = lastWrite ops := fun o ho ↦ by
      rw [lastWrite_append_singleton, ho, Option.none_or]
    refine ⟨⟨h.on.format, h.on.access, h.on.awake, h.on.on, h.on.bl⟩, fun v hv ↦ ?_, fun hnone ↦ ?_⟩
    · rw [hlast _ rfl] at hv
      exact h.written v hv
    · rw [hlast _ rfl] at hnone
      exact h.untouched hnone

theorem spec_run (p : Panel) (ops : List FbOp) : Spec p ops (run (probe p) ops) := by
  induction ops using List.reverseRecOn with
  | nil =>
    obtain ⟨hon, hgram⟩ := probe_spec p
    exact ⟨hon, fun v hv ↦ absurd hv (Option.some_ne_none v).symm, fun _ ↦ hgram⟩
  | append_singleton ops op ih =>
    rw [run_append]
    exact ih.step op

/-- The bytes that are stored are read in the other order. -/
theorem shown_eq_exchanged {p : Panel} {vmem : Buf vmemSize}
    (h : Panel.Shows displayWidth (displayWidth * displayHeight) (fun j ↦ vmem.bytes.getD j 0) p)
    {x y : ℕ} (hx : x < displayWidth) (hy : y < displayHeight) :
    shown p x y = exchanged (pixel vmem x y) := by
  obtain ⟨hcol, hrow⟩ := (Panel.pixel_iff (i := y * displayWidth + x) hx).2 rfl
  have hlt : y * displayWidth + x < displayWidth * displayHeight := by
    have hx' : x < 320 := hx
    have hy' : y < 480 := hy
    show y * 320 + x < 320 * 480
    omega
  have hpixel := h (y * displayWidth + x) hlt
  rw [← hcol, ← hrow] at hpixel
  have hlow := (vmem.bytes.getD (2 * (y * displayWidth + x)) 0).toNat_lt
  rw [shown, hpixel, exchanged, pixel, Nat.add_mul_mod_self_right, Nat.mod_eq_of_lt hlow,
    Nat.add_mul_div_right _ _ (by decide), Nat.div_eq_of_lt hlow, Nat.zero_add]

/-- **The panel shows the last `write`.** After any operations the panel is on; it shows the pixels
that were in the memory after the last `write`, each with its bytes exchanged, and if there was
none, what was in the panel before. -/
theorem run_shows_last_write (p : Panel) (ops : List FbOp) :
    On (run (probe p) ops) ∧
      (∀ vmem, lastWrite ops = some vmem → ∀ x < displayWidth, ∀ y < displayHeight,
        shown (run (probe p) ops).panel x y = exchanged (pixel vmem x y)) ∧
      (lastWrite ops = none → (run (probe p) ops).panel.gram = p.gram) := by
  have h := spec_run p ops
  exact ⟨h.on, fun vmem hlast x hx y hy ↦ shown_eq_exchanged (h.written vmem hlast) hx hy,
    h.untouched⟩

end JuliusDisplay

end JuliusOS.Drivers
