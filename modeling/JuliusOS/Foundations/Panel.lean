import JuliusOS.Foundations.Bytes
import Mathlib.Logic.Function.Basic

/-!
# A display panel on a serial bus

A panel takes bytes, and a line tells commands from data. What comes after a command are its
parameters, except that after `RAMWR` it is pixels of two bytes, the upper one first: they are
stored in the window that the parameters of `CASET` and `RASET` describe, row by row. The panel
reads parameters of two bytes with the upper one first, too.

A panel that has stored some of the bytes of a full window is `Writing`. One more byte leaves it so,
and changes at most the pixel that the byte completes (`Writing.step_even`, `Writing.step_odd`,
`Writing.gram_odd`), so a full window of bytes is stored as it is (`Writing.shows`).
-/

namespace Panel

/-- `SLPIN`. -/
abbrev slpIn : UInt8 := 0x10

/-- `SLPOUT`. -/
abbrev slpOut : UInt8 := 0x11

/-- `DISPOFF`. -/
abbrev dispOff : UInt8 := 0x28

/-- `DISPON`. -/
abbrev dispOn : UInt8 := 0x29

/-- `CASET`. -/
abbrev caSet : UInt8 := 0x2A

/-- `RASET`. -/
abbrev raSet : UInt8 := 0x2B

/-- `RAMWR`. -/
abbrev ramWr : UInt8 := 0x2C

/-- `COLMOD`. -/
abbrev colMod : UInt8 := 0x3A

/-- The parameter of `COLMOD` for pixels of sixteen bits. -/
abbrev sixteenBits : Bytes := [0x55]

/-- A byte on the bus. -/
inductive Bus
  | cmd (c : UInt8)
  | data (b : UInt8)
deriving DecidableEq

end Panel

open Panel

/-- The controller of a panel. -/
structure Panel where
  /-- The last command. -/
  command : UInt8
  /-- What came after the last command of each kind. -/
  params : UInt8 → Bytes
  awake : Bool
  on : Bool
  /-- Where the next pixel is stored. -/
  col : ℕ
  row : ℕ
  /-- The byte of the next pixel that has come already. -/
  upper : Option UInt8
  /-- The two bytes of each pixel. -/
  gram : ℕ → ℕ → UInt8 × UInt8

namespace Panel

/-- Two bytes as a number, the upper one first. -/
def word (b : Bytes) (i : ℕ) : ℕ := (b.getD i 0).toNat * 256 + (b.getD (i + 1) 0).toNat

/-- The first column of the window. -/
def colStart (p : Panel) : ℕ := word (p.params caSet) 0

/-- The last column of the window. -/
def colEnd (p : Panel) : ℕ := word (p.params caSet) 2

/-- The first row of the window. -/
def rowStart (p : Panel) : ℕ := word (p.params raSet) 0

/-- The last row of the window. -/
def rowEnd (p : Panel) : ℕ := word (p.params raSet) 2

/-- Both bytes of a pixel are there. -/
def store (p : Panel) (a b : UInt8) : Panel :=
  { p with
    upper := none
    gram := fun x y ↦ if x = p.col ∧ y = p.row then (a, b) else p.gram x y
    col := if p.col < p.colEnd then p.col + 1 else p.colStart
    row :=
      if p.col < p.colEnd then p.row else if p.row < p.rowEnd then p.row + 1 else p.rowStart }

/-- A byte comes. In other formats than sixteen bits pixels are not looked at here. -/
def step (p : Panel) : Bus → Panel
  | .cmd c =>
    { p with
      command := c
      params := Function.update p.params c []
      awake := if c = slpOut then true else if c = slpIn then false else p.awake
      on := if c = dispOn then true else if c = dispOff then false else p.on
      col := if c = ramWr then p.colStart else p.col
      row := if c = ramWr then p.rowStart else p.row
      upper := none }
  | .data b =>
    if p.command = ramWr then
      if p.params colMod = sixteenBits then
        match p.upper with
        | none => { p with upper := some b }
        | some a => p.store a b
      else p
    else { p with params := Function.update p.params p.command (p.params p.command ++ [b]) }

/-- One byte after another. -/
def run (p : Panel) (bs : List Bus) : Panel := bs.foldl step p

theorem run_append (p : Panel) (bs bs' : List Bus) : p.run (bs ++ bs') = (p.run bs).run bs' :=
  List.foldl_append

theorem run_cons (p : Panel) (b : Bus) (bs : List Bus) : p.run (b :: bs) = (p.step b).run bs := rfl

/-! ### Commands and their parameters -/

/-- The bytes of a command and its parameters. -/
def send (c : UInt8) (ps : Bytes) : List Bus := .cmd c :: ps.map .data

/-- Parameters are added to those of the last command. -/
theorem run_params {p : Panel} (hc : p.command ≠ ramWr) (ps : Bytes) :
    p.run (ps.map .data) =
      { p with params := Function.update p.params p.command (p.params p.command ++ ps) } := by
  induction ps generalizing p with
  | nil =>
    rw [List.append_nil, Function.update_eq_self]
    rfl
  | cons b ps ih =>
    rw [List.map_cons, run_cons, step, if_neg hc]
    rw [ih (p := { p with
      params := Function.update p.params p.command (p.params p.command ++ [b]) }) hc]
    simp only [Function.update_idem, Function.update_self, List.append_assoc,
      List.singleton_append]

/-- A command with parameters, other than `RAMWR`. -/
theorem run_send {c : UInt8} (hc : c ≠ ramWr) (p : Panel) (ps : Bytes) :
    p.run (send c ps) =
      { p with
        command := c
        params := Function.update p.params c ps
        awake := if c = slpOut then true else if c = slpIn then false else p.awake
        on := if c = dispOn then true else if c = dispOff then false else p.on
        upper := none } := by
  rw [send, run_cons, run_params (p := p.step (.cmd c)) hc]
  simp only [step, Function.update_idem, Function.update_self, List.nil_append, if_neg hc]

theorem params_send {c d : UInt8} (hc : c ≠ ramWr) (p : Panel) (ps : Bytes) :
    (p.run (send c ps)).params d = if d = c then ps else p.params d := by
  rw [run_send hc]
  exact Function.update_apply ..

theorem awake_send {c : UInt8} (hc : c ≠ ramWr) (p : Panel) (ps : Bytes) :
    (p.run (send c ps)).awake =
      if c = slpOut then true else if c = slpIn then false else p.awake := by
  rw [run_send hc]

theorem on_send {c : UInt8} (hc : c ≠ ramWr) (p : Panel) (ps : Bytes) :
    (p.run (send c ps)).on = if c = dispOn then true else if c = dispOff then false else p.on := by
  rw [run_send hc]

theorem gram_send {c : UInt8} (hc : c ≠ ramWr) (p : Panel) (ps : Bytes) :
    (p.run (send c ps)).gram = p.gram := by
  rw [run_send hc]

/-- Commands other than one leave its parameters. -/
theorem params_sends {e : UInt8} {cs : List (UInt8 × Bytes)} (hc : ∀ x ∈ cs, x.1 ≠ ramWr ∧ e ≠ x.1)
    (p : Panel) : (p.run (cs.flatMap fun x ↦ send x.1 x.2)).params e = p.params e := by
  induction cs generalizing p with
  | nil => rfl
  | cons x cs ih =>
    obtain ⟨⟨hx, hne⟩, hcs⟩ := List.forall_mem_cons.1 hc
    rw [List.flatMap_cons, run_append, ih hcs, params_send hx, if_neg hne]

/-! ### Writing a full window -/

variable {p : Panel} {w h k : ℕ}

/-- A window of `w` columns and `h` rows in the upper left corner, in which the first `k` bytes are
stored. -/
structure Writing (w h k : ℕ) (p : Panel) : Prop where
  command : p.command = ramWr
  format : p.params colMod = sixteenBits
  colStart : p.colStart = 0
  colEnd : p.colEnd = w - 1
  rowStart : p.rowStart = 0
  rowEnd : p.rowEnd = h - 1
  col : p.col = k / 2 % w
  row : p.row = k / 2 / w
  upper : p.upper.isSome = (k % 2 == 1)

/-- The bytes of the pixels lie in the window. -/
theorem row_lt (hk : k < 2 * (w * h)) : k / 2 / w < h := by
  have hlt : k / 2 < w * h := by omega
  exact Nat.div_lt_of_lt_mul hlt

/-- The first byte of a pixel. -/
theorem Writing.step_even (hp : Writing w h k p) (hk : k % 2 = 0) (b : UInt8) :
    Writing w h (k + 1) (p.step (.data b)) ∧ (p.step (.data b)).gram = p.gram ∧
      (p.step (.data b)).upper = some b := by
  have hnone : p.upper = none := by
    have hupper := hp.upper
    rw [hk] at hupper
    exact Option.not_isSome_iff_eq_none.1 (by rw [hupper]; decide)
  have hstep : p.step (.data b) = { p with upper := some b } := by
    rw [step, if_pos hp.command, if_pos hp.format, hnone]
  rw [hstep]
  refine ⟨⟨hp.command, hp.format, hp.colStart, hp.colEnd, hp.rowStart, hp.rowEnd, ?_, ?_, ?_⟩,
    rfl, rfl⟩
  · rw [show (k + 1) / 2 = k / 2 by omega]
    exact hp.col
  · rw [show (k + 1) / 2 = k / 2 by omega]
    exact hp.row
  · rw [show (k + 1) % 2 = 1 by omega]
    rfl

/-- The second byte of a pixel. -/
theorem Writing.gram_odd (hp : Writing w h k p) {a : UInt8} (ha : p.upper = some a) (b : UInt8)
    (x y : ℕ) :
    (p.step (.data b)).gram x y =
      if x = k / 2 % w ∧ y = k / 2 / w then (a, b) else p.gram x y := by
  rw [step, if_pos hp.command, if_pos hp.format, ha]
  show (if x = p.col ∧ y = p.row then (a, b) else p.gram x y) = _
  rw [hp.col, hp.row]

/-- The next place in a row. -/
theorem next_in_row {i : ℕ} (hlt : i % w < w - 1) :
    (i + 1) / w = i / w ∧ (i + 1) % w = i % w + 1 := by
  have hdiv := Nat.mod_add_div i w
  exact (Nat.div_mod_unique (by omega)).2 ⟨by omega, by omega⟩

/-- The first place of the next row. -/
theorem next_row {i : ℕ} (hw : 0 < w) (hlast : ¬ i % w < w - 1) :
    (i + 1) / w = i / w + 1 ∧ (i + 1) % w = 0 := by
  have hdiv := Nat.mod_add_div i w
  have hmod := Nat.mod_lt i hw
  exact (Nat.div_mod_unique hw).2 ⟨by rw [Nat.mul_succ]; omega, hw⟩

/-- **The next pixel** is the one to the right, or the first one of the next row. -/
theorem Writing.step_odd (hp : Writing w h k p) (hk : k % 2 = 1) (hlt : k + 1 < 2 * (w * h))
    (b : UInt8) : Writing w h (k + 1) (p.step (.data b)) := by
  obtain ⟨a, ha⟩ : ∃ a, p.upper = some a := by
    refine Option.isSome_iff_exists.1 ?_
    rw [hp.upper, hk]
    rfl
  have hw : 0 < w := Nat.pos_of_ne_zero fun h0 ↦ by
    rw [h0, Nat.zero_mul] at hlt
    omega
  have hstep : p.step (.data b) = p.store a b := by
    rw [step, if_pos hp.command, if_pos hp.format, ha]
  have hnext : (k + 1) / 2 = k / 2 + 1 := by omega
  rw [hstep]
  refine ⟨hp.command, hp.format, hp.colStart, hp.colEnd, hp.rowStart, hp.rowEnd, ?_, ?_, ?_⟩
  · show (if p.col < p.colEnd then p.col + 1 else p.colStart) = _
    rw [hp.col, hp.colEnd, hp.colStart, hnext]
    by_cases hlast : k / 2 % w < w - 1
    · rw [if_pos hlast, (next_in_row hlast).2]
    · rw [if_neg hlast, (next_row hw hlast).2]
  · show (if p.col < p.colEnd then p.row
      else if p.row < p.rowEnd then p.row + 1 else p.rowStart) = _
    rw [hp.col, hp.colEnd, hp.row, hp.rowEnd, hnext]
    by_cases hlast : k / 2 % w < w - 1
    · rw [if_pos hlast, (next_in_row hlast).1]
    · have hrow := row_lt (w := w) (h := h) hlt
      rw [hnext, (next_row hw hlast).1] at hrow
      rw [if_neg hlast, if_pos (by omega), (next_row hw hlast).1]
  · show (none : Option UInt8).isSome = _
    rw [show (k + 1) % 2 = 0 by omega]
    rfl

/-- A pixel of the window by its number. -/
theorem pixel_iff {x y i : ℕ} (hx : x < w) : x = i % w ∧ y = i / w ↔ i = y * w + x := by
  constructor
  · rintro ⟨rfl, rfl⟩
    rw [Nat.mul_comm, Nat.div_add_mod]
  · rintro rfl
    have hw : 0 < w := by omega
    rw [Nat.mul_comm, Nat.mul_add_mod, Nat.mod_eq_of_lt hx, Nat.mul_add_div hw,
      Nat.div_eq_of_lt hx, Nat.add_zero]
    exact ⟨rfl, rfl⟩

/-! ### A whole frame -/

/-- The first `n` pixels are those of a memory. -/
def Shows (w n : ℕ) (memory : ℕ → UInt8) (p : Panel) : Prop :=
  ∀ i < n, p.gram (i % w) (i / w) = (memory (2 * i), memory (2 * i + 1))

/-- A command leaves the parameters of the others. -/
theorem params_step_cmd {c d : UInt8} (hne : d ≠ c) (p : Panel) :
    (p.step (.cmd c)).params d = p.params d := Function.update_of_ne hne _ _

theorem awake_step_cmd (p : Panel) (c : UInt8) :
    (p.step (.cmd c)).awake = if c = slpOut then true else if c = slpIn then false else p.awake :=
  rfl

theorem on_step_cmd (p : Panel) (c : UInt8) :
    (p.step (.cmd c)).on = if c = dispOn then true else if c = dispOff then false else p.on := rfl

theorem gram_step_cmd (p : Panel) (c : UInt8) : (p.step (.cmd c)).gram = p.gram := rfl

/-- `RAMWR` begins a window that the parameters describe. -/
theorem writing_of_ramWr (hformat : p.params colMod = sixteenBits) (hcs : p.colStart = 0)
    (hce : p.colEnd = w - 1) (hrs : p.rowStart = 0) (hre : p.rowEnd = h - 1) :
    Writing w h 0 (p.step (.cmd ramWr)) where
  command := rfl
  format := (params_step_cmd (by decide) p).trans hformat
  colStart := by rw [Panel.colStart, params_step_cmd (by decide)]; exact hcs
  colEnd := by rw [Panel.colEnd, params_step_cmd (by decide)]; exact hce
  rowStart := by rw [Panel.rowStart, params_step_cmd (by decide)]; exact hrs
  rowEnd := by rw [Panel.rowEnd, params_step_cmd (by decide)]; exact hre
  col := by
    rw [Nat.zero_div, Nat.zero_mod]
    exact hcs
  row := by
    simp only [Nat.zero_div]
    exact hrs
  upper := rfl

/-- The place of a pixel belongs to no other one. -/
theorem place_inj {i j : ℕ} (hx : i % w = j % w) (hy : i / w = j / w) : i = j := by
  rw [← Nat.mod_add_div i w, ← Nat.mod_add_div j w, hx, hy]

/-- The first bytes of a memory. -/
def bytes (memory : ℕ → UInt8) (k : ℕ) : List Bus := (List.range k).map fun j ↦ .data (memory j)

theorem bytes_succ (memory : ℕ → UInt8) (k : ℕ) :
    bytes memory (k + 1) = bytes memory k ++ [.data (memory k)] := by
  rw [bytes, List.range_succ, List.map_append, ← bytes]
  rfl

/-- What the first bytes of a frame leave. -/
theorem Writing.run_bytes (hp : Writing w h 0 p) (memory : ℕ → UInt8) {k : ℕ}
    (hk : k ≤ 2 * (w * h)) :
    (k < 2 * (w * h) → Writing w h k (p.run (bytes memory k)) ∧
        (k % 2 = 1 → (p.run (bytes memory k)).upper = some (memory (k - 1)))) ∧
      Shows w (k / 2) memory (p.run (bytes memory k)) := by
  induction k with
  | zero =>
    exact ⟨fun _ ↦ ⟨hp, fun hodd ↦ absurd hodd (by decide)⟩,
      fun i hi ↦ absurd hi (Nat.not_lt_zero i)⟩
  | succ k ih =>
    obtain ⟨hwriting, hshows⟩ := ih (by omega)
    obtain ⟨hq, hupper⟩ := hwriting (by omega)
    rw [bytes_succ, run_append]
    set q := p.run (bytes memory k) with hqdef
    show (_ → Writing w h (k + 1) (q.step (.data (memory k))) ∧
      (_ → (q.step (.data (memory k))).upper = _)) ∧ Shows w _ memory (q.step (.data (memory k)))
    rcases Nat.mod_two_eq_zero_or_one k with heven | hodd
    · obtain ⟨hnext, hgram, hfirst⟩ := hq.step_even heven (memory k)
      refine ⟨fun _ ↦ ⟨hnext, fun _ ↦ hfirst⟩, ?_⟩
      rw [Shows, hgram, show (k + 1) / 2 = k / 2 by omega]
      exact hshows
    · refine ⟨fun hlt ↦ ⟨hq.step_odd hodd hlt (memory k), fun hodd' ↦ absurd hodd' (by omega)⟩, ?_⟩
      intro i hi
      rw [hq.gram_odd (hupper hodd)]
      by_cases hlast : i = k / 2
      · subst hlast
        rw [if_pos ⟨rfl, rfl⟩, show k - 1 = 2 * (k / 2) by omega,
          show 2 * (k / 2) + 1 = k by omega]
      · rw [if_neg fun hplace ↦ hlast (place_inj hplace.1 hplace.2)]
        exact hshows i (by omega)

/-- **A full window of bytes is stored as it is.** -/
theorem Writing.shows (hp : Writing w h 0 p) (memory : ℕ → UInt8) :
    Shows w (w * h) memory (p.run (bytes memory (2 * (w * h)))) := by
  have hshows := (hp.run_bytes memory (Nat.le_refl _)).2
  rwa [Nat.mul_div_cancel_left _ (by decide)] at hshows

/-- A byte of a pixel changes nothing else. -/
theorem step_data_frame (hc : p.command = ramWr) (b : UInt8) :
    (p.step (.data b)).command = ramWr ∧ (p.step (.data b)).params = p.params ∧
      (p.step (.data b)).awake = p.awake ∧ (p.step (.data b)).on = p.on := by
  rw [step, if_pos hc]
  by_cases hformat : p.params colMod = sixteenBits
  · rw [if_pos hformat]
    cases p.upper <;> exact ⟨hc, rfl, rfl, rfl⟩
  · rw [if_neg hformat]
    exact ⟨hc, rfl, rfl, rfl⟩

/-- A frame changes no parameters, and leaves the panel on or off as it is. -/
theorem run_bytes_frame (hc : p.command = ramWr) (memory : ℕ → UInt8) (k : ℕ) :
    (p.run (bytes memory k)).command = ramWr ∧ (p.run (bytes memory k)).params = p.params ∧
      (p.run (bytes memory k)).awake = p.awake ∧ (p.run (bytes memory k)).on = p.on := by
  induction k with
  | zero => exact ⟨hc, rfl, rfl, rfl⟩
  | succ k ih =>
    obtain ⟨hcommand, hparams, hawake, hon⟩ := ih
    obtain ⟨hcommand', hparams', hawake', hon'⟩ := step_data_frame hcommand (memory k)
    rw [bytes_succ, run_append]
    exact ⟨hcommand', hparams'.trans hparams, hawake'.trans hawake, hon'.trans hon⟩

/-- The bytes that choose a window in the upper left corner, and begin it. -/
def window (a b c d : UInt8) : List Bus :=
  send caSet [0, 0, a, b] ++ send raSet [0, 0, c, d] ++ [.cmd ramWr]

/-- What only other commands and pixels can change. -/
structure SameSetup (p q : Panel) : Prop where
  params : ∀ e, e ≠ caSet → e ≠ raSet → e ≠ ramWr → q.params e = p.params e
  awake : q.awake = p.awake
  on : q.on = p.on

theorem SameSetup.trans {p q r : Panel} (h : SameSetup p q) (h' : SameSetup q r) :
    SameSetup p r where
  params e hc hr hw := (h'.params e hc hr hw).trans (h.params e hc hr hw)
  awake := h'.awake.trans h.awake
  on := h'.on.trans h.on

/-- **A window begins**, and nothing else changes. -/
theorem run_window {a b c d : UInt8} (hformat : p.params colMod = sixteenBits)
    (hw : a.toNat * 256 + b.toNat = w - 1) (hh : c.toNat * 256 + d.toNat = h - 1) :
    Writing w h 0 (p.run (window a b c d)) ∧ SameSetup p (p.run (window a b c d)) ∧
      (p.run (window a b c d)).gram = p.gram := by
  set r := (p.run (send caSet [0, 0, a, b])).run (send raSet [0, 0, c, d]) with hr
  have hrun : p.run (window a b c d) = r.step (.cmd ramWr) := by
    rw [window, run_append, run_append]
    rfl
  have hparams : ∀ e, r.params e =
      if e = raSet then [0, 0, c, d] else if e = caSet then [0, 0, a, b] else p.params e := by
    intro e
    rw [hr, params_send (by decide), params_send (by decide)]
  have hcolumns : r.params caSet = [0, 0, a, b] := by rw [hparams, if_neg (by decide), if_pos rfl]
  have hrows : r.params raSet = [0, 0, c, d] := by rw [hparams, if_pos rfl]
  have hother : r.params colMod = p.params colMod := by
    rw [hparams, if_neg (by decide), if_neg (by decide)]
  have hfirst : ∀ u v : UInt8, word [0, 0, u, v] 0 = 0 := fun u v ↦ by
    simp only [word, List.getD_cons_zero, List.getD_cons_succ, UInt8.toNat_zero, Nat.zero_mul]
  have hlast : ∀ u v : UInt8, word [0, 0, u, v] 2 = u.toNat * 256 + v.toNat := fun u v ↦ by
    simp only [word, List.getD_cons_zero, List.getD_cons_succ]
  rw [hrun]
  refine ⟨writing_of_ramWr (hother.trans hformat) ?_ ?_ ?_ ?_, ⟨fun e hc hr' hw' ↦ ?_, ?_, ?_⟩, ?_⟩
  · rw [colStart, hcolumns, hfirst]
  · rw [colEnd, hcolumns, hlast, hw]
  · rw [rowStart, hrows, hfirst]
  · rw [rowEnd, hrows, hlast, hh]
  · rw [params_step_cmd hw', hparams, if_neg hr', if_neg hc]
  · rw [awake_step_cmd, if_neg (by decide), if_neg (by decide), hr, awake_send (by decide),
      if_neg (by decide), if_neg (by decide), awake_send (by decide), if_neg (by decide),
      if_neg (by decide)]
  · rw [on_step_cmd, if_neg (by decide), if_neg (by decide), hr, on_send (by decide),
      if_neg (by decide), if_neg (by decide), on_send (by decide), if_neg (by decide),
      if_neg (by decide)]
  · rw [gram_step_cmd, hr, gram_send (by decide), gram_send (by decide)]

/-- **A frame is shown as it is**, from every state of the panel. -/
theorem run_frame {a b c d : UInt8} (hformat : p.params colMod = sixteenBits)
    (hw : a.toNat * 256 + b.toNat = w - 1) (hh : c.toNat * 256 + d.toNat = h - 1)
    (memory : ℕ → UInt8) {n : ℕ} (hn : n = 2 * (w * h)) :
    Shows w (w * h) memory (p.run (window a b c d ++ bytes memory n)) ∧
      SameSetup p (p.run (window a b c d ++ bytes memory n)) := by
  obtain ⟨hwriting, hsame, -⟩ := run_window hformat hw hh
  obtain ⟨-, hparams, hawake, hon⟩ := run_bytes_frame hwriting.command memory n
  rw [run_append]
  refine ⟨?_, hsame.trans ⟨fun e _ _ _ ↦ congrFun hparams e, hawake, hon⟩⟩
  rw [hn]
  exact hwriting.shows memory

/-- The bytes of a list are those of the memory that holds it. -/
theorem map_data_eq (l : Bytes) :
    l.map Bus.data = bytes (fun j ↦ l.getD j 0) l.length := by
  refine List.ext_getElem ?_ fun i hi _ ↦ ?_
  · rw [bytes, List.length_map, List.length_map, List.length_range]
  · rw [List.length_map] at hi
    simp only [bytes, List.getElem_map, List.getElem_range, List.getD_eq_getElem _ _ hi]

end Panel
