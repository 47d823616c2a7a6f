import JuliusOS.Foundations.Python
import Mathlib.Algebra.Order.Ring.Rat
import Mathlib.Data.Rat.Lemmas
import Mathlib.Tactic.Linarith

/-!
# Reading as much as was announced

The loop `while received < size: recv(min(limit, size - received))`, which ends early where `recv`
returns nothing, for a `size` that the peer has announced. How it ends is known from the size, from
how much follows and from what comes after that (`Size.ends`), however the stream is cut, except
that it may raise instead where the size is a `float`.

* `Size.ends_of_readBody`: a loop that returns ends so;
* `Size.serves_of_ends`: and it does end so for some cut;
* `Size.returned_of_full`, `Size.exists_short`: it reads what was announced for every cut exactly if
  the size is an `int` that is not negative, or 0.0, and as much follows.
-/

namespace Python

open Socket

namespace Value

variable {α : Type*} {limit : ℕ}

namespace Size

/-- How the loop returns, if it can: whether it has read as much as was announced, and how much. -/
def ends (limit len : ℕ) (ending : Ending) : Size → Option (Bool × ℕ)
  | int z =>
    if z < 0 then some (false, 0)
    else if z ≤ len then some (true, z.toNat)
    else if ending = .closed then some (false, len) else none
  | float (.finite q) =>
    if q < 0 then some (false, 0)
    else if q = 0 then some (true, 0)
    else if (len + limit : ℕ) ≤ q then if ending = .closed then some (false, len) else none
    -- the last chunk has to arrive as a whole
    else if limit ≤ q ∧ q ≤ len ∧ q.den = 1 then some (true, q.num.toNat) else none
  | float .inf => if ending = .closed then some (false, len) else none
  | float .negInf | float .nan => some (false, 0)
  | other => none

/-- The number is not negative, and as much follows; the only `float` is 0.0. -/
def Full (len : ℕ) : Size → Prop
  | int z => 0 ≤ z ∧ z ≤ len
  | float (.finite q) => q = 0
  | _ => False

/-- A size for which the loop cannot return with less. -/
def Honest (limit len : ℕ) (ending : Ending) : Size → Prop
  | int z => 0 ≤ z ∧ (z ≤ len ∨ ending = .broken)
  | float (.finite q) => 0 ≤ q ∧ (q < (len + limit : ℕ) ∨ ending = .broken)
  | float .inf => ending = .broken
  | float .negInf | float .nan => False
  | other => True

/-- A size for which the loop may raise. -/
def Raises (limit len : ℕ) (ending : Ending) : Size → Prop
  | int z => len < z ∧ ending = .broken
  | float (.finite q) => 0 < q ∧ (q < (len + limit : ℕ) ∨ ending = .broken)
  | float .inf => ending = .broken
  | float .negInf | float .nan => False
  | other => True

variable {x : Size} {n r : ℕ}

/-- Where the loop may raise, it cannot return with less than was announced, and need not return
with as much. -/
theorem Raises.not_full {len : ℕ} {ending : Ending} (h : x.Raises limit len ending) :
    ¬ x.Full len ∧ ∀ n, x.ends limit len ending ≠ some (false, n) := by
  rcases x with z | (q | - | - | -) | -
  · obtain ⟨hlt, rfl⟩ := h
    refine ⟨fun hfull ↦ absurd hfull.2 (not_le.2 hlt), fun n ↦ ?_⟩
    rw [ends, if_neg (by omega), if_neg (by omega), if_neg nofun]
    exact nofun
  · obtain ⟨hpos, hfew⟩ := h
    refine ⟨fun hfull ↦ ne_of_gt hpos hfull, fun n ↦ ?_⟩
    rw [ends, if_neg (not_lt_of_gt hpos), if_neg (ne_of_gt hpos)]
    split
    next hmore =>
      rw [hfew.resolve_left (not_lt.2 hmore), if_neg nofun]
      exact nofun
    next => split <;> exact nofun
  · obtain rfl : ending = .broken := h
    exact ⟨id, fun n ↦ by rw [ends, if_neg nofun]; exact nofun⟩
  · exact h.elim
  · exact h.elim
  · exact ⟨id, nofun⟩

theorem honest_iff (hlimit : 0 < limit) {len : ℕ} {ending : Ending} :
    x.Honest limit len ending ↔
      ∀ full n, x.ends limit len ending = some (full, n) → full = true := by
  have hbroken (h : ¬ ending = .closed) : ending = .broken := by
    cases ending with
    | closed => exact absurd rfl h
    | broken => rfl
  have hshort {n : ℕ} :
      ¬ ∀ full m, some (false, n) = some (full, m) → full = true := fun h ↦ nomatch h false n rfl
  rcases x with z | (q | - | - | -) | -
  · rw [ends]
    split
    next hneg => exact iff_of_false (fun h ↦ absurd h.1 (not_le.2 hneg)) hshort
    next hneg =>
      split
      next hle => exact iff_of_true ⟨not_lt.1 hneg, Or.inl hle⟩ (by rintro full n ⟨⟩; rfl)
      next hle =>
        split
        next hclosed =>
          exact iff_of_false (fun h ↦ h.2.elim hle (by rw [hclosed]; nofun)) hshort
        next hopen => exact iff_of_true ⟨not_lt.1 hneg, Or.inr (hbroken hopen)⟩ nofun
  · rw [ends]
    split
    next hneg => exact iff_of_false (fun h ↦ absurd h.1 (not_le.2 hneg)) hshort
    next hneg =>
      have hfew (h : q < (len + limit : ℕ)) : Honest limit len ending (float (.finite q)) :=
        ⟨not_lt.1 hneg, Or.inl h⟩
      split
      next hzero =>
        refine iff_of_true (hfew ?_) (by rintro full n ⟨⟩; rfl)
        rw [hzero]
        exact Nat.cast_pos.2 (by omega)
      next =>
        split
        next hmore =>
          split
          next hclosed =>
            exact iff_of_false (fun h ↦ h.2.elim (not_lt.2 hmore) (by rw [hclosed]; nofun)) hshort
          next hopen => exact iff_of_true ⟨not_lt.1 hneg, Or.inr (hbroken hopen)⟩ nofun
        next hmore =>
          refine iff_of_true (hfew (not_le.1 hmore)) ?_
          split
          next => rintro full n ⟨⟩; rfl
          next => exact nofun
  · rw [ends]
    split
    next hclosed => exact iff_of_false (by rw [Honest, hclosed]; nofun) hshort
    next hopen => exact iff_of_true (hbroken hopen) nofun
  · exact iff_of_false id hshort
  · exact iff_of_false id hshort
  · exact iff_of_true trivial nofun

theorem not_is_of_above (h : x.Above r) : ¬ x.Is r := by
  rcases x with z | (q | - | - | -) | -
  · exact fun heq : z = r ↦ by
      have h : (r : ℤ) < z := h
      omega
  · exact fun heq : q = r ↦ absurd heq (ne_of_gt h)
  · exact id
  · exact id
  · exact id
  · exact id

/-- While the loop does not stop, the number is above what it has. -/
theorem above_of_wants (h : x.wants limit r ≠ .stop) : x.Above r := by
  by_contra hno
  exact h (if_neg hno)

theorem wants_of_not_above (h : ¬ x.Above r) : x.wants limit r = .stop := if_neg h

/-- What is asked for. -/
theorem request_of_wants (h : x.wants limit r = .ask n) : x.request? limit r = some n := by
  have habove : x.Above r := above_of_wants (by rw [h]; nofun)
  rw [wants, if_pos habove] at h
  cases hreq : x.request? limit r with
  | none =>
    rw [hreq] at h
    cases h
  | some k =>
    rw [hreq] at h
    cases h
    rfl

/-- It is something, and no more than the limit. -/
theorem pos_of_wants (hlimit : 0 < limit) (h : x.wants limit r = .ask n) : 0 < n := by
  have habove := above_of_wants (by rw [h]; nofun : x.wants limit r ≠ .stop)
  have hreq := request_of_wants h
  rcases x with z | (q | - | - | -) | -
  · obtain rfl := Option.some.inj hreq
    have habove : (r : ℤ) < z := habove
    omega
  · obtain ⟨-, hreq⟩ := Option.ite_none_left_eq_some.1 hreq
    obtain rfl := Option.some.inj hreq
    exact hlimit
  · obtain rfl := Option.some.inj hreq
    exact hlimit
  · cases hreq
  · cases hreq
  · cases hreq

variable {c c' : Conn α} {o : Outcome} {got : List α} {calls : ℕ}

/-- A loop that stops at once. -/
theorem readBody_at_once (h : ¬ x.Above 0) (calls : ℕ) (c : Conn α) :
    readBody (x.wants limit) calls [] c = (.returned, [], c) :=
  readBody_stop (if_neg h) calls c

/-- What the requests keep of the number of items. -/
def Within (limit : ℕ) (x : Size) (r : ℕ) : Prop :=
  match x with
  | int z => r ≤ z
  | float (.finite q) => r ≤ q ∧ (0 < r → limit ≤ q)
  | _ => True

theorem within_add {k : ℕ} (h : Within limit x r) (hwant : x.wants limit r = .ask n) (hk : k ≤ n) :
    Within limit x (r + k) := by
  have habove : x.Above r := above_of_wants (by rw [hwant]; nofun)
  have hreq := request_of_wants hwant
  rcases x with z | (q | - | - | -) | -
  · obtain rfl := Option.some.inj hreq
    have habove : (r : ℤ) < z := habove
    show ((r + k : ℕ) : ℤ) ≤ z
    omega
  · obtain ⟨hlt, hreq⟩ := Option.ite_none_left_eq_some.1 hreq
    obtain rfl := Option.some.inj hreq
    have hk : (k : ℚ) ≤ limit := Nat.cast_le.2 hk
    have hr : (0 : ℚ) ≤ r := Nat.cast_nonneg r
    refine ⟨?_, fun _ ↦ by linarith⟩
    rw [Nat.cast_add]
    linarith
  · trivial
  · trivial
  · trivial
  · trivial

theorem ends_of_not_above (h : ¬ x.Above 0) (len : ℕ) (ending : Ending) :
    ∃ full, x.ends limit len ending = some (full, 0) ∧ (full = true ↔ x.Is 0) := by
  rcases x with z | (q | - | - | -) | -
  · have h : ¬ (0 : ℤ) < z := h
    rcases lt_or_eq_of_le (not_lt.1 h) with hneg | rfl
    · exact ⟨false, if_pos hneg, iff_of_false nofun fun heq : z = (0 : ℕ) ↦ by omega⟩
    · refine ⟨true, ?_, iff_of_true rfl rfl⟩
      rw [ends, if_neg (lt_irrefl _), if_pos (by omega)]
      rfl
  · have h : ¬ ((0 : ℕ) : ℚ) < q := h
    rw [Nat.cast_zero] at h
    rcases lt_or_eq_of_le (not_lt.1 h) with hneg | rfl
    · exact ⟨false, if_pos hneg, iff_of_false nofun fun heq : q = (0 : ℕ) ↦ by
        rw [heq, Nat.cast_zero] at hneg
        exact lt_irrefl _ hneg⟩
    · refine ⟨true, ?_, iff_of_true rfl Nat.cast_zero.symm⟩
      rw [ends, if_neg (lt_irrefl _), if_pos rfl]
  · exact absurd trivial h
  · exact ⟨false, rfl, iff_of_false nofun id⟩
  · exact ⟨false, rfl, iff_of_false nofun id⟩
  · exact absurd trivial h

theorem within_zero (h : x.Above 0) : Within limit x 0 := by
  rcases x with z | (q | - | - | -) | -
  · exact le_of_lt h
  · exact ⟨le_of_lt h, fun h ↦ absurd h (lt_irrefl 0)⟩
  · trivial
  · trivial
  · trivial
  · trivial

/-- The loop has read as much as was announced. -/
theorem ends_of_stop {len : ℕ} (h : x.Above 0) (hwithin : Within limit x r) (hstop : ¬ x.Above r)
    (hlimit : 0 < limit) (hr : r ≤ len) (ending : Ending) :
    x.ends limit len ending = some (true, r) ∧ x.Is r := by
  rcases x with z | (q | - | - | -) | -
  · have hwithin : (r : ℤ) ≤ z := hwithin
    have hstop : ¬ (r : ℤ) < z := hstop
    obtain rfl : z = r := by omega
    refine ⟨?_, rfl⟩
    rw [ends, if_neg (by omega), if_pos (by omega), Int.toNat_natCast]
  · obtain rfl : q = r := le_antisymm (not_lt.1 hstop) hwithin.1
    have hpos : 0 < r := Nat.cast_pos.1 h
    have hlarge : (limit : ℚ) ≤ r := hwithin.2 hpos
    refine ⟨?_, rfl⟩
    have hneg : ¬ (r : ℚ) < 0 := not_lt.2 (Nat.cast_nonneg r)
    have hzero : (r : ℚ) ≠ 0 := Nat.cast_ne_zero.2 hpos.ne'
    have hmore : ¬ ((len + limit : ℕ) : ℚ) ≤ r := fun hle ↦ by
      have := Nat.cast_le.1 hle
      omega
    rw [ends, if_neg hneg, if_neg hzero, if_neg hmore,
      if_pos ⟨hlarge, Nat.cast_le.2 hr, Rat.den_natCast r⟩, Rat.num_natCast, Int.toNat_natCast]
  · exact absurd trivial hstop
  · exact h.elim
  · exact h.elim
  · exact absurd trivial hstop

/-- The peer has closed before. -/
theorem ends_of_closed (h : x.Above r) (hwant : x.request? limit r = some n)
    (hlimit : 0 < limit) : x.ends limit r .closed = some (false, r) := by
  rcases x with z | (q | - | - | -) | -
  · have h : (r : ℤ) < z := h
    rw [ends, if_neg (by omega), if_neg (by omega), if_pos rfl]
  · obtain ⟨hlt, -⟩ := Option.ite_none_left_eq_some.1 hwant
    have hr : (0 : ℚ) ≤ r := Nat.cast_nonneg r
    have hlimit : (0 : ℚ) < limit := Nat.cast_pos.2 hlimit
    have hmore : ((r + limit : ℕ) : ℚ) ≤ q := by
      rw [Nat.cast_add]
      linarith
    rw [ends, if_neg (by linarith), if_neg (by linarith), if_pos hmore, if_pos rfl]
  · rfl
  · exact h.elim
  · exact h.elim
  · cases hwant

/-- **How the loop returns.** -/
theorem ends_of_readBody (hlimit : 0 < limit)
    (h : readBody (x.wants limit) calls [] c = (.returned, got, c')) :
    ∃ full, x.ends limit c.stream.length c.ending = some (full, got.length) ∧
      (full = true ↔ x.Is got.length) ∧ got ++ c'.stream = c.stream ∧ c'.ending = c.ending := by
  by_cases h0 : x.Above 0
  · obtain ⟨hended, hwithin, hending, _, rfl, hstream⟩ :=
      readBody_spec (P := Within limit x) (fun _ _ ↦ pos_of_wants hlimit)
        (fun _ _ _ hr hwant hk ↦ within_add hr hwant hk) (within_zero h0) h
    cases hended with
    | stop hwant =>
      have hstop : ¬ x.Above got.length := fun habove ↦ by
        rw [wants, if_pos habove] at hwant
        split at hwant <;> cases hwant
      have hle : got.length ≤ c.stream.length := by
        rw [hstream, List.length_append]
        exact Nat.le_add_right ..
      obtain ⟨hends, his⟩ := ends_of_stop h0 hwithin hstop hlimit hle c.ending
      exact ⟨true, hends, iff_of_true rfl his, hstream.symm, hending⟩
    | closed hwant hnil hclosed =>
      have habove : x.Above got.length := above_of_wants (by rw [hwant]; nofun)
      refine ⟨false, ?_, iff_of_false nofun (not_is_of_above habove), hstream.symm, hending⟩
      rw [hstream, hnil, List.append_nil, ← hending, hclosed]
      exact ends_of_closed habove (request_of_wants hwant) hlimit
  · rw [readBody_at_once h0] at h
    cases h
    obtain ⟨full, hends, hfull⟩ := ends_of_not_above h0 c.stream.length c.ending
    exact ⟨full, hends, hfull, rfl, rfl⟩

/-- With enough calls the loop does not wait. -/
theorem exists_outcome (hlimit : 0 < limit) (c : Conn α) :
    ∃ o got c', readBody (x.wants limit) (c.stream.length + 1) [] c = (o, got, c') ∧
      o ≠ .waiting := by
  have hask : ∀ r n, x.wants limit r = .ask n → 0 < n := fun _ _ ↦ pos_of_wants hlimit
  exact ⟨_, _, _, rfl, readBody_ne_waiting hask (Nat.lt_succ_self _)⟩

/-- A loop that raises has not read as much as was announced. -/
theorem not_is_of_raised (hlimit : 0 < limit)
    (h : readBody (x.wants limit) calls [] c = (.raised, got, c')) : ¬ x.Is got.length := by
  obtain ⟨hended, -⟩ := readBody_spec (P := fun _ ↦ True) (fun _ _ ↦ pos_of_wants hlimit)
    (fun _ _ _ _ _ _ ↦ trivial) trivial h
  cases hended with
  | fail hwant | broken hwant => exact not_is_of_above (above_of_wants (by rw [hwant]; nofun))

/-- A loop that raises may raise. -/
theorem raises_of_readBody (hlimit : 0 < limit)
    (h : readBody (x.wants limit) calls [] c = (.raised, got, c')) :
    x.Raises limit c.stream.length c.ending := by
  obtain ⟨hended, -, hending, _, rfl, hstream⟩ := readBody_spec (P := fun _ ↦ True)
    (fun _ _ ↦ pos_of_wants hlimit) (fun _ _ _ _ _ _ ↦ trivial) trivial h
  have hwants : x.wants limit got.length ≠ .stop := by
    cases hended with
    | fail hwant | broken hwant =>
      rw [hwant]
      exact nofun
  have habove : x.Above got.length := above_of_wants hwants
  have hlength : got.length ≤ c.stream.length := by
    rw [hstream, List.length_append]
    exact Nat.le_add_right ..
  cases hended with
  | fail hwant =>
    rw [wants, if_pos habove] at hwant
    rcases x with z | (q | - | - | -) | -
    · cases hwant
    · have habove : (got.length : ℚ) < q := habove
      have hpos : (0 : ℚ) ≤ got.length := Nat.cast_nonneg _
      have hfew : q - got.length < limit := by
        by_contra hno
        rw [request?, if_neg hno] at hwant
        cases hwant
      have hlength : (got.length : ℚ) ≤ c.stream.length := Nat.cast_le.2 hlength
      refine ⟨lt_of_le_of_lt hpos habove, Or.inl ?_⟩
      rw [Nat.cast_add]
      linarith
    · cases hwant
    · exact habove.elim
    · exact habove.elim
    · trivial
  | broken hwant hnil hbroken =>
    rw [hnil, List.append_nil] at hstream
    rw [hending] at hbroken
    rcases x with z | (q | - | - | -) | -
    · exact ⟨by rw [hstream]; exact habove, hbroken⟩
    · exact ⟨lt_of_le_of_lt (Nat.cast_nonneg got.length) habove, Or.inr hbroken⟩
    · exact hbroken
    · exact habove.elim
    · exact habove.elim
    · trivial

theorem ends_of_full {len : ℕ} (hfull : x.Full len) (ending : Ending) :
    ∃ n, x.ends limit len ending = some (true, n) := by
  rcases x with z | (q | - | - | -) | -
  · exact ⟨_, by rw [ends, if_neg (not_lt.2 hfull.1), if_pos hfull.2]⟩
  · obtain rfl : q = 0 := hfull
    exact ⟨0, by rw [ends, if_neg (lt_irrefl _), if_pos rfl]⟩
  · exact hfull.elim
  · exact hfull.elim
  · exact hfull.elim
  · exact hfull.elim

/-- **A full body is read for every cut.** -/
theorem returned_of_full (hlimit : 0 < limit) (hfull : x.Full c.stream.length)
    (h : readBody (x.wants limit) calls [] c = (o, got, c')) (ho : o ≠ .waiting) :
    o = .returned ∧ x.Is got.length := by
  have hreturned : o = .returned := by
    cases o with
    | returned => rfl
    | waiting => exact absurd rfl ho
    | raised =>
      rcases x with z | (q | - | - | -) | -
      · obtain ⟨hended, -, -, _, rfl, hstream⟩ := readBody_spec (P := fun _ ↦ True)
          (fun _ _ ↦ pos_of_wants hlimit) (fun _ _ _ _ _ _ ↦ trivial) trivial h
        cases hended with
        | fail hwant =>
          have habove : Above got.length (int z) := above_of_wants (by rw [hwant]; nofun)
          rw [wants, if_pos habove] at hwant
          cases hwant
        | broken hwant hnil =>
          -- everything was read, and that is enough
          have habove : (got.length : ℤ) < z :=
            above_of_wants (x := int z) (r := got.length) (by rw [hwant]; nofun)
          have hle : z ≤ c.stream.length := hfull.2
          rw [hstream, hnil, List.append_nil] at hle
          exact absurd hle (not_le.2 habove)
      · obtain rfl : q = 0 := hfull
        have hno : ¬ Above 0 (float (.finite 0)) := not_lt.2 (le_of_eq Nat.cast_zero.symm)
        rw [readBody_at_once hno] at h
        cases h
      · exact hfull.elim
      · exact hfull.elim
      · exact hfull.elim
      · exact hfull.elim
  subst hreturned
  obtain ⟨full, hends', his, -⟩ := ends_of_readBody hlimit h
  obtain ⟨n, hends⟩ : ∃ n, x.ends limit c.stream.length c.ending = some (true, n) :=
    ends_of_full hfull c.ending
  rw [hends] at hends'
  cases hends'
  exact ⟨rfl, his.1 rfl⟩

/-- Where more is wanted, as long as a `float` is far enough away, something is asked for. -/
theorem asks_of_above (hlimit : 0 < limit) (hne : x ≠ other) (habove : x.Above r)
    (hfar : ∀ q, x = float (.finite q) → (r + limit : ℕ) ≤ q) :
    ∃ n, x.wants limit r = .ask n ∧ 0 < n := by
  have hask : ∃ n, x.wants limit r = .ask n := by
    rw [wants, if_pos habove]
    rcases x with z | (q | - | - | -) | -
    · exact ⟨_, rfl⟩
    · have hle := hfar q rfl
      rw [Nat.cast_add] at hle
      rw [request?, if_neg (by linarith)]
      exact ⟨_, rfl⟩
    · exact ⟨_, rfl⟩
    · exact habove.elim
    · exact habove.elim
    · exact absurd rfl hne
  obtain ⟨n, hn⟩ := hask
  exact ⟨n, hn, pos_of_wants hlimit hn⟩

/-- One item after the other is read, up to where the next one need not be asked for. -/
theorem readBody_items {y : List α} {n : ℕ} (hlimit : 0 < limit) (hne : x ≠ other)
    (hn : n ≤ y.length) (habove : ∀ k < n, x.Above k)
    (hfar : ∀ q, x = float (.finite q) → 0 < n → ((n - 1 + limit : ℕ) : ℚ) ≤ q)
    (segments : List (List α)) (ending : Ending) (calls : ℕ) :
    readBody (x.wants limit) (n + calls) [] ⟨(y.take n).map ([·]) ++ segments, ending⟩ =
      readBody (x.wants limit) calls (y.take n) ⟨segments, ending⟩ := by
  have hlength : (y.take n).length = n := List.length_take_of_le hn
  have hwant : ∀ k < (y.take n).length, ∃ m, x.wants limit (([] : List α).length + k) = .ask m ∧
      0 < m := by
    intro k hk
    rw [hlength] at hk
    rw [List.length_nil, Nat.zero_add]
    refine asks_of_above hlimit hne (habove k hk) fun q hq ↦ le_trans ?_ (hfar q hq (by omega))
    exact Nat.cast_le.2 (by omega)
  have hread := readBody_single hwant segments ending calls
  rw [hlength] at hread
  exact hread

/-- The cut that `pre` begins has the loop return with `n` items. -/
def Serves (x : Size) (limit : ℕ) (y : List α) (ending : Ending) (n : ℕ) : Prop :=
  ∃ pre calls, pre.flatten = y.take n ∧ (∀ s ∈ pre, s ≠ []) ∧
    ∀ rest, rest.flatten = y.drop n → (∀ s ∈ rest, s ≠ []) → ∀ calls',
      readBody (x.wants limit) (calls + calls') [] ⟨pre ++ rest, ending⟩ =
        (.returned, y.take n, ⟨rest, ending⟩)

theorem flatten_items (y : List α) : (y.map ([·])).flatten = y := by
  induction y with
  | nil => rfl
  | cons a y ih => rw [List.map_cons, List.flatten_cons, ih, List.singleton_append]

theorem items_ne_nil (y : List α) : ∀ s ∈ y.map ([·]), s ≠ [] := by
  intro s hs
  obtain ⟨a, -, rfl⟩ := List.mem_map.1 hs
  exact List.cons_ne_nil a []

/-- A line item by item, and what follows it in some cut. -/
theorem flatten_line (line : List α) (nl : α) {segments : List (List α)} {body : List α}
    (h : segments.flatten = body) :
    ((line ++ [nl]).map ([·]) ++ segments).flatten = line ++ nl :: body := by
  rw [List.flatten_append, flatten_items, h, List.append_assoc, List.singleton_append]

theorem items_append_ne_nil (y : List α) {segments : List (List α)}
    (hne : ∀ s ∈ segments, s ≠ []) : ∀ s ∈ y.map ([·]) ++ segments, s ≠ [] :=
  List.forall_mem_append.2 ⟨items_ne_nil y, hne⟩

section Serves

variable {y : List α} {ending : Ending}

/-- The loop has what was announced. -/
theorem serves_of_stop (hlimit : 0 < limit) (hn : n ≤ y.length) (habove : ∀ k < n, x.Above k)
    (hfar : ∀ q, x = float (.finite q) → 0 < n → ((n - 1 + limit : ℕ) : ℚ) ≤ q)
    (hstop : ¬ x.Above n) : Serves x limit y ending n := by
  have hne : x ≠ other := by
    rintro rfl
    exact hstop trivial
  refine ⟨(y.take n).map ([·]), n, flatten_items _, items_ne_nil _, fun rest _ _ calls' ↦ ?_⟩
  have hwant : x.wants limit (y.take n).length = .stop := by
    rw [List.length_take_of_le hn]
    exact wants_of_not_above hstop
  rw [readBody_items hlimit hne hn habove hfar, readBody_stop hwant]

/-- The peer has closed before. -/
theorem serves_of_closed (hlimit : 0 < limit) (hne : x ≠ other)
    (habove : ∀ k ≤ y.length, x.Above k)
    (hfar : ∀ q, x = float (.finite q) → ((y.length + limit : ℕ) : ℚ) ≤ q) :
    Serves x limit y .closed y.length := by
  refine ⟨(y.take y.length).map ([·]), y.length + 1, flatten_items _, items_ne_nil _,
    fun rest hrest hnil calls' ↦ ?_⟩
  rw [List.drop_length] at hrest
  have hrest : rest = [] := by
    rw [List.eq_nil_iff_forall_not_mem]
    exact fun s hs ↦ hnil s hs (List.flatten_eq_nil_iff.1 hrest s hs)
  obtain ⟨m, hm, -⟩ := asks_of_above hlimit hne (habove _ (Nat.le_refl _)) hfar
  have hwant : x.wants limit (y.take y.length).length = .ask m := by
    rw [List.take_length]
    exact hm
  rw [Nat.add_assoc, Nat.add_comm 1, readBody_items hlimit hne (Nat.le_refl _)
      (fun k hk ↦ habove k (Nat.le_of_lt hk)) fun q hq hpos ↦ le_trans ?_ (hfar q hq),
    hrest, readBody_closed hwant]
  exact Nat.cast_le.2 (by omega)

/-- The last chunk arrives as a whole. -/
theorem serves_of_float (hlimit : 0 < limit) (hle : limit ≤ n) (hn : n ≤ y.length) :
    Serves (float (.finite n)) limit y ending n := by
  obtain ⟨m, rfl⟩ := Nat.exists_eq_add_of_le' hle
  have hnum : float (.finite (m + limit : ℕ)) ≠ other := nofun
  have habove : ∀ k < m + limit, Above k (float (.finite (m + limit : ℕ))) := fun k hk ↦
    Nat.cast_lt.2 hk
  have hlast : ((y.take (m + limit)).drop m).length = limit := by
    rw [List.length_drop, List.length_take_of_le hn, Nat.add_sub_cancel_left]
  have hne : (y.take (m + limit)).drop m ≠ [] := by
    rw [← List.length_pos_iff, hlast]
    exact hlimit
  have htake : y.take m ++ (y.take (m + limit)).drop m = y.take (m + limit) := by
    have happend := List.take_append_drop m (y.take (m + limit))
    rwa [List.take_take, Nat.min_eq_left (Nat.le_add_right m limit)] at happend
  have hwant : wants limit (float (.finite (m + limit : ℕ))) (y.take m).length = .ask limit := by
    rw [List.length_take_of_le (by omega), wants, if_pos (habove m (by omega)), request?,
      if_neg (by rw [Nat.cast_add]; linarith)]
  have hstop :
      wants limit (float (.finite (m + limit : ℕ))) (y.take (m + limit)).length = .stop := by
    rw [List.length_take_of_le hn]
    exact wants_of_not_above (lt_irrefl ((m + limit : ℕ) : ℚ))
  refine ⟨(y.take m).map ([·]) ++ [(y.take (m + limit)).drop m], m + 1, ?_, ?_,
    fun rest _ _ calls' ↦ ?_⟩
  · rw [List.flatten_append, flatten_items, List.flatten_singleton, htake]
  · intro s hs
    rcases List.mem_append.1 hs with hs | hs
    · exact items_ne_nil _ s hs
    · exact List.mem_singleton.1 hs ▸ hne
  · rw [List.append_assoc, Nat.add_assoc, readBody_items hlimit hnum (by omega)
        (fun k hk ↦ habove k (by omega)), Nat.add_comm 1, List.singleton_append,
      readBody_segment hne hwant (le_of_eq hlast), htake,
      readBody_stop hstop]
    rintro q ⟨⟩ hpos
    exact Nat.cast_le.2 (by omega)

theorem eq_natCast_of_den_eq_one {q : ℚ} (hpos : 0 < q) (hden : q.den = 1) :
    q = (q.num.toNat : ℕ) := by
  have hnum : (q.num : ℚ) = q := (Rat.den_eq_one_iff q).1 hden
  rw [← Int.cast_natCast, Int.toNat_of_nonneg (le_of_lt (Rat.num_pos.2 hpos)), hnum]

/-- **For some cut the loop does return so**, and leaves what comes after it. -/
theorem serves_of_ends {full : Bool} (hlimit : 0 < limit)
    (hends : x.ends limit y.length ending = some (full, n)) : Serves x limit y ending n := by
  by_cases h0 : x.Above 0
  · rcases x with z | (q | - | - | -) | -
    · have h0 : (0 : ℤ) < z := h0
      rw [ends, if_neg (by omega)] at hends
      by_cases hle : z ≤ y.length
      · rw [if_pos hle] at hends
        obtain ⟨-, rfl⟩ := Prod.mk.inj (Option.some.inj hends)
        refine serves_of_stop hlimit (by omega) (fun k hk ↦ ?_) nofun ?_
        · exact (by omega : (k : ℤ) < z)
        · exact (by omega : ¬ (z.toNat : ℤ) < z)
      · rw [if_neg hle] at hends
        obtain ⟨rfl, hends⟩ := Option.ite_none_right_eq_some.1 hends
        obtain ⟨-, rfl⟩ := Prod.mk.inj (Option.some.inj hends)
        refine serves_of_closed hlimit nofun (fun k hk ↦ ?_) nofun
        exact (by omega : (k : ℤ) < z)
    · have h0 : ((0 : ℕ) : ℚ) < q := h0
      rw [Nat.cast_zero] at h0
      rw [ends, if_neg (not_lt_of_gt h0), if_neg (ne_of_gt h0)] at hends
      by_cases hmore : ((y.length + limit : ℕ) : ℚ) ≤ q
      · rw [if_pos hmore] at hends
        obtain ⟨rfl, hends⟩ := Option.ite_none_right_eq_some.1 hends
        obtain ⟨-, rfl⟩ := Prod.mk.inj (Option.some.inj hends)
        refine serves_of_closed hlimit nofun (fun k hk ↦ ?_) ?_
        · refine lt_of_lt_of_le (Nat.cast_lt.2 ?_ : (k : ℚ) < (y.length + limit : ℕ)) hmore
          omega
        · rintro q ⟨⟩
          exact hmore
      · rw [if_neg hmore] at hends
        obtain ⟨⟨hle, hlen, hden⟩, hends⟩ := Option.ite_none_right_eq_some.1 hends
        obtain ⟨-, rfl⟩ := Prod.mk.inj (Option.some.inj hends)
        rw [eq_natCast_of_den_eq_one h0 hden] at hle hlen ⊢
        rw [Rat.num_natCast, Int.toNat_natCast]
        exact serves_of_float hlimit (Nat.cast_le.1 hle) (Nat.cast_le.1 hlen)
    · obtain ⟨rfl, hends⟩ := Option.ite_none_right_eq_some.1 hends
      obtain ⟨-, rfl⟩ := Prod.mk.inj (Option.some.inj hends)
      exact serves_of_closed hlimit nofun (fun _ _ ↦ trivial) nofun
    · exact h0.elim
    · exact h0.elim
    · cases hends
  · -- nothing is asked for
    obtain ⟨full', hends', -⟩ : ∃ full, x.ends limit y.length ending = some (full, 0) ∧ _ :=
      ends_of_not_above h0 y.length ending
    rw [hends] at hends'
    obtain ⟨-, rfl⟩ := Prod.mk.inj (Option.some.inj hends')
    exact serves_of_stop hlimit (Nat.zero_le _) nofun nofun h0

/-- How many items it has then, and whether these are as many as was announced. -/
theorem is_of_ends {full : Bool} (hlimit : 0 < limit)
    (hends : x.ends limit y.length ending = some (full, n)) :
    (y.take n).length = n ∧ (full = true ↔ x.Is (y.take n).length) := by
  obtain ⟨pre, calls, hpre, -, hserves⟩ := serves_of_ends hlimit hends
  have hread := hserves _ (flatten_items _) (items_ne_nil _) 0
  have hflatten : (pre ++ (y.drop n).map ([·])).flatten = y := by
    rw [List.flatten_append, hpre, flatten_items, List.take_append_drop]
  obtain ⟨full', hends', hfull, -⟩ := ends_of_readBody hlimit hread
  rw [Conn.stream, hflatten, hends] at hends'
  obtain ⟨rfl, hn⟩ := Prod.mk.inj (Option.some.inj hends')
  exact ⟨hn.symm, hfull⟩

/-- Where the loop may return with as much as was announced, but need not, the number is a
`float`. -/
theorem float_of_not_full {len : ℕ} (hends : x.ends limit len ending = some (true, n))
    (hfull : ¬ x.Full len) : limit ≤ n ∧ n ≤ len ∧ x = float (.finite n) := by
  rcases x with z | (q | - | - | -) | -
  · by_cases hneg : z < 0
    · rw [ends, if_pos hneg] at hends
      cases hends
    · by_cases hle : z ≤ len
      · exact absurd ⟨not_lt.1 hneg, hle⟩ hfull
      · rw [ends, if_neg hneg, if_neg hle] at hends
        obtain ⟨-, hends⟩ := Option.ite_none_right_eq_some.1 hends
        cases hends
  · by_cases hneg : q < 0
    · rw [ends, if_pos hneg] at hends
      cases hends
    · have hzero : q ≠ 0 := hfull
      rw [ends, if_neg hneg, if_neg hzero] at hends
      split at hends
      next =>
        obtain ⟨-, hends⟩ := Option.ite_none_right_eq_some.1 hends
        cases hends
      next =>
        obtain ⟨⟨hle, hlen, hden⟩, hends⟩ := Option.ite_none_right_eq_some.1 hends
        obtain ⟨-, rfl⟩ := Prod.mk.inj (Option.some.inj hends)
        have hpos : 0 < q := lt_of_le_of_ne (not_lt.1 hneg) (Ne.symm hzero)
        have hq := eq_natCast_of_den_eq_one hpos hden
        rw [hq] at hle hlen
        exact ⟨Nat.cast_le.1 hle, Nat.cast_le.1 hlen, congrArg (fun q ↦ float (.finite q)) hq⟩
  · obtain ⟨-, hends⟩ := Option.ite_none_right_eq_some.1 hends
    cases hends
  · cases hends
  · cases hends
  · cases hends

/-- **Unless a full body follows, some cut leaves the loop with less than was announced.** -/
theorem exists_short (hlimit : 1 < limit) (hfull : ¬ x.Full y.length) :
    ∃ segments calls o got, ∃ c' : Conn α, segments.flatten = y ∧ (∀ s ∈ segments, s ≠ []) ∧
      readBody (x.wants limit) calls [] ⟨segments, ending⟩ = (o, got, c') ∧ o ≠ .waiting ∧
      ¬ x.Is got.length := by
  have hlimit' : 0 < limit := Nat.lt_of_succ_lt hlimit
  cases hends : x.ends limit y.length ending with
  | none =>
    -- it cannot return, so it raises
    obtain ⟨o, got, c', hread, ho⟩ := exists_outcome (x := x) hlimit' ⟨y.map ([·]), ending⟩
    refine ⟨_, _, o, got, c', flatten_items y, items_ne_nil y, hread, ho, ?_⟩
    cases o with
    | returned =>
      obtain ⟨full, hends', -⟩ := ends_of_readBody hlimit' hread
      rw [Conn.stream, flatten_items, hends] at hends'
      cases hends'
    | raised => exact not_is_of_raised hlimit' hread
    | waiting => exact absurd rfl ho
  | some r =>
    obtain ⟨full, n⟩ := r
    cases full with
    | false =>
      obtain ⟨pre, calls, hpre, hne, hread⟩ := serves_of_ends hlimit' hends
      have hread := hread _ (flatten_items _) (items_ne_nil _) 0
      have hflatten : (pre ++ (y.drop n).map ([·])).flatten = y := by
        rw [List.flatten_append, hpre, flatten_items, List.take_append_drop]
      refine ⟨_, _, _, _, _, hflatten, fun s hs ↦ ?_, hread, nofun, fun his ↦ ?_⟩
      · exact (List.mem_append.1 hs).elim (hne s) (items_ne_nil _ s)
      · cases (is_of_ends hlimit' hends).2.2 his
    | true =>
      -- one item too few is left for another chunk
      obtain ⟨hle, hlen, rfl⟩ := float_of_not_full hends hfull
      have hm : n - limit + 1 ≤ y.length := by omega
      have hread := readBody_items (x := float (.finite n)) hlimit' nofun hm
        (fun k hk ↦ Nat.cast_lt.2 (by omega))
        (by rintro q ⟨⟩ -; exact Nat.cast_le.2 (by omega))
        ((y.drop (n - limit + 1)).map ([·])) ending 0
      have hfail : wants limit (float (.finite n)) (y.take (n - limit + 1)).length = .fail := by
        have habove : Above (n - limit + 1) (float (.finite n)) := Nat.cast_lt.2 (by omega)
        have hfew : (n : ℚ) - (n - limit + 1 : ℕ) < limit := by
          rw [← Nat.cast_sub (by omega)]
          exact Nat.cast_lt.2 (by omega)
        rw [List.length_take_of_le hm, wants, if_pos habove, request?, if_pos hfew]
      rw [readBody_fail hfail] at hread
      refine ⟨_, _, _, _, _, ?_, items_append_ne_nil _ (items_ne_nil _), hread, nofun,
        not_is_of_raised hlimit' hread⟩
      rw [List.flatten_append, flatten_items, flatten_items, List.take_append_drop]

/-- **Where the loop may raise, for some cut it does.** -/
theorem exists_raised (hlimit : 1 < limit) (h : x.Raises limit y.length ending) :
    ∃ segments calls got, ∃ c' : Conn α, segments.flatten = y ∧ (∀ s ∈ segments, s ≠ []) ∧
      readBody (x.wants limit) calls [] ⟨segments, ending⟩ = (.raised, got, c') := by
  obtain ⟨hfull, hends⟩ := h.not_full
  obtain ⟨segments, calls, o, got, c', hflatten, hne, hread, ho, his⟩ :
      ∃ segments calls o got, ∃ c' : Conn α, segments.flatten = y ∧ (∀ s ∈ segments, s ≠ []) ∧
        readBody (x.wants limit) calls [] ⟨segments, ending⟩ = (o, got, c') ∧ o ≠ .waiting ∧
        ¬ x.Is got.length := exists_short hlimit hfull
  refine ⟨segments, calls, got, c', hflatten, hne, ?_⟩
  cases o with
  | raised => exact hread
  | waiting => exact absurd rfl ho
  | returned =>
    obtain ⟨full, hends', hfull', -⟩ := ends_of_readBody (Nat.lt_of_succ_lt hlimit) hread
    cases full with
    | true => exact absurd (hfull'.1 rfl) his
    | false =>
      rw [Conn.stream, hflatten] at hends'
      exact absurd hends' (hends _)

end Serves

end Size

end Value

end Python
