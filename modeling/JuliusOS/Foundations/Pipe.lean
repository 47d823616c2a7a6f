import Mathlib.Data.List.Basic

/-!
# One direction of a connection

The writer has a list to send and passes it to the pipe piece by piece; the reader takes out pieces
of what is there. Both ends of a piece are up to the kernel. The writer closes the pipe when it is
done, or is **cut off** with some of the list unsent; the reader sees the same end in both cases.

`Carries whole p` is the invariant. So where a reader finds the end it has a prefix of the list, and
the whole of it exactly if the writer was not cut off (`Carries.received_of_ended`).
-/

/-- A pipe and what both ends hold. -/
structure Pipe (α : Type*) where
  /-- What the writer has not passed to the pipe. -/
  unsent : List α
  /-- What is in the pipe. -/
  unread : List α
  /-- What the reader has taken out. -/
  received : List α
  /-- There is no writer any more. -/
  closed : Bool
  /-- The writer went with some of its list unsent. -/
  cut : Bool
deriving DecidableEq

namespace Pipe

variable {α : Type*} {p : Pipe α} {whole : List α}

/-- A pipe to send a list through. -/
def ofList (whole : List α) : Pipe α := ⟨whole, [], [], false, false⟩

/-- The writer passes on `n` elements. -/
def send (n : ℕ) (p : Pipe α) : Pipe α :=
  { p with unsent := p.unsent.drop n, unread := p.unread ++ p.unsent.take n }

/-- The reader takes out `n` elements. -/
def recv (n : ℕ) (p : Pipe α) : Pipe α :=
  { p with unread := p.unread.drop n, received := p.received ++ p.unread.take n }

/-- The writer closes the pipe, or goes without closing it. -/
def close (p : Pipe α) : Pipe α :=
  { p with unsent := [], closed := true, cut := p.cut || !p.unsent.isEmpty }

/-- The reader finds the end. -/
def Ended (p : Pipe α) : Prop := p.closed = true ∧ p.unread = []

instance [DecidableEq α] (p : Pipe α) : Decidable p.Ended := inferInstanceAs (Decidable (_ ∧ _))

/-- What is in the pipe and at its ends is the list, or a prefix of it if the writer was cut off. -/
structure Carries (whole : List α) (p : Pipe α) : Prop where
  isPrefix : p.received ++ p.unread ++ p.unsent <+: whole
  all : p.cut = false → p.received ++ p.unread ++ p.unsent = whole
  sent : p.closed = true → p.unsent = []

theorem carries_ofList (whole : List α) : (ofList whole).Carries whole where
  isPrefix := List.prefix_rfl
  all _ := rfl
  sent h := absurd h Bool.false_ne_true

/-- What the two ends hold stays the same where nothing is dropped. -/
theorem Carries.of_eq {q : Pipe α} (h : p.Carries whole)
    (heq : q.received ++ q.unread ++ q.unsent = p.received ++ p.unread ++ p.unsent)
    (hcut : q.cut = p.cut) (hsent : q.closed = true → q.unsent = []) : q.Carries whole where
  isPrefix := by
    rw [heq]
    exact h.isPrefix
  all hq := by
    rw [heq]
    exact h.all (hcut ▸ hq)
  sent := hsent

theorem Carries.send (h : p.Carries whole) (n : ℕ) : (p.send n).Carries whole := by
  refine h.of_eq ?_ rfl fun hclosed ↦ ?_
  · show p.received ++ (p.unread ++ p.unsent.take n) ++ p.unsent.drop n = _
    rw [List.append_assoc, List.append_assoc, List.take_append_drop, ← List.append_assoc]
  · show p.unsent.drop n = []
    rw [h.sent hclosed, List.drop_nil]

theorem Carries.recv (h : p.Carries whole) (n : ℕ) : (p.recv n).Carries whole := by
  refine h.of_eq ?_ rfl h.sent
  show p.received ++ p.unread.take n ++ p.unread.drop n ++ p.unsent = _
  rw [List.append_assoc p.received, List.take_append_drop]

/-- If nothing is unsent, the writer is not cut off. -/
theorem Carries.close (h : p.Carries whole) : p.close.Carries whole where
  isPrefix := by
    show p.received ++ p.unread ++ [] <+: whole
    rw [List.append_nil]
    exact (List.prefix_append _ _).trans h.isPrefix
  all hcut := by
    obtain ⟨hcut, hempty⟩ := Bool.or_eq_false_iff.1 hcut
    rw [Bool.not_eq_false', List.isEmpty_iff] at hempty
    have hall := h.all hcut
    rw [hempty] at hall
    exact hall
  sent _ := rfl

/-- **What a reader has at the end** is a prefix of the list, and all of it if the writer was not
cut off. -/
theorem Carries.received_of_ended (h : p.Carries whole) (hend : p.Ended) :
    p.received <+: whole ∧ (p.cut = false → p.received = whole) := by
  obtain ⟨hclosed, hunread⟩ := hend
  have heq : p.received ++ p.unread ++ p.unsent = p.received := by
    rw [hunread, h.sent hclosed, List.append_nil, List.append_nil]
  exact ⟨heq ▸ h.isPrefix, fun hcut ↦ heq ▸ h.all hcut⟩

end Pipe
