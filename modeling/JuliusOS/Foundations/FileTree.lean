import JuliusOS.Foundations.Bytes
import Mathlib.Data.List.Basic

/-!
# File trees and the commands that copy and move them

A tree is a partial map from relative paths to nodes that is closed under parents and has
bounded depth; the root is the empty path and a tree without a root is absent. Two trees are
equal when they have the same nodes, so "the tree is exactly what it was" is equality.

`CopyR` and `Move` are what a *successful* `cp -r src dst` and `mv src dst` do to the tree at
`dst`. Both look at `dst` first: a directory there is not replaced but entered, and the
source ends up below it under its own name. That is the whole difficulty of a backup by `cp`
and a restore by `mv`, and `copyInto_ne` is its sharpest form: a copy that went *into* a
directory never makes that directory equal to the source, because the source would then
contain itself.
-/

/-- What a path names. -/
inductive Node where
  /-- A regular file with its content. -/
  | file (content : Bytes)
  /-- A directory. -/
  | dir
deriving DecidableEq

/-- A file, a directory with everything below it, or nothing. -/
@[ext]
structure FileTree where
  /-- The node at a relative path. -/
  node : List String → Option Node
  /-- Paths have bounded length. -/
  bounded : ∃ n, ∀ p, n < p.length → node p = none
  /-- What has a node below it is a directory. -/
  parents : ∀ p name, node (p ++ [name]) ≠ none → node p = some .dir

namespace FileTree

/-- No tree at all. -/
def absent : FileTree where
  node _ := none
  bounded := ⟨0, fun _ _ ↦ rfl⟩
  parents _ _ h := absurd rfl h

/-- A single file. -/
def ofFile (content : Bytes) : FileTree where
  node p := if p = [] then some (.file content) else none
  bounded := ⟨0, fun p hp ↦ if_neg (List.ne_nil_of_length_pos hp)⟩
  parents p name h := absurd (if_neg (List.append_ne_nil_of_right_ne_nil p (by simp))) h

/-- An empty directory. -/
def emptyDir : FileTree where
  node p := if p = [] then some .dir else none
  bounded := ⟨0, fun p hp ↦ if_neg (List.ne_nil_of_length_pos hp)⟩
  parents p name h := absurd (if_neg (List.append_ne_nil_of_right_ne_nil p (by simp))) h

/-- There is something at the root. -/
def Present (t : FileTree) : Prop := t.node [] ≠ none

/-- There is a directory at the root. -/
def IsDir (t : FileTree) : Prop := t.node [] = some .dir

/-- There is a regular file at the root. -/
def IsFile (t : FileTree) : Prop := ∃ content, t.node [] = some (.file content)

instance (t : FileTree) : Decidable t.IsDir := inferInstanceAs (Decidable (_ = _))

/-- What lies below `name`. -/
def child (t : FileTree) (name : String) : FileTree where
  node p := t.node (name :: p)
  bounded := t.bounded.imp fun n h p hp ↦ h _ (by rw [List.length_cons]; omega)
  parents p x h := t.parents (name :: p) x h

/-- A directory with `s` put at `name`, in place of what was there. -/
def graft (t : FileTree) (ht : t.IsDir) (name : String) (s : FileTree) : FileTree where
  node
    | [] => t.node []
    | x :: p => if x = name then s.node p else t.node (x :: p)
  bounded := by
    obtain ⟨m, hm⟩ := t.bounded
    obtain ⟨n, hn⟩ := s.bounded
    refine ⟨m + n + 1, fun p hp ↦ ?_⟩
    cases p with
    | nil => simp at hp
    | cons x p =>
      rw [List.length_cons] at hp
      show (if x = name then s.node p else t.node (x :: p)) = none
      rw [hn p (by omega), hm (x :: p) (by rw [List.length_cons]; omega), ite_self]
  parents p x h := by
    cases p with
    | nil => exact ht
    | cons y p =>
      by_cases hy : y = name
      · simp only [List.cons_append, hy, if_true] at h ⊢
        exact s.parents p x h
      · simp only [List.cons_append, hy, if_false] at h ⊢
        exact t.parents (y :: p) x h

/-- Nowhere is there a directory in one tree and a file in the other. -/
def Compatible (s t : FileTree) : Prop :=
  ∀ p, s.node p ≠ none → t.node p ≠ none → (s.node p = some .dir ↔ t.node p = some .dir)

/-- `t` with the nodes of `s` written over it. -/
def overlay (s t : FileTree) (h : s.Compatible t) : FileTree where
  node p := (s.node p).or (t.node p)
  bounded := by
    obtain ⟨m, hm⟩ := s.bounded
    obtain ⟨n, hn⟩ := t.bounded
    exact ⟨m + n, fun p hp ↦ by rw [hm p (by omega), hn p (by omega)]; rfl⟩
  parents p x hx := by
    rcases hs : s.node (p ++ [x]) with - | a
    · have htx : t.node (p ++ [x]) ≠ none := by simpa [hs] using hx
      have htp := t.parents p x htx
      rcases hsp : s.node p with - | b
      · simpa using htp
      · have hdir := (h p (by simp [hsp]) (by simp [htp])).2 htp
        rw [← hsp, hdir]
        rfl
    · rw [s.parents p x (by simp [hs])]
      rfl

theorem absent_not_isDir : ¬ absent.IsDir := nofun

theorem absent_not_present : ¬ absent.Present := fun h ↦ h rfl

theorem IsFile.not_isDir {t : FileTree} (h : t.IsFile) : ¬ t.IsDir := by
  rintro hdir
  obtain ⟨content, hfile⟩ := h
  rw [IsDir, hfile] at hdir
  cases hdir

/-! ### Successful commands -/

/-- A copy of `src` at `name` inside the directory `dst`, merged with what is there. -/
def copyInto (src dst : FileTree) (hd : dst.IsDir) (name : String)
    (hc : src.Compatible (dst.child name)) : FileTree :=
  dst.graft hd name (src.overlay (dst.child name) hc)

/-- The tree at `dst` after a successful `cp -r src dst`, where `name` is the last component
of the source path. -/
inductive CopyR (src dst : FileTree) (name : String) : FileTree → Prop
  /-- Nothing was there: `dst` becomes a copy. -/
  | fresh : src.Present → ¬ dst.Present → CopyR src dst name src
  /-- A file replaces a file. -/
  | file : src.IsFile → dst.IsFile → CopyR src dst name src
  /-- A directory was there: the copy goes into it. -/
  | into (hd : dst.IsDir) (hc : src.Compatible (dst.child name)) :
      src.Present → CopyR src dst name (src.copyInto dst hd name hc)

/-- The tree at `dst` after a successful `mv src dst` inside one file system, where `name` is
the last component of the source path. -/
inductive Move (src dst : FileTree) (name : String) : FileTree → Prop
  /-- Nothing was there: `dst` becomes the source. -/
  | fresh : src.Present → ¬ dst.Present → Move src dst name src
  /-- A file replaces a file. -/
  | file : src.IsFile → dst.IsFile → Move src dst name src
  /-- A directory was there: the source goes into it, over nothing, over an empty directory
  when it is a directory, or over a file when it is a file. -/
  | into (hd : dst.IsDir) :
      src.Present → (¬ (dst.child name).Present ∨ (src.IsDir ∧ dst.child name = emptyDir) ∨
        (src.IsFile ∧ (dst.child name).IsFile)) → Move src dst name (dst.graft hd name src)

/-- What an interrupted removal leaves: some of the nodes. -/
def Pruned (left t : FileTree) : Prop := ∀ p, left.node p = none ∨ left.node p = t.node p

/-- **A copy that went into a directory is not a copy of the source**: its descent along
`name` would never end. -/
theorem copyInto_ne {src dst : FileTree} (hsrc : src.Present) (hd : dst.IsDir) (name : String)
    (hc : src.Compatible (dst.child name)) : src.copyInto dst hd name hc ≠ src := by
  intro heq
  have hstep : ∀ p, src.node p ≠ none → src.node (name :: p) ≠ none := by
    intro p hp
    rw [← heq]
    show (if name = name then (src.node p).or ((dst.child name).node p) else _) ≠ none
    rw [if_pos rfl]
    simpa using fun h ↦ absurd h hp
  have hdeep : ∀ k, src.node (List.replicate k name) ≠ none := by
    intro k
    induction k with
    | zero => exact hsrc
    | succ k ih => exact hstep _ ih
  obtain ⟨n, hn⟩ := src.bounded
  exact hdeep (n + 1) (hn _ (by rw [List.length_replicate]; omega))

/-- A successful copy is a copy of the source exactly when no directory was in its way. -/
theorem CopyR.eq_iff {src dst out : FileTree} {name : String} (h : CopyR src dst name out) :
    out = src ↔ ¬ dst.IsDir := by
  cases h with
  | fresh hsrc hdst =>
    exact ⟨fun _ hdir ↦ hdst (by rw [Present, show dst.node [] = some .dir from hdir]; simp),
      fun _ ↦ rfl⟩
  | file _ hdst => exact ⟨fun _ ↦ hdst.not_isDir, fun _ ↦ rfl⟩
  | into hd hc hsrc =>
    exact ⟨fun heq ↦ absurd heq (copyInto_ne hsrc hd name hc), fun hnd ↦ absurd hd hnd⟩

/-- Where a successful move leaves the source. -/
theorem Move.eq {src dst out : FileTree} {name : String} (h : Move src dst name out) :
    out = if hd : dst.IsDir then dst.graft hd name src else src := by
  cases h with
  | fresh _ hdst =>
    rw [dif_neg]
    intro hdir
    exact hdst (by rw [Present, show dst.node [] = some .dir from hdir]; simp)
  | file _ hdst => rw [dif_neg hdst.not_isDir]
  | into hd => rw [dif_pos hd]

end FileTree
