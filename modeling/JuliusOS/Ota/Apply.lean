import JuliusOS.Foundations.FileTree

/-!
# Applying an update and rolling it back

`apply_update` backs `/usr/julius` up with `cp -r`, extracts the package over it, and when
`julius_verify_install` fails removes `/usr/julius` and moves the backup back. None of the
exit statuses but the verifier's is looked at.

A command either succeeds, with the standard effect, or fails and leaves something behind:
a failed copy any tree at its target, a failed removal some of the nodes, a failed move
nothing changed (both paths lie in `/usr`, so it is one `rename`). What the extraction leaves
is arbitrary in any case. `Rollback` records one such course of events; `final` is the tree
at `/usr/julius` when `apply_update` returns.

`rollback_restores_iff` says exactly which courses restore the tree. When removal and move
both succeed what counts is the backup, and the backup is the old tree exactly when the copy
succeeded *and there was no directory at `/usr/julius.bak` beforehand*: a backup left over
from an interrupted update is entered by `cp`, not replaced.
-/

namespace JuliusOS.Ota

/-- The two trees `apply_update` works on. -/
structure UsrTrees where
  /-- `/usr/julius`. -/
  julius : FileTree
  /-- `/usr/julius.bak`. -/
  bak : FileTree

/-- `cp -r /usr/julius /usr/julius.bak`, with its exit status. -/
inductive Backup (s : UsrTrees) : Bool → UsrTrees → Prop
  | ok {bak : FileTree} : FileTree.CopyR s.julius s.bak "julius" bak →
      Backup s true ⟨s.julius, bak⟩
  | failed (left : FileTree) : Backup s false ⟨s.julius, left⟩

/-- `tar -xzf VERIFIED_PATH -C /usr/julius/`, whatever its exit status. -/
inductive Extract (s : UsrTrees) : UsrTrees → Prop
  | run (tree : FileTree) : Extract s ⟨tree, s.bak⟩

/-- `rm -rf /usr/julius`, with its exit status. -/
inductive Remove (s : UsrTrees) : Bool → UsrTrees → Prop
  | ok : Remove s true ⟨.absent, s.bak⟩
  | failed {left : FileTree} : left.Pruned s.julius → Remove s false ⟨left, s.bak⟩

/-- `mv /usr/julius.bak /usr/julius`, with its exit status. -/
inductive Restore (s : UsrTrees) : Bool → UsrTrees → Prop
  | ok {tree : FileTree} : FileTree.Move s.bak s.julius "julius.bak" tree →
      Restore s true ⟨tree, .absent⟩
  | failed : Restore s false s

/-- A course of `apply_update` from the trees `s` in which `julius_verify_install` does not
succeed: the states after the commands and the statuses of those whose effect depends on
it. -/
structure Rollback (s : UsrTrees) where
  /-- Exit status of `cp`. -/
  cpOk : Bool
  /-- After `cp`. -/
  backedUp : UsrTrees
  backup : Backup s cpOk backedUp
  /-- After `tar`. -/
  extracted : UsrTrees
  extract : Extract backedUp extracted
  /-- Exit status of `rm`. -/
  rmOk : Bool
  /-- After `rm`. -/
  removed : UsrTrees
  remove : Remove extracted rmOk removed
  /-- Exit status of `mv`. -/
  mvOk : Bool
  /-- When `apply_update` returns. -/
  final : UsrTrees
  restore : Restore removed mvOk final

namespace Rollback

variable {s : UsrTrees} (r : Rollback s)

/-- The backup is the tree at entry: the copy succeeded and no directory was in its way, or
it failed and left a complete copy all the same. -/
def BackupFaithful : Prop :=
  (r.cpOk = true ∧ ¬ s.bak.IsDir) ∨ (r.cpOk = false ∧ r.backedUp.bak = s.julius)

/-- The condition under which a rollback restores the tree. With `mv` failing, what `rm` left
must be the old tree; with both succeeding, the backup must be faithful; and with `rm`
failing, the backup is moved into or over what `rm` left, and the result must be the old
tree. -/
def Restores : Prop :=
  match r.mvOk, r.rmOk with
  | false, _ => r.removed.julius = s.julius
  | true, true => r.BackupFaithful
  | true, false =>
    (if hd : r.removed.julius.IsDir then
      r.removed.julius.graft hd "julius.bak" r.backedUp.bak
    else r.backedUp.bak) = s.julius

/-- Nothing between the copy and the move touches the backup. -/
theorem removed_bak : r.removed.bak = r.backedUp.bak := by
  obtain ⟨cpOk, backedUp, hb, extracted, he, rmOk, removed, hr, mvOk, final, hm⟩ := r
  cases he
  cases hr <;> rfl

theorem backup_eq_iff : r.backedUp.bak = s.julius ↔ r.BackupFaithful := by
  obtain ⟨cpOk, backedUp, hb, extracted, he, rmOk, removed, hr, mvOk, final, hm⟩ := r
  cases hb with
  | ok hcopy => simpa [BackupFaithful] using hcopy.eq_iff
  | failed left => simp [BackupFaithful]

/-- What a successful move leaves at `/usr/julius`. -/
theorem final_julius_of_mvOk (h : r.mvOk = true) :
    r.final.julius = if hd : r.removed.julius.IsDir then
      r.removed.julius.graft hd "julius.bak" r.backedUp.bak else r.backedUp.bak := by
  rw [← r.removed_bak]
  obtain ⟨cpOk, backedUp, hb, extracted, he, rmOk, removed, hr, mvOk, final, hm⟩ := r
  cases hm with
  | ok hmove => exact hmove.eq
  | failed => cases h

theorem final_eq_of_not_mvOk (h : r.mvOk = false) : r.final = r.removed := by
  obtain ⟨cpOk, backedUp, hb, extracted, he, rmOk, removed, hr, mvOk, final, hm⟩ := r
  cases hm with
  | ok => cases h
  | failed => rfl

theorem removed_julius_of_rmOk (h : r.rmOk = true) : r.removed.julius = .absent := by
  obtain ⟨cpOk, backedUp, hb, extracted, he, rmOk, removed, hr, mvOk, final, hm⟩ := r
  cases hr with
  | ok => rfl
  | failed => cases h

end Rollback

/-- **Which rollbacks restore the tree.** For every pair of trees at entry and every course of
the commands in which the verifier fails, the tree at `/usr/julius` when `apply_update`
returns is the one at entry if and only if `Rollback.Restores` holds. -/
theorem rollback_restores_iff (s : UsrTrees) (r : Rollback s) :
    r.final.julius = s.julius ↔ r.Restores := by
  rw [Rollback.Restores]
  cases hmv : r.mvOk with
  | false => rw [r.final_eq_of_not_mvOk hmv]
  | true =>
    rw [r.final_julius_of_mvOk hmv]
    cases hrm : r.rmOk with
    | false => rfl
    | true =>
      have hgone : ¬ r.removed.julius.IsDir := by
        rw [r.removed_julius_of_rmOk hrm]
        exact FileTree.absent_not_isDir
      rw [dif_neg hgone]
      exact r.backup_eq_iff

/-! ### A left-over backup -/

/-- A directory holding one file, `version`. -/
def versionDir (version : Bytes) : FileTree :=
  FileTree.emptyDir.graft rfl "version" (.ofFile version)

/-- Version 2 is installed and a backup of version 1 is left over. -/
def leftover : UsrTrees := ⟨versionDir [2], versionDir [1]⟩

/-- An update to version 3 is installed over it and fails verification; every other command
succeeds. -/
def leftoverRollback : Rollback leftover :=
  have hcompat : (versionDir [2]).Compatible ((versionDir [1]).child "julius") :=
    fun _ _ h ↦ absurd rfl h
  { cpOk := true
    backedUp := ⟨versionDir [2], (versionDir [2]).copyInto (versionDir [1]) rfl "julius" hcompat⟩
    backup := .ok (.into (show (versionDir [1]).IsDir from rfl) hcompat nofun)
    extracted := ⟨versionDir [3], _⟩
    extract := .run _
    rmOk := true
    removed := ⟨.absent, _⟩
    remove := .ok
    mvOk := true
    final := ⟨_, .absent⟩
    restore := .ok (.fresh nofun FileTree.absent_not_present) }

/-- The rollback brings back version 1 instead of version 2. -/
theorem leftoverRollback_not_restored : leftoverRollback.final.julius ≠ leftover.julius := by
  intro h
  have hnode := congrArg (fun t ↦ FileTree.node t ["version"]) h
  exact absurd hnode (by decide)

end JuliusOS.Ota
