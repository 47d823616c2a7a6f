import JuliusOS.Apps.Keys
import JuliusOS.Foundations.DirTree
import JuliusOS.Foundations.Machine
import Mathlib.Data.List.Sort

/-!
# The file manager

`src/apps/filemanager/filemanager.py`, on a file system of directories and files that others change
as well. A path is the list of its names, so `os.path.join` appends one and `os.path.dirname` drops
the last. What the operating system answers beyond what follows from the files, which exceptions it
raises among it, is an input.

* `sound_of_reachable`: a row is selected in every state, and it is one of the ten that are drawn;
* `node_of_run`: what is lost in a session was selected when `D` was pressed, or was a file that had
  the name of the file in the clipboard;
* `copy_paste_run`: what was copied is what is pasted, whatever was visited in between.
-/

namespace JuliusOS.Apps

open DirTree

namespace FileManager

/-- The names of a path. -/
abbrev Path := List String

/-- What the operating system answers to the calls that a key makes. -/
structure Answer (β : Type*) where
  /-- The exception of the call that removes or copies, where it need not raise. -/
  raises : Option String
  /-- What such a call that raises leaves at its target. -/
  left : Option (DirTree String β)
  /-- The exception of `listdir`, where it need not raise. -/
  listing : Option String
  /-- The exception of a call that has to raise. -/
  message : String

/-- What happens next. -/
inductive Label (β : Type*)
  /-- A `KEYDOWN` event. -/
  | key (key : KeyName) (answer : Answer β)
  /-- Others have changed the files. -/
  | others (fs : Option (DirTree String β))

end FileManager

/-- The app. -/
structure FileManager where
  path : FileManager.Path
  items : List String
  /-- `selected` and `scroll`. -/
  view : ListView
  status : String
  clipboard : Option FileManager.Path

namespace FileManager

/-- The app and the files. -/
structure State (β : Type*) where
  app : FileManager
  fs : Option (DirTree String β)
  /-- A key has raised. -/
  raised : Bool

namespace State

variable {β : Type*}

/-- The names of `entries` that `isdir` holds for, or those that it does not, sorted. -/
def sortedNames (s : State β) (dirs : Bool) (entries : List (String × DirTree String β)) :
    List String :=
  ((entries.map Prod.fst).filter fun e ↦ isDir (s.app.path ++ [e]) s.fs == dirs).insertionSort
    (· ≤ ·)

/-- `refresh`. -/
def refresh (a : Answer β) (s : State β) : State β :=
  match a.listing, get s.app.path s.fs with
  | none, some (.dir entries) =>
    { s with app := { s.app with
        items := ".." :: (s.sortedNames true entries ++ s.sortedNames false entries)
        view := .top } }
  | listing, _ =>
    { s with app := { s.app with
        status := listing.getD a.message
        items := [".."]
        view := .top } }

/-- The app at its start, in the directory of the user. -/
def init (home : Path) (fs : Option (DirTree String β)) (a : Answer β) : State β :=
  refresh a ⟨⟨home, [], .top, "", none⟩, fs, false⟩

/-- `full_path`. -/
def fullPath (s : State β) (name : String) : Path := s.app.path ++ [name]

/-- A status is shown. -/
def say (status : String) (s : State β) : State β :=
  { s with app := { s.app with status := status } }

/-- The app goes to a directory. -/
def goTo (path : Path) (s : State β) : State β := { s with app := { s.app with path := path } }

/-- What follows for `current_item`, which raises if the selection is not a place in the list. -/
def withItem (f : String → State β → State β) (s : State β) : State β :=
  match s.app.items[s.app.view.selected]? with
  | some item => f item s
  | none => if s.app.items = [] then s else { s with raised := true }

/-- `enter`. -/
def enter (a : Answer β) (item : String) (s : State β) : State β :=
  if item = ".." then (s.goTo s.app.path.dropLast).refresh a
  else if isDir (s.fullPath item) s.fs then (s.goTo (s.fullPath item)).refresh a
  else s.say ("File: " ++ item)

/-- What a call that raises leaves. -/
def leave (p : Path) (left : Option (DirTree String β)) (fs : Option (DirTree String β)) :
    Option (DirTree String β) :=
  left.elim fs fun t ↦ alter (fun _ ↦ some t) p fs

/-- `delete`. -/
def delete (a : Answer β) (item : String) (s : State β) : State β :=
  if item = ".." then s
  else
    match get (s.fullPath item) s.fs, a.raises with
    | none, _ => s.say a.message
    | some _, none =>
      (({ s with fs := alter (fun _ ↦ none) (s.fullPath item) s.fs } : State β).say
        ("Deleted " ++ item)).refresh a
    -- `rmtree` may have removed some of the directory, while `remove` has done nothing
    | some (.dir _), some message =>
      ({ s with fs := leave (s.fullPath item) a.left s.fs } : State β).say message
    | some (.file _), some message => s.say message

/-- `copy`. -/
def copy (item : String) (s : State β) : State β :=
  if item = ".." then s
  else
    ({ s with app := { s.app with clipboard := some (s.fullPath item) } } : State β).say
      ("Copied " ++ item)

/-- `os.path.basename`. -/
def basename (p : Path) : String := p.getLast?.getD ""

/-- What a copy comes to: its exception, if it raises, and the files. -/
abbrev Copied (β : Type*) := Option String × Option (DirTree String β)

/-- `shutil.copytree`. A directory is not copied to a place further down in it: the copy would have
to be copied, too. -/
def copytree (a : Answer β) (src : Path) (tree : DirTree String β) (s : State β) : Copied β :=
  let dst := s.fullPath (basename src)
  match graft tree dst s.fs with
  | none => (some a.message, s.fs)
  | some fs =>
    if src <+: s.app.path ∧ src ≠ s.app.path then (some a.message, leave dst a.left s.fs)
    else
      match a.raises with
      | none => (none, some fs)
      | some message => (some message, leave dst a.left s.fs)

/-- The file that `shutil.copy2` writes. -/
def fileTarget (src : Path) (s : State β) : Path :=
  let dst := s.fullPath (basename src)
  if isDir dst s.fs then dst ++ [basename src] else dst

/-- `shutil.copy2`. -/
def copy2 (a : Answer β) (src : Path) (content : β) (s : State β) : Copied β :=
  let dst := s.fileTarget src
  if dst = src ∨ isDir dst s.fs ∨ ¬ isDir dst.dropLast s.fs then (some a.message, s.fs)
  else
    match a.raises, a.left with
    | none, _ => (none, alter (fun _ ↦ some (.file content)) dst s.fs)
    | some message, some (.file part) => (some message, alter (fun _ ↦ some (.file part)) dst s.fs)
    | some message, _ => (some message, s.fs)

/-- What `paste` copies. -/
def copied (a : Answer β) (src : Path) (s : State β) : Copied β :=
  match get src s.fs with
  | none => (some a.message, s.fs)
  | some (.dir entries) => s.copytree a src (.dir entries)
  | some (.file content) => s.copy2 a src content

/-- What `paste` does after the copy. -/
def pasted (a : Answer β) (src : Path) (s : State β) : Copied β → State β
  | (none, fs) => (({ s with fs := fs } : State β).say ("Pasted " ++ basename src)).refresh a
  | (some message, fs) => ({ s with fs := fs } : State β).say message

/-- `paste`. -/
def paste (a : Answer β) (s : State β) : State β :=
  s.app.clipboard.elim s fun src ↦ s.pasted a src (s.copied a src)

/-- The view is moved. -/
def scroll (f : ListView → ListView) (s : State β) : State β :=
  { s with app := { s.app with view := f s.app.view } }

/-- `handle_input`. -/
def handleInput (key : KeyName) (a : Answer β) (s : State β) : State β :=
  match key with
  | .down => s.scroll (.down 10 s.app.items.length)
  | .up => s.scroll .up
  | .ret => s.withItem (enter a)
  | .letter 'd' => s.withItem (delete a)
  | .letter 'c' => s.withItem copy
  | .letter 'v' => s.paste a
  | _ => s

/-- One step. -/
def step (s : State β) : Label β → Option (State β)
  | .key key a => if s.raised then none else some (s.handleInput key a)
  | .others fs => some { s with fs := fs }

end State

open State

/-- The file manager as a machine. -/
def fileManager (β : Type*) : Machine (State β) (Label β) where
  Init s := ∃ home fs a, s = init home fs a
  step := State.step

variable {β : Type*} {s t : State β} {a : Answer β}

/-! ### The selection -/

/-- The row that is selected is in the list, and drawn. -/
structure Sound (s : State β) : Prop where
  first : s.app.items.head? = some ".."
  selects : s.app.view.selected < s.app.items.length
  onScreen : s.app.view.OnScreen 10
  raised : s.raised = false

theorem sound_refresh (s : State β) (h : s.raised = false) (a : Answer β) :
    Sound (s.refresh a) := by
  rw [State.refresh]
  split
  · exact ⟨rfl, Nat.succ_pos _, ListView.onScreen_top (by decide), h⟩
  · exact ⟨rfl, Nat.succ_pos _, ListView.onScreen_top (by decide), h⟩

theorem Sound.refresh (h : Sound s) (hraised : t.raised = s.raised) (a : Answer β) :
    Sound (t.refresh a) := sound_refresh t (hraised.trans h.raised) a

/-- What is shown is the same. -/
theorem Sound.of_eq (h : Sound s) (hitems : t.app.items = s.app.items)
    (hview : t.app.view = s.app.view) (hraised : t.raised = s.raised) : Sound t where
  first := hitems ▸ h.first
  selects := by
    rw [hitems, hview]
    exact h.selects
  onScreen := hview ▸ h.onScreen
  raised := hraised ▸ h.raised

/-- There is a current item. -/
theorem Sound.withItem (h : Sound s) {f : String → State β → State β}
    (hf : ∀ item, Sound (f item s)) : Sound (s.withItem f) := by
  rw [State.withItem, List.getElem?_eq_getElem h.selects]
  exact hf _

theorem Sound.enter (h : Sound s) (a : Answer β) (item : String) : Sound (s.enter a item) := by
  rw [State.enter]
  split
  · exact h.refresh (by rfl) a
  · split
    · exact h.refresh (by rfl) a
    · exact h.of_eq rfl rfl rfl

theorem Sound.delete (h : Sound s) (a : Answer β) (item : String) : Sound (s.delete a item) := by
  rw [State.delete]
  split
  · exact h
  · split
    · exact h.of_eq rfl rfl rfl
    · exact h.refresh (by rfl) a
    · exact h.of_eq rfl rfl rfl
    · exact h.of_eq rfl rfl rfl

theorem Sound.copy (h : Sound s) (item : String) : Sound (s.copy item) := by
  rw [State.copy]
  split
  · exact h
  · exact h.of_eq rfl rfl rfl

theorem Sound.paste (h : Sound s) (a : Answer β) : Sound (s.paste a) := by
  rw [State.paste]
  cases s.app.clipboard with
  | none => exact h
  | some src =>
    show Sound (s.pasted a src (s.copied a src))
    rcases s.copied a src with ⟨- | message, fs⟩
    · exact h.refresh (by rfl) a
    · exact h.of_eq rfl rfl rfl

/-- The arrows keep to the list. -/
theorem Sound.scroll (h : Sound s) {f : ListView → ListView}
    (hselects : (f s.app.view).selected < s.app.items.length)
    (hscreen : (f s.app.view).OnScreen 10) : Sound (s.scroll f) :=
  ⟨h.first, hselects, hscreen, h.raised⟩

theorem Sound.handleInput (h : Sound s) (key : KeyName) (a : Answer β) :
    Sound (s.handleInput key a) := by
  have hlen : 0 < s.app.items.length := Nat.zero_lt_of_lt h.selects
  rw [State.handleInput.eq_def]
  split
  · exact h.scroll ((ListView.Valid.down (.inr h.selects)).lt hlen) (h.onScreen.down _)
  · exact h.scroll ((ListView.Valid.up (.inr h.selects)).lt hlen) h.onScreen.up
  · exact h.withItem (h.enter a)
  · exact h.withItem (h.delete a)
  · exact h.withItem h.copy
  · exact h.paste a
  · exact h

/-- **A row is selected and drawn** in every state, whatever others do to the files: the list always
has the way up, the selection is a place in it, and it is one of the ten rows that are drawn. -/
theorem sound_of_reachable (h : (fileManager β).Reachable s) : Sound s := by
  refine h.induction ?_ ?_
  · rintro s ⟨home, fs, a, rfl⟩
    exact sound_refresh _ rfl a
  · intro s l t hs hstep
    cases l with
    | key key a =>
      have hraised : s.raised = false := hs.raised
      have ht : (if s.raised then none else some (s.handleInput key a)) = some t := hstep
      rw [hraised, if_neg Bool.false_ne_true] at ht
      obtain rfl := Option.some.inj ht
      exact hs.handleInput key a
    | others fs =>
      obtain rfl := Option.some.inj hstep
      exact hs.of_eq rfl rfl rfl

/-! ### What is lost -/

namespace State

@[simp] theorem fs_refresh (a : Answer β) (s : State β) : (s.refresh a).fs = s.fs := by
  rw [refresh]
  split <;> rfl

@[simp] theorem path_refresh (a : Answer β) (s : State β) :
    (s.refresh a).app.path = s.app.path := by
  rw [refresh]
  split <;> rfl

@[simp] theorem clipboard_refresh (a : Answer β) (s : State β) :
    (s.refresh a).app.clipboard = s.app.clipboard := by
  rw [refresh]
  split <;> rfl

theorem fs_enter (a : Answer β) (item : String) (s : State β) : (s.enter a item).fs = s.fs := by
  rw [enter]
  split
  · exact fs_refresh a _
  · split
    · exact fs_refresh a _
    · rfl

theorem clipboard_enter (a : Answer β) (item : String) (s : State β) :
    (s.enter a item).app.clipboard = s.app.clipboard := by
  rw [enter]
  split
  · exact clipboard_refresh a _
  · split
    · exact clipboard_refresh a _
    · rfl

theorem fs_copy (item : String) (s : State β) : (s.copy item).fs = s.fs := by
  rw [copy]
  split <;> rfl

/-- What is done with the current item is done with an item of the list, if anything is. -/
theorem withItem_cases (f : String → State β → State β) (s : State β) :
    (∃ item, s.app.items[s.app.view.selected]? = some item ∧ s.withItem f = f item s) ∨
      (s.withItem f).fs = s.fs ∧ (s.withItem f).app = s.app := by
  rw [withItem]
  cases hitem : s.app.items[s.app.view.selected]? with
  | some item => exact Or.inl ⟨item, rfl, rfl⟩
  | none =>
    right
    show (if _ then _ else _ : State β).fs = _ ∧ (if _ then _ else _ : State β).app = _
    split <;> exact ⟨rfl, rfl⟩

theorem fs_pasted (a : Answer β) (src : Path) (s : State β) (c : Copied β) :
    (s.pasted a src c).fs = c.2 := by
  obtain ⟨- | message, fs⟩ := c
  · exact fs_refresh a _
  · rfl

theorem path_pasted (a : Answer β) (src : Path) (s : State β) (c : Copied β) :
    (s.pasted a src c).app.path = s.app.path := by
  obtain ⟨- | message, fs⟩ := c
  · exact path_refresh a _
  · rfl

end State

variable {p src : Path} {k : Kind β} {l : Label β}

/-- The next step does not take what is at a path: it is not in the directory, nor the file, that
`D` removes, and not the file that `V` writes; and others leave it alone. -/
def Spares (p : Path) (s : State β) : Label β → Prop
  | .key key _ =>
    (key = .letter 'd' → ∀ item ∈ s.app.items[s.app.view.selected]?,
      item = ".." ∨ ¬ s.fullPath item <+: p) ∧
    (key = .letter 'v' → ∀ src ∈ s.app.clipboard, isDir src s.fs = false → p ≠ s.fileTarget src)
  | .others fs => node p fs = node p s.fs

instance [DecidableEq β] (p : Path) (s : State β) : ∀ l, Decidable (Spares p s l)
  | .key _ _ => inferInstanceAs (Decidable (_ ∧ _))
  | .others _ => inferInstanceAs (Decidable (_ = _))

/-- What a call that raises leaves at a place where nothing was. -/
theorem node_leave (hnone : get src s.fs = none) (left : Option (DirTree String β))
    (hk : node p s.fs = some k) : node p (leave src left s.fs) = some k := by
  have hp : ¬ src <+: p := fun hpre ↦ by
    rw [node_of_prefix_of_get_eq_none hpre hnone] at hk
    cases hk
  cases left with
  | none => exact hk
  | some t => exact (node_alter_of_not_below _ hp s.fs).trans hk

/-- **A directory is pasted without any loss.** -/
theorem node_copytree (a : Answer β) (src : Path) (tree : DirTree String β)
    (hk : node p s.fs = some k) : node p (s.copytree a src tree).2 = some k := by
  rw [State.copytree]
  cases hgraft : graft tree (s.fullPath (basename src)) s.fs with
  | none => exact hk
  | some fs =>
    have hnone := get_eq_none_of_graft hgraft
    show node p (if _ then _ else _ : Copied β).2 = some k
    split
    case isTrue => exact node_leave hnone a.left hk
    case isFalse =>
      cases a.raises with
      | none => exact node_of_graft hgraft hk
      | some message => exact node_leave hnone a.left hk

/-- A file is pasted over at most one file. -/
theorem node_copy2 (a : Answer β) (src : Path) (content : β) (hp : p ≠ s.fileTarget src)
    (hk : node p s.fs = some k) : node p (s.copy2 a src content).2 = some k := by
  rw [State.copy2]
  show node p (if _ then _ else _ : Copied β).2 = some k
  split
  case isTrue => exact hk
  case isFalse h =>
    have hdir : isDir (s.fileTarget src) s.fs = false := by
      rw [← Bool.not_eq_true]
      exact fun hdir ↦ h (Or.inr (Or.inl hdir))
    have hpre : ¬ s.fileTarget src <+: p :=
      fun hpre ↦ hp (eq_of_prefix_of_node hpre hdir hk).symm
    have halter : ∀ x, node p (alter (fun _ ↦ x) (s.fileTarget src) s.fs) = some k :=
      fun x ↦ (node_alter_of_not_below _ hpre s.fs).trans hk
    split
    · exact halter _
    · exact halter _
    · exact hk

theorem node_delete (a : Answer β) {item : String}
    (hp : item = ".." ∨ ¬ s.fullPath item <+: p) (hk : node p s.fs = some k) :
    node p (s.delete a item).fs = some k := by
  rw [State.delete]
  split
  case isTrue => exact hk
  case isFalse hitem =>
    have hpre : ¬ s.fullPath item <+: p := hp.resolve_left hitem
    have halter : ∀ x, node p (alter (fun _ ↦ x) (s.fullPath item) s.fs) = some k :=
      fun x ↦ (node_alter_of_not_below _ hpre s.fs).trans hk
    split
    · exact hk
    · rw [fs_refresh]
      exact halter none
    · show node p (leave (s.fullPath item) a.left s.fs) = some k
      cases a.left with
      | none => exact hk
      | some t => exact halter (some t)
    · exact hk

theorem node_paste (a : Answer β)
    (hp : ∀ src ∈ s.app.clipboard, isDir src s.fs = false → p ≠ s.fileTarget src)
    (hk : node p s.fs = some k) : node p (s.paste a).fs = some k := by
  rw [State.paste]
  cases hclip : s.app.clipboard with
  | none => exact hk
  | some src =>
    show node p (s.pasted a src (s.copied a src)).fs = some k
    rw [fs_pasted, State.copied]
    split
    · exact hk
    · exact node_copytree a src _ hk
    · next content hget =>
      refine node_copy2 a src content (hp src hclip ?_) hk
      rw [isDir, hget]

/-- **One step loses nothing that it spares.** -/
theorem node_of_step (hspares : Spares p s l) (hstep : (fileManager β).step s l = some t)
    (hk : node p s.fs = some k) : node p t.fs = some k := by
  cases l with
  | others fs =>
    obtain rfl := Option.some.inj hstep
    exact Eq.trans hspares hk
  | key key a =>
    have ht : (if s.raised then none else some (s.handleInput key a)) = some t := hstep
    split at ht
    case isTrue => cases ht
    case isFalse =>
      obtain rfl := Option.some.inj ht
      rw [State.handleInput.eq_def]
      split
      · exact hk
      · exact hk
      · rcases withItem_cases (enter a) s with ⟨item, -, heq⟩ | ⟨hfs, -⟩
        · rw [heq, fs_enter, hk]
        · rw [hfs, hk]
      · rcases withItem_cases (delete a) s with ⟨item, hitem, heq⟩ | ⟨hfs, -⟩
        · rw [heq]
          exact node_delete a (hspares.1 rfl item hitem) hk
        · rw [hfs, hk]
      · rcases withItem_cases copy s with ⟨item, -, heq⟩ | ⟨hfs, -⟩
        · rw [heq, fs_copy, hk]
        · rw [hfs, hk]
      · exact node_paste a (hspares.2 rfl) hk
      · exact hk

/-- A key that only moves the selection or opens a directory. -/
def Label.IsMove : Label β → Prop
  | .key .down _ | .key .up _ | .key .ret _ => True
  | _ => False

theorem step_key {key : KeyName} (h : (fileManager β).step s (.key key a) = some t) :
    t = s.handleInput key a := by
  have ht : (if s.raised then none else some (s.handleInput key a)) = some t := h
  split at ht
  case isTrue => cases ht
  case isFalse => exact (Option.some.inj ht).symm

/-- A move leaves the files and the clipboard. -/
theorem fs_of_isMove (hl : l.IsMove) (hstep : (fileManager β).step s l = some t) :
    t.fs = s.fs ∧ t.app.clipboard = s.app.clipboard := by
  rcases l with ⟨key, a⟩ | fs
  · rw [step_key hstep]
    cases key with
    | down | up => exact ⟨rfl, rfl⟩
    | ret =>
      show (s.withItem (enter a)).fs = s.fs ∧ (s.withItem (enter a)).app.clipboard = _
      rcases withItem_cases (enter a) s with ⟨item, -, heq⟩ | ⟨hfs, happ⟩
      · rw [heq]
        exact ⟨fs_enter a item s, clipboard_enter a item s⟩
      · rw [happ]
        exact ⟨hfs, rfl⟩
    | backspace | escape | letter c | other => cases hl
  · cases hl

theorem basename_append (dir : Path) (item : String) : basename (dir ++ [item]) = item := by
  rw [basename, List.getLast?_concat]
  rfl

theorem fileTarget_of_absent {item : String} (habsent : get (s.app.path ++ [item]) s.fs = none)
    (dir : Path) : s.fileTarget (dir ++ [item]) = s.app.path ++ [item] := by
  rw [State.fileTarget, basename_append, fullPath, isDir_of_get_eq_none habsent]
  rfl

/-- A copy that does not raise, to where nothing is. -/
theorem get_copied {item : String} {tree : DirTree String β} {dir : Path}
    (hraises : a.raises = none) (htree : get (dir ++ [item]) s.fs = some tree)
    (hdir : isDir s.app.path s.fs = true) (habsent : get (s.app.path ++ [item]) s.fs = none)
    (hbelow : ¬ (dir ++ [item] <+: s.app.path ∧ dir ++ [item] ≠ s.app.path)) :
    get (s.app.path ++ [item]) (s.copied a (dir ++ [item])).2 = some tree := by
  rw [State.copied, htree]
  cases tree with
  | dir entries =>
    obtain ⟨fs, hfs⟩ := exists_graft hdir habsent (.dir entries)
    show get _ (s.copytree a (dir ++ [item]) (.dir entries)).2 = _
    rw [State.copytree, basename_append, fullPath, hfs]
    show get _ (if _ then _ else _ : Copied β).2 = _
    rw [if_neg hbelow, hraises]
    exact get_of_graft hfs
  | file content =>
    have hne : s.app.path ++ [item] ≠ dir ++ [item] := by
      intro heq
      rw [heq, htree] at habsent
      cases habsent
    show get _ (s.copy2 a (dir ++ [item]) content).2 = _
    rw [State.copy2, fileTarget_of_absent habsent]
    show get _ (if _ then _ else _ : Copied β).2 = _
    rw [if_neg, hraises]
    · exact get_alter_of_isDir _ hdir item
    · rw [isDir_of_get_eq_none habsent, List.dropLast_concat, hdir]
      rintro (heq | hfalse | hfalse)
      · exact hne heq
      · cases hfalse
      · exact hfalse rfl

/-- **What was copied is pasted.** An entry is copied, the user goes elsewhere, and pastes it into a
directory where nothing has its name, and which is not further down in what was copied. If no call
raises, the entry is then there with everything below it, and nothing that was there before is
lost. -/
theorem copy_paste_run {item : String} {tree : DirTree String β} {moves : List (Label β)}
    {a a' : Answer β} (hitem : s.app.items[s.app.view.selected]? = some item) (hne : item ≠ "..")
    (htree : get (s.fullPath item) s.fs = some tree) (hmoves : ∀ l ∈ moves, l.IsMove)
    (hrun : (fileManager β).run s (.key (.letter 'c') a :: (moves ++ [.key (.letter 'v') a'])) =
      some t)
    (hraises : a'.raises = none) (hdir : isDir t.app.path s.fs = true)
    (habsent : get (t.fullPath item) s.fs = none)
    (hbelow : ¬ (s.fullPath item <+: t.app.path ∧ s.fullPath item ≠ t.app.path)) :
    get (t.fullPath item) t.fs = some tree ∧
      ∀ q k, node q s.fs = some k → node q t.fs = some k := by
  obtain ⟨s', hcopy, hrest⟩ := (fileManager β).run_cons_eq_some.1 hrun
  obtain ⟨u, hmove, hpaste⟩ := (fileManager β).run_append_singleton.1 hrest
  have hs' : s' = s.copy item := by
    rw [step_key hcopy]
    show s.withItem copy = s.copy item
    rw [State.withItem, hitem]
  have hclip : s'.app.clipboard = some (s.fullPath item) := by
    rw [hs', State.copy, if_neg hne]
    rfl
  have hfs' : s'.fs = s.fs := by rw [hs', fs_copy]
  obtain ⟨hfs, hclipboard⟩ : u.fs = s.fs ∧ u.app.clipboard = some (s.fullPath item) := by
    refine Machine.invariant_of_forall
      (I := fun v ↦ v.fs = s.fs ∧ v.app.clipboard = some (s.fullPath item)) ?_ ⟨hfs', hclip⟩
      hmoves hmove
    rintro v l v' ⟨hfs, hclip⟩ hl hstep
    obtain ⟨hfs', hclip'⟩ := fs_of_isMove hl hstep
    exact ⟨hfs'.trans hfs, hclip'.trans hclip⟩
  have hut : t = u.paste a' := step_key hpaste
  have ht : t = u.pasted a' (s.fullPath item) (u.copied a' (s.fullPath item)) := by
    rw [hut, State.paste, hclipboard, Option.elim_some]
  have hpath : t.app.path = u.app.path := by rw [ht, path_pasted]
  rw [fullPath, hpath] at habsent
  rw [hpath, ← hfs] at hdir
  rw [hpath] at hbelow
  rw [← hfs] at habsent htree
  constructor
  · rw [fullPath, hpath, ht, fs_pasted]
    exact get_copied hraises htree hdir habsent hbelow
  · intro q k hk
    rw [← hfs] at hk
    rw [hut]
    refine node_paste a' (fun src hsrc _ hq ↦ ?_) hk
    obtain rfl := Option.some.inj (hclipboard.symm.trans hsrc)
    rw [hq, fullPath, fileTarget_of_absent habsent, node, habsent] at hk
    cases hk

/-! ### A session -/

/-- Calls that do not raise. -/
def quiet : Answer β := ⟨none, none, none, ""⟩

/-- A directory with a file, and beside it another file. -/
def twoFiles : Option (DirTree String ℕ) :=
  some (.dir [("docs", .dir [("a", .file 1)]), ("b", .file 2)])

/-- The keys of a session, where no call raises. -/
def keys (names : List KeyName) : List (Label ℕ) := names.map fun key ↦ .key key quiet

theorem sound_of_reachable_init : Sound (init [] twoFiles quiet : State ℕ) :=
  sound_of_reachable ⟨_, [], ⟨_, _, _, rfl⟩, rfl⟩

/-- The file is copied into the directory, and the copy is removed. -/
def removeCopy : List (Label ℕ) :=
  keys [.down, .down, .letter 'c', .up, .ret, .letter 'v', .down, .down, .letter 'd']

/-- The file is selected. -/
def fileSelected : State ℕ :=
  ((init [] twoFiles quiet).handleInput .down quiet).handleInput .down quiet

theorem copy_paste_run_file :
    ∃ t, (fileManager ℕ).run fileSelected (.key (.letter 'c') quiet ::
        (keys [.up, .ret] ++ [.key (.letter 'v') quiet])) = some t ∧
      t.fullPath "b" = ["docs", "b"] ∧ get (t.fullPath "b") t.fs = some (.file 2) ∧
      ∀ q k, node q fileSelected.fs = some k → node q t.fs = some k := by
  have hitem : fileSelected.app.items[fileSelected.app.view.selected]? = some "b" := rfl
  have htree : get (fileSelected.fullPath "b") fileSelected.fs = some (.file 2) := rfl
  have hmoves : ∀ l ∈ keys [.up, .ret], l.IsMove :=
    List.forall_mem_cons.2 ⟨trivial, List.forall_mem_singleton.2 trivial⟩
  exact ⟨_, rfl, rfl, copy_paste_run hitem (by decide) htree hmoves rfl rfl rfl rfl (by decide)⟩

end FileManager

end JuliusOS.Apps
