import Mathlib.Data.List.Infix

/-!
# Directories that are changed at a path

A tree of directories and files, as a value that is computed with. `none` is a tree that is not
there, so that a path leads from a tree to a tree. `alter p f` does something to what is at a path,
if there is a directory to hold it, and `graft p s` puts a tree at a path where nothing is, with the
directories that lead there.

`node p t` is what a path names. The rules are what each operation leaves of it: `alter p f` changes
nothing but at `p` and below (`node_alter_of_not_below`), and `graft` loses nothing at all
(`node_of_graft`).
-/

/-- A directory with its entries, or a file with its content. -/
inductive DirTree (ν β : Type*)
  | file (content : β)
  | dir (entries : List (ν × DirTree ν β))

namespace DirTree

variable {ν α β : Type*}

/-- What a path names. -/
inductive Kind (β : Type*)
  | file (content : β)
  | dir
deriving DecidableEq

/-- What a tree is, without what is below. -/
def kind : DirTree ν β → Kind β
  | file content => .file content
  | dir _ => .dir

variable [DecidableEq ν]

/-! ### Entries -/

/-- What a name stands for. -/
def find (n : ν) : List (ν × α) → Option α
  | [] => none
  | (m, a) :: es => if m = n then some a else find n es

/-- The entries with something else, or nothing, at a name. -/
def set (n : ν) (a : Option α) (es : List (ν × α)) : List (ν × α) :=
  a.elim (es.filter fun e ↦ e.1 ≠ n) fun a ↦ (n, a) :: es.filter fun e ↦ e.1 ≠ n

theorem find_filter_self (n : ν) (es : List (ν × α)) :
    find n (es.filter fun e ↦ e.1 ≠ n) = none := by
  induction es with
  | nil => rfl
  | cons e es ih =>
    by_cases he : e.1 = n
    · rw [List.filter_cons_of_neg (by simpa using he), ih]
    · rw [List.filter_cons_of_pos (by simpa using he), find, if_neg he, ih]

theorem find_filter_of_ne {m n : ν} (hne : m ≠ n) (es : List (ν × α)) :
    find m (es.filter fun e ↦ e.1 ≠ n) = find m es := by
  induction es with
  | nil => rfl
  | cons e es ih =>
    by_cases he : e.1 = n
    · have hem : e.1 ≠ m := fun h ↦ hne (h.symm.trans he)
      rw [List.filter_cons_of_neg (by simpa using he), ih, find, if_neg hem]
    · rw [List.filter_cons_of_pos (by simpa using he), find, find, ih]

@[simp] theorem find_set_self (n : ν) (a : Option α) (es : List (ν × α)) :
    find n (set n a es) = a := by
  cases a with
  | none => exact find_filter_self n es
  | some a => exact if_pos rfl

theorem find_set_of_ne {m n : ν} (hne : m ≠ n) (a : Option α) (es : List (ν × α)) :
    find m (set n a es) = find m es := by
  cases a with
  | none => exact find_filter_of_ne hne es
  | some a =>
    show (if n = m then some a else _) = _
    rw [if_neg hne.symm, find_filter_of_ne hne]

/-! ### Paths -/

/-- What is at a path. -/
def get : List ν → Option (DirTree ν β) → Option (DirTree ν β)
  | [], t => t
  | n :: p, some (dir es) => get p (find n es)
  | _ :: _, _ => none

/-- What a path names in a tree. -/
def node (p : List ν) (t : Option (DirTree ν β)) : Option (Kind β) := (get p t).map kind

/-- There is a directory at a path. -/
def isDir (p : List ν) (t : Option (DirTree ν β)) : Bool :=
  match get p t with
  | some (dir _) => true
  | _ => false

/-- Something is done to what is at a path, if it is in a directory. -/
def alter (f : Option (DirTree ν β) → Option (DirTree ν β)) :
    List ν → Option (DirTree ν β) → Option (DirTree ν β)
  | [], t => f t
  | n :: p, some (dir es) => some (dir (set n (alter f p (find n es)) es))
  | _ :: _, t => t

/-- A tree is put at a path where nothing is. -/
def graft (s : DirTree ν β) : List ν → Option (DirTree ν β) → Option (DirTree ν β)
  | [], none => some s
  | [], some _ => none
  | n :: p, none => (graft s p none).map fun c ↦ dir [(n, c)]
  | n :: p, some (dir es) => (graft s p (find n es)).map fun c ↦ dir (set n (some c) es)
  | _ :: _, some (file _) => none

variable {p q : List ν} {s u : DirTree ν β} {t : Option (DirTree ν β)}
  {f : Option (DirTree ν β) → Option (DirTree ν β)}

@[simp] theorem get_none (p : List ν) : get p (none : Option (DirTree ν β)) = none := by
  cases p <;> rfl

@[simp] theorem node_none (p : List ν) : node p (none : Option (DirTree ν β)) = none := by
  rw [node, get_none, Option.map_none]

theorem node_cons_dir (n : ν) (p : List ν) (es : List (ν × DirTree ν β)) :
    node (n :: p) (some (dir es)) = node p (find n es) := rfl

theorem node_cons_file (n : ν) (p : List ν) (content : β) :
    node (n :: p) (some (file content : DirTree ν β)) = none := rfl

theorem get_append (p q : List ν) (t : Option (DirTree ν β)) :
    get (p ++ q) t = get q (get p t) := by
  induction p generalizing t with
  | nil => rfl
  | cons n p ih =>
    rcases t with - | content | es
    · exact (get_none q).symm
    · exact (get_none q).symm
    · exact ih (find n es)

theorem node_append (p q : List ν) (t : Option (DirTree ν β)) :
    node (p ++ q) t = node q (get p t) := by
  rw [node, node, get_append]

/-- Where nothing is, nothing is below. -/
theorem node_of_prefix_of_get_eq_none (hp : p <+: q) (h : get p t = none) : node q t = none := by
  obtain ⟨r, rfl⟩ := hp
  rw [node_append, h, node_none]

/-- Below what is no directory nothing is. -/
theorem eq_of_prefix_of_node {k : Kind β} (hp : p <+: q) (hdir : isDir p t = false)
    (hk : node q t = some k) : p = q := by
  obtain ⟨r, rfl⟩ := hp
  rw [node_append] at hk
  rw [isDir] at hdir
  rcases hget : get p t with - | content | es
  · rw [hget, node_none] at hk
    cases hk
  · cases r with
    | nil => rw [List.append_nil]
    | cons n r =>
      rw [hget, node_cons_file] at hk
      cases hk
  · rw [hget] at hdir
    cases hdir

theorem isDir_of_get_eq_none (h : get p t = none) : isDir p t = false := by
  rw [isDir, h]

/-! ### Changes at a path -/

/-- **What is not at the path, nor below it, stays.** -/
theorem node_alter_of_not_below (f : Option (DirTree ν β) → Option (DirTree ν β)) (h : ¬ p <+: q)
    (t : Option (DirTree ν β)) : node q (alter f p t) = node q t := by
  induction p generalizing q t with
  | nil => exact absurd List.nil_prefix h
  | cons n p ih =>
    rcases t with - | content | es
    · rfl
    · rfl
    · cases q with
      | nil => rfl
      | cons m q =>
        rw [alter, node_cons_dir, node_cons_dir]
        by_cases hm : m = n
        · subst hm
          rw [find_set_self, ih fun hpq ↦ h (List.cons_prefix_cons.2 ⟨rfl, hpq⟩)]
        · rw [find_set_of_ne hm]

/-- What is at the path becomes what is made of it. -/
theorem get_alter_of_isDir (f : Option (DirTree ν β) → Option (DirTree ν β)) (h : isDir p t = true)
    (n : ν) : get (p ++ [n]) (alter f (p ++ [n]) t) = f (get (p ++ [n]) t) := by
  induction p generalizing t with
  | nil =>
    rcases t with - | content | es
    · cases h
    · cases h
    · show get [] (find n (set n (f (find n es)) es)) = f (find n es)
      rw [find_set_self]
      rfl
  | cons m p ih =>
    rcases t with - | content | es
    · cases h
    · cases h
    · show get (p ++ [n]) (find m (set m (alter f (p ++ [n]) (find m es)) es)) =
        f (get (p ++ [n]) (find m es))
      rw [find_set_self]
      exact ih h

/-! ### Grafts -/

/-- **A graft loses nothing.** -/
theorem node_of_graft {k : Kind β} (h : graft s p t = some u) (hk : node q t = some k) :
    node q (some u) = some k := by
  induction p generalizing q t u with
  | nil =>
    rcases t with - | t
    · rw [node_none] at hk
      cases hk
    · cases h
  | cons n p ih =>
    rcases t with - | content | es
    · rw [node_none] at hk
      cases hk
    · cases h
    · obtain ⟨c, hc, rfl⟩ := Option.map_eq_some_iff.1 h
      cases q with
      | nil => exact hk
      | cons m q =>
        rw [node_cons_dir] at hk ⊢
        by_cases hm : m = n
        · subst hm
          rw [find_set_self]
          exact ih hc hk
        · rw [find_set_of_ne hm]
          exact hk

/-- What is grafted is there. -/
theorem get_of_graft (h : graft s p t = some u) : get p (some u) = some s := by
  induction p generalizing t u with
  | nil =>
    rcases t with - | t
    · exact h.symm
    · cases h
  | cons n p ih =>
    rcases t with - | content | es
    · obtain ⟨c, hc, rfl⟩ := Option.map_eq_some_iff.1 h
      show get p (if n = n then some c else none) = some s
      rw [if_pos rfl]
      exact ih hc
    · cases h
    · obtain ⟨c, hc, rfl⟩ := Option.map_eq_some_iff.1 h
      show get p (find n (set n (some c) es)) = some s
      rw [find_set_self]
      exact ih hc

/-- What is grafted was not there. -/
theorem get_eq_none_of_graft (h : graft s p t = some u) : get p t = none := by
  induction p generalizing t u with
  | nil =>
    rcases t with - | t
    · rfl
    · cases h
  | cons n p ih =>
    rcases t with - | content | es
    · rfl
    · rfl
    · obtain ⟨c, hc, -⟩ := Option.map_eq_some_iff.1 h
      exact ih hc

/-- In a directory there is room for what is not there. -/
theorem exists_graft (hdir : isDir p t = true) {n : ν} (hnone : get (p ++ [n]) t = none)
    (s : DirTree ν β) : ∃ u, graft s (p ++ [n]) t = some u := by
  induction p generalizing t with
  | nil =>
    rcases t with - | content | es
    · cases hdir
    · cases hdir
    · have hfind : find n es = none := hnone
      refine ⟨dir (set n (some s) es), ?_⟩
      show (graft s [] (find n es)).map _ = _
      rw [hfind]
      rfl
  | cons m p ih =>
    rcases t with - | content | es
    · cases hdir
    · cases hdir
    · obtain ⟨c, hc⟩ := ih (t := find m es) hdir hnone
      refine ⟨dir (set m (some c) es), ?_⟩
      show (graft s (p ++ [n]) (find m es)).map _ = _
      rw [hc]
      rfl

end DirTree
