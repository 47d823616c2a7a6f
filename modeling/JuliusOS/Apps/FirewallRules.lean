import JuliusOS.Apps.Firewall
import JuliusOS.Foundations.StaleList

/-!
# The rules that the firewall deletes

The rows of the firewall app are parsed from what `iptables -L` prints, and the D key deletes by the
number that was printed. The app, and the chain that the rules are in, form a machine (`world`): a
key makes the app run its commands, which may fail; and until a list was printed for the first time
other processes may change the chain. In the chain every rule comes with an identity.

`deletesShown_iff`: the rules that are deleted are the very rules that the selected rows were parsed
from exactly if, since the last list was printed, only rules below the selected one were deleted.
-/

namespace JuliusOS.Apps.Firewall

/-- What `iptables` prints. -/
structure Iptables (ρ : Type*) where
  /-- The first line. -/
  head : List Char
  /-- The titles of the columns. -/
  titles : List Char
  /-- The line of a rule, with its number. -/
  line : ℕ → ρ → List Char
  /-- The first line is not blank. -/
  exists_mem_head : ∃ c ∈ head, Python.isSpace c = false
  /-- Everything is on a line of its own. -/
  newline_notMem : ∀ l ∈ [head, titles], '\n' ∉ l
  newline_notMem_line : ∀ n r, '\n' ∉ line n r
  /-- The number is in the first column. -/
  head?_columns : ∀ n r, (Python.columns (line n r)).head? = some (Nat.toDigits 10 n)
  /-- The number that is read from an argument. -/
  number? : List Char → Option ℕ
  /-- A number that was printed is read. -/
  number?_toDigits : ∀ n, number? (Nat.toDigits 10 n) = some n

/-- A rule of the chain, and its identity. -/
abbrev Entry (ρ : Type*) := ρ × ℕ

/-- A command that changes the chain. -/
inductive Command
  /-- `iptables -D INPUT num`. -/
  | delete (num : List Char)
  /-- `iptables -A INPUT` and so on. -/
  | append

/-- The command that a key makes the app run. -/
def command? (s : Firewall) (e : KeyDown) : Option Command :=
  match s.mode with
  | .list =>
    if e.key = .letter 'd' then (s.rules[s.view.selected]?).map fun rule ↦ .delete rule.num
    else none
  | .add => if e.key = .ret ∧ s.stage = .action then some .append else none

/-- The R key. -/
def isReload (s : Firewall) (e : KeyDown) : Bool := decide (s.mode = .list ∧ e.key = .letter 'r')

variable {ρ : Type*}

/-- A key, and what becomes of the commands. -/
structure Press (ρ : Type*) where
  down : KeyDown
  /-- A command that can do what it is told to does it. -/
  works : Bool
  /-- The rule that would be added. -/
  added : ρ
  /-- The list is printed. -/
  prints : Bool
  /-- The text of an exception. -/
  error : List ℕ

/-- What may happen. -/
inductive Label (ρ : Type*)
  | press (p : Press ρ)
  /-- Another process replaces the rules of the chain. -/
  | replaced (rules : List ρ)

/-- The app and the chain. -/
structure World (ρ : Type*) where
  app : Firewall
  /-- The `INPUT` chain. -/
  chain : List (Entry ρ)
  /-- The next identity. -/
  next : ℕ
  /-- A list was printed. -/
  loaded : Bool
  /-- The chain as it was printed last. -/
  listed : List (Entry ρ)
  /-- The places in it that the rows were parsed from. -/
  places : List ℕ
  /-- The places that rules were deleted from since. -/
  gone : List ℕ
  /-- For every rule that was deleted, the one that the selected row was parsed from, and itself. -/
  deleted : List (Option (Entry ρ) × Option (Entry ρ))

namespace World

/-- The app is started beside a chain. -/
def start (rules : List ρ) : World ρ :=
  ⟨.init, rules.zipIdx, rules.length, false, [], [], [], []⟩

end World

namespace Iptables

variable (t : Iptables ρ)

/-- The rules that are parsed from the lines of a chain, and their places. -/
def rows (chain : List (Entry ρ)) : List (Rule × ℕ) :=
  chain.zipIdx.filterMap fun r ↦
    (rule? (Python.columns (t.line (r.2 + 1) r.1.1))).map fun rule ↦ (rule, r.2)

/-- What `iptables -L INPUT -n --line-numbers` prints. -/
def listing (chain : List (Entry ρ)) : List Char :=
  Python.printed (t.head :: t.titles :: chain.zipIdx.map fun r ↦ t.line (r.2 + 1) r.1.1)

/-- The place of a number; the first rule has number 1. -/
def place? (num : List Char) : Option ℕ :=
  match t.number? num with
  | some (n + 1) => some n
  | _ => none

end Iptables

/-- What a command does to the chain. -/
inductive Effect
  | deleted (i : ℕ)
  | appended

namespace World

variable (t : Iptables ρ) (w : World ρ) (p : Press ρ)

/-- What the command of a key does, if it works. -/
def effect? : Option Effect :=
  if p.works then
    match w.app.command? p.down with
    | some (.delete num) =>
      (t.place? num).bind fun i ↦ if i < w.chain.length then some (.deleted i) else none
    | some .append => some .appended
    | none => none
  else none

/-- The chain after a key. -/
def chainAfter : List (Entry ρ) :=
  match w.effect? t p with
  | some (.deleted i) => w.chain.eraseIdx i
  | some .appended => w.chain ++ [(p.added, w.next)]
  | none => w.chain

/-- What the app is given. -/
def event : Event where
  down := p.down
  run := if (w.effect? t p).isSome then .ok () else .error p.error
  listing := if p.prints then .ok (t.listing (w.chainAfter t p)) else .error p.error

/-- The list is printed. -/
def lists : Bool := p.prints && (w.app.isReload p.down || (w.effect? t p).isSome)

/-- The rule that the selected row was parsed from. -/
def origin : Option (Entry ρ) := (w.places[w.app.view.selected]?).bind fun i ↦ w.listed[i]?

/-- The places that rules were deleted from. -/
def goneAfter : List ℕ :=
  match w.effect? t p with
  | some (.deleted i) => w.gone ++ [i]
  | _ => w.gone

/-- The rules that were deleted. -/
def deletedAfter : List (Option (Entry ρ) × Option (Entry ρ)) :=
  match w.effect? t p with
  | some (.deleted i) => w.deleted ++ [(w.origin, w.chain[i]?)]
  | _ => w.deleted

/-- A key. -/
def press : World ρ where
  app := (w.app.handleInput (w.event t p)).1
  chain := w.chainAfter t p
  next := w.next + 1
  loaded := w.loaded || w.lists t p
  listed := if w.lists t p then w.chainAfter t p else w.listed
  places := if w.lists t p then (t.rows (w.chainAfter t p)).map Prod.snd else w.places
  gone := if w.lists t p then [] else w.goneAfter t p
  deleted := w.deletedAfter t p

/-- Another process replaces the rules. Once a list was printed it does so no longer. -/
def replace (rules : List ρ) : World ρ :=
  if w.loaded then w
  else { w with chain := rules.zipIdx w.next, next := w.next + rules.length }

end World

/-- The app and the chain as a machine. -/
def world (t : Iptables ρ) : Machine (World ρ) (Label ρ) where
  Init w := ∃ rules, w = .start rules
  step w
    | .press p => some (w.press t p)
    | .replaced rules => some (w.replace rules)

/-- Every rule that was deleted is the one that the selected row was parsed from. -/
def World.DeletesShown (w : World ρ) : Prop := ∀ d ∈ w.deleted, d.1 = d.2

/-- Where the D key deletes a rule, all rules that were deleted since the last list was printed were
below it. -/
def World.Below (t : Iptables ρ) (w : World ρ) : Label ρ → Prop
  | .press p => ∀ i, w.effect? t p = some (.deleted i) → ∀ d ∈ w.gone, i < d
  | .replaced _ => True

/-! ### What is printed and parsed -/

section Parse

variable {t : Iptables ρ} {chain : List (Entry ρ)} {rule : Rule} {i : ℕ}

theorem head?_of_rule? {row : List (List Char)} (h : rule? row = some rule) :
    row.head? = some rule.num := by
  unfold rule? at h
  split at h
  · exact congrArg (some ∘ Rule.num) (Option.some.inj h)
  · exact congrArg (some ∘ Rule.num) (Option.some.inj h)
  · cases h

/-- A rule that is parsed has the number of its place. -/
theorem mem_rows (h : (rule, i) ∈ t.rows chain) :
    i < chain.length ∧ rule.num = Nat.toDigits 10 (i + 1) := by
  obtain ⟨⟨e, j⟩, hmem, hparse⟩ := List.mem_filterMap.1 h
  obtain ⟨rule', hrule, heq⟩ := Option.map_eq_some_iff.1 hparse
  obtain ⟨rfl, rfl⟩ := Prod.mk.inj heq
  refine ⟨List.snd_lt_of_mem_zipIdx hmem, ?_⟩
  have hhead := (head?_of_rule? hrule).symm.trans (t.head?_columns (j + 1) e.1)
  exact Option.some.inj hhead

/-- Every row has the number of its place. -/
theorem exists_place_of_rows {k : ℕ} (h : ((t.rows chain).map Prod.fst)[k]? = some rule) :
    ∃ i, ((t.rows chain).map Prod.snd)[k]? = some i ∧ i < chain.length ∧
      rule.num = Nat.toDigits 10 (i + 1) := by
  rw [List.getElem?_map] at h
  obtain ⟨⟨rule', i⟩, hrow, rfl⟩ := Option.map_eq_some_iff.1 h
  refine ⟨i, ?_, mem_rows (List.mem_of_getElem? hrow)⟩
  rw [List.getElem?_map, hrow]
  rfl

/-- **The rows of a list that is printed** are those of the chain. -/
theorem listed_listing (t : Iptables ρ) (chain : List (Entry ρ)) :
    listed (t.listing chain) = (t.rows chain).map Prod.fst := by
  have hlines : ∀ l ∈ t.head :: t.titles :: chain.zipIdx.map fun r ↦ t.line (r.2 + 1) r.1.1,
      '\n' ∉ l := by
    intro l hl
    rcases List.mem_cons.1 hl with rfl | hl
    · exact t.newline_notMem _ List.mem_cons_self
    rcases List.mem_cons.1 hl with rfl | hl
    · exact t.newline_notMem _ (List.mem_cons_of_mem _ List.mem_cons_self)
    obtain ⟨r, -, rfl⟩ := List.mem_map.1 hl
    exact t.newline_notMem_line _ _
  rw [listed, Iptables.listing, Python.filterMap_table rfl t.exists_mem_head hlines,
    Iptables.rows, List.map_filterMap, List.map_map, List.filterMap_map]
  refine List.filterMap_congr fun r _ ↦ ?_
  dsimp only [Function.comp]
  cases rule? (Python.columns (t.line (r.2 + 1) r.1.1)) <;> rfl

theorem place?_toDigits (t : Iptables ρ) (n : ℕ) : t.place? (Nat.toDigits 10 (n + 1)) = some n := by
  rw [Iptables.place?, t.number?_toDigits]

end Parse

/-! ### What the app does with the commands -/

section App

variable {s : Firewall} {e : Event}

/-- The rules that are loaded, if the list is printed. -/
def reloaded (s : Firewall) : CommandOutput → List Rule
  | .ok text => listed text
  | .error _ => s.rules

theorem rules_loadRules (s : Firewall) (out : CommandOutput) :
    (s.loadRules out).rules = s.reloaded out := by
  cases out <;> rfl

/-- The list is loaded after a command that works. -/
theorem rules_of_run (s : Firewall) (status : List ℕ) (e : Event) :
    (match e.run with
      | .ok () => loadRules { s with status := status } e.listing
      | .error msg => { s with status := Python.str "Error: " ++ msg }).rules =
      if e.run = .ok () then s.reloaded e.listing else s.rules := by
  cases hrun : e.run with
  | error msg => rfl
  | ok _ => exact rules_loadRules _ e.listing

/-- The rules after a key while the list is shown. -/
theorem rules_handleList (hmode : s.mode = .list) :
    (s.handleList e).1.rules =
      if s.isReload e.down = true ∨ s.command? e.down ≠ none ∧ e.run = .ok () then
        s.reloaded e.listing
      else s.rules := by
  rw [isReload, command?, hmode, handleList]
  split
  all_goals rename_i hkey
  · simp [hkey, done]
  · simp [hkey, done]
  · simpa [hkey, done] using rules_loadRules s e.listing
  · simp [hkey, done]
  · by_cases hnil : s.rules = []
    · simp [hkey, hnil, done]
    · rw [if_neg hnil]
      cases hrow : s.rules[s.view.selected]? with
      | none => simp [hkey]
      | some rule =>
        have hrun : (s.deleteRule rule.num e).rules =
            if e.run = .ok () then s.reloaded e.listing else s.rules := rules_of_run s _ e
        simpa [hkey, done] using hrun
  · rename_i hr _
    have hr : e.down.key ≠ .letter 'r' := hr
    have hd : e.down.key ≠ .letter 'd' := hkey
    simp [hr, hd, done]

/-- The rules after a key while a rule is added. -/
theorem rules_handleAdd (hmode : s.mode = .add) :
    (s.handleAdd e).rules =
      if s.isReload e.down = true ∨ s.command? e.down ≠ none ∧ e.run = .ok () then
        s.reloaded e.listing
      else s.rules := by
  rw [isReload, command?, hmode]
  by_cases hret : e.down.key = .ret
  · rw [handleAdd, hret]
    dsimp only
    rw [handleReturn]
    cases hstage : s.stage with
    | port =>
      dsimp only
      split <;> simp
    | proto => simp
    | action =>
      have hrun : (s.addRule s.portIn s.protoIn.text s.action.text e).rules =
          if e.run = .ok () then s.reloaded e.listing else s.rules := rules_of_run s _ e
      simpa using hrun
  · rw [(handleAdd_of_ne hret).1]
    simp [hret]

/-- **The rules after a key**: those that are printed, after R and after a command that works. -/
theorem rules_handleInput (s : Firewall) (e : Event) :
    (s.handleInput e).1.rules =
      if s.isReload e.down = true ∨ s.command? e.down ≠ none ∧ e.run = .ok () then
        s.reloaded e.listing
      else s.rules := by
  rw [handleInput]
  cases hmode : s.mode with
  | list => exact rules_handleList hmode
  | add => exact rules_handleAdd hmode

end App

/-! ### The rows and the chain -/

namespace World

variable {t : Iptables ρ} {w : World ρ} {p : Press ρ} {i : ℕ}

/-- What every key keeps, as long as rules are deleted from below upwards. -/
structure Consistent (t : Iptables ρ) (w : World ρ) : Prop where
  shown : w.DeletesShown
  /-- Every row has the number of the place that it was parsed from. -/
  rows : ∀ (k : ℕ) (rule : Rule), w.app.rules[k]? = some rule →
    ∃ i, w.places[k]? = some i ∧ i < w.listed.length ∧ rule.num = Nat.toDigits 10 (i + 1)
  unloaded : w.loaded = false → w.app.rules = [] ∧ w.listed = []
  tracks : StaleList.Tracks w.listed w.chain w.gone
  nodup : w.chain.Nodup
  nodup_listed : w.listed.Nodup
  lt_next : ∀ e ∈ w.chain, e.2 < w.next
  lt_next_listed : ∀ e ∈ w.listed, e.2 < w.next

/-- A command that works is a command. -/
theorem command?_ne_none (h : (w.effect? t p).isSome = true) : w.app.command? p.down ≠ none := by
  intro hnone
  rw [effect?, hnone] at h
  split at h <;> cases h

/-- The rows after a key. -/
theorem rules_press (t : Iptables ρ) (w : World ρ) (p : Press ρ) :
    (w.press t p).app.rules =
      if w.lists t p then (t.rows (w.chainAfter t p)).map Prod.fst else w.app.rules := by
  have hrun : w.app.command? p.down ≠ none ∧ (w.event t p).run = .ok () ↔
      (w.effect? t p).isSome = true := by
    cases heffect : (w.effect? t p).isSome with
    | true => simp [event, heffect, command?_ne_none heffect]
    | false => simp [event, heffect]
  have hrules := rules_handleInput w.app (w.event t p)
  have hdown : (w.event t p).down = p.down := rfl
  simp only [hdown, hrun] at hrules
  rw [press, hrules, lists]
  cases hprints : p.prints with
  | false => simp [event, hprints, reloaded]
  | true => simp [event, hprints, reloaded, listed_listing]

/-- The rule that is deleted is the one that the selected row's number stands for. -/
theorem exists_row_of_deleted (h : w.effect? t p = some (.deleted i)) :
    i < w.chain.length ∧
      ∃ rule, w.app.rules[w.app.view.selected]? = some rule ∧ t.place? rule.num = some i := by
  rw [effect?] at h
  split at h
  · cases hcommand : w.app.command? p.down with
    | none =>
      rw [hcommand] at h
      cases h
    | some command =>
      rw [hcommand] at h
      cases command with
      | append => cases h
      | delete num =>
        obtain ⟨j, hplace, hdeleted⟩ := Option.bind_eq_some_iff.1 h
        obtain ⟨hlt, heq⟩ := Option.ite_none_right_eq_some.1 hdeleted
        cases heq
        refine ⟨hlt, ?_⟩
        rw [command?] at hcommand
        split at hcommand
        · obtain ⟨-, hrow⟩ := Option.ite_none_right_eq_some.1 hcommand
          obtain ⟨rule, hrule, hnum⟩ := Option.map_eq_some_iff.1 hrow
          cases hnum
          exact ⟨rule, hrule, hplace⟩
        · obtain ⟨-, hrow⟩ := Option.ite_none_right_eq_some.1 hcommand
          cases hrow
  · cases h

/-- The selected row was parsed from the place that is deleted from. -/
theorem Consistent.origin (h : w.Consistent t) (heffect : w.effect? t p = some (.deleted i)) :
    i < w.listed.length ∧ i < w.chain.length ∧ w.origin = w.listed[i]? := by
  obtain ⟨hlt, rule, hrule, hplace⟩ := exists_row_of_deleted heffect
  obtain ⟨j, hj, hlisted, hnum⟩ := h.rows _ rule hrule
  rw [hnum, place?_toDigits] at hplace
  obtain rfl := Option.some.inj hplace
  refine ⟨hlisted, hlt, ?_⟩
  rw [World.origin, hj]
  rfl

/-- **The rule that a key deletes** is the selected one exactly if it is above those that were
deleted. -/
theorem Consistent.deletesShown_press_iff (h : w.Consistent t) :
    (w.press t p).DeletesShown ↔ w.Below t (.press p) := by
  show (∀ d ∈ w.deletedAfter t p, d.1 = d.2) ↔ _
  rw [deletedAfter, Below]
  cases heffect : w.effect? t p with
  | none =>
    refine iff_of_true h.shown fun i hi ↦ ?_
    cases hi
  | some effect =>
    cases effect with
    | appended =>
      refine iff_of_true h.shown fun i hi ↦ ?_
      cases hi
    | deleted i =>
      obtain ⟨hlisted, hchain, horigin⟩ := h.origin heffect
      have hiff := h.tracks.getElem?_eq_iff hlisted hchain
      rw [← horigin] at hiff
      constructor
      · intro hall j hj
        cases hj
        exact hiff.1 (hall _ (List.mem_append_right _ (List.mem_singleton_self _)))
      · intro hbelow d hd
        rcases List.mem_append.1 hd with hd | hd
        · exact h.shown d hd
        · rw [List.mem_singleton.1 hd]
          exact hiff.2 (hbelow i rfl)

/-- What a key leaves of the chain. -/
theorem Consistent.chainAfter (h : w.Consistent t) (hbelow : w.Below t (.press p)) :
    StaleList.Tracks w.listed (w.chainAfter t p) (w.goneAfter t p) ∧
      (w.chainAfter t p).Nodup ∧ ∀ e ∈ w.chainAfter t p, e.2 < w.next + 1 := by
  have hnext : ∀ e ∈ w.chain, e.2 < w.next + 1 := fun e he ↦ Nat.lt_succ_of_lt (h.lt_next e he)
  rw [World.chainAfter, goneAfter]
  cases heffect : w.effect? t p with
  | none => exact ⟨h.tracks, h.nodup, hnext⟩
  | some effect =>
    cases effect with
    | deleted i =>
      obtain ⟨hlisted, -, -⟩ := h.origin heffect
      exact ⟨h.tracks.eraseIdx h.nodup_listed hlisted (hbelow i heffect), h.nodup.eraseIdx i,
        fun e he ↦ hnext e (List.mem_of_mem_eraseIdx he)⟩
    | appended =>
      have hfresh {l : List (Entry ρ)} (hl : ∀ e ∈ l, e.2 < w.next) : (p.added, w.next) ∉ l :=
        fun hmem ↦ Nat.lt_irrefl _ (hl _ hmem)
      refine ⟨h.tracks.concat (hfresh h.lt_next_listed), ?_, fun e he ↦ ?_⟩
      · rw [List.nodup_append]
        refine ⟨h.nodup, List.nodup_singleton _, fun e he f hf ↦ ?_⟩
        rw [List.mem_singleton.1 hf]
        exact fun heq ↦ hfresh h.lt_next (heq ▸ he)
      · rcases List.mem_append.1 he with he | he
        · exact hnext e he
        · rw [List.mem_singleton.1 he]
          exact Nat.lt_succ_self _

/-- **A key that deletes above what was deleted keeps everything right.** -/
theorem Consistent.press (h : w.Consistent t) (hbelow : w.Below t (.press p)) :
    (w.press t p).Consistent t := by
  obtain ⟨htracks, hnodup, hnext⟩ := h.chainAfter hbelow
  have hrules := rules_press t w p
  cases hlists : w.lists t p with
  | true =>
    rw [hlists, if_pos rfl] at hrules
    have hlisted : (w.press t p).listed = w.chainAfter t p := if_pos hlists
    have hplaces : (w.press t p).places = (t.rows (w.chainAfter t p)).map Prod.snd := if_pos hlists
    have hgone : (w.press t p).gone = [] := if_pos hlists
    refine ⟨h.deletesShown_press_iff.2 hbelow, fun k rule hrule ↦ ?_, fun hunloaded ↦ ?_, ?_,
      hnodup, hlisted ▸ hnodup, hnext, hlisted ▸ hnext⟩
    · rw [hplaces, hlisted]
      exact exists_place_of_rows (hrules ▸ hrule)
    · have hloaded : (w.press t p).loaded = true := by
        rw [World.press]
        dsimp only
        rw [hlists, Bool.or_true]
      cases hloaded.symm.trans hunloaded
    · rw [hlisted, hgone]
      exact StaleList.Tracks.refl _
  | false =>
    rw [hlists, if_neg Bool.false_ne_true] at hrules
    have hne : ¬ w.lists t p = true := by
      rw [hlists]
      exact Bool.false_ne_true
    have hlisted : (w.press t p).listed = w.listed := if_neg hne
    have hplaces : (w.press t p).places = w.places := if_neg hne
    have hgone : (w.press t p).gone = w.goneAfter t p := if_neg hne
    refine ⟨h.deletesShown_press_iff.2 hbelow, fun k rule hrule ↦ ?_, fun hunloaded ↦ ?_, ?_,
      hnodup, hlisted ▸ h.nodup_listed, hnext,
      hlisted ▸ fun e he ↦ Nat.lt_succ_of_lt (h.lt_next_listed e he)⟩
    · rw [hplaces, hlisted]
      exact h.rows k rule (hrules ▸ hrule)
    · have hloaded : (w.loaded || w.lists t p) = false := hunloaded
      rw [hlists, Bool.or_false] at hloaded
      rw [hrules, hlisted]
      exact h.unloaded hloaded
    · rw [hlisted, hgone]
      exact htracks

/-- Rules that are numbered in turn are different entries. -/
theorem nodup_zipIdx (rules : List ρ) (n : ℕ) : (rules.zipIdx n).Nodup := by
  refine List.Nodup.of_map Prod.snd ?_
  rw [List.zipIdx_map_snd]
  exact List.nodup_range'

/-- Before a list was printed, other processes may do as they like. -/
theorem Consistent.replace (h : w.Consistent t) (rules : List ρ) :
    (w.replace rules).Consistent t := by
  rw [World.replace]
  split
  · exact h
  · rename_i hloaded
    have hlisted := (h.unloaded (eq_false_of_ne_true hloaded)).2
    refine ⟨h.shown, h.rows, h.unloaded, ?_, nodup_zipIdx rules w.next, h.nodup_listed,
      fun e he ↦ ?_, fun e he ↦ Nat.lt_add_right _ (h.lt_next_listed e he)⟩
    · dsimp only
      rw [hlisted]
      exact StaleList.Tracks.nil _ _
    · exact List.snd_lt_add_of_mem_zipIdx he

theorem consistent_start (t : Iptables ρ) (rules : List ρ) : (start rules).Consistent t where
  shown := fun _ hd ↦ absurd hd List.not_mem_nil
  rows := fun _ _ hrule ↦ absurd (List.mem_of_getElem? hrule) List.not_mem_nil
  unloaded := fun _ ↦ ⟨rfl, rfl⟩
  tracks := StaleList.Tracks.nil _ _
  nodup := nodup_zipIdx rules 0
  nodup_listed := List.nodup_nil
  lt_next := fun _ he ↦ List.snd_lt_of_mem_zipIdx he
  lt_next_listed := fun _ he ↦ absurd he List.not_mem_nil

end World

/-- **When the firewall deletes the rules that it shows.** -/
theorem deletesShown_iff (t : Iptables ρ) (rules : List ρ) (ls : List (Label ρ)) :
    (world t).Guarded (fun w l ↦ w.Below t l) (.start rules) ls ↔
      ∀ n u, (world t).run (.start rules) (ls.take n) = some u → u.DeletesShown := by
  have htotal (w : World ρ) (l : Label ρ) : ∃ w', (world t).step w l = some w' := by
    cases l <;> exact ⟨_, rfl⟩
  obtain ⟨u, hrun⟩ := Machine.exists_run_of_total htotal (.start rules) ls
  refine Machine.guarded_iff_of_invariant (I := World.DeletesShown) (K := World.Consistent t)
    (fun _ h ↦ h.shown) ?_ ?_ (World.consistent_start t rules) hrun
  · intro w l w' h hbelow hstep
    cases l with
    | press p =>
      obtain rfl := Option.some.inj hstep
      exact h.press hbelow
    | replaced rules =>
      obtain rfl := Option.some.inj hstep
      exact h.replace rules
  · intro w l w' h hnot hstep
    cases l with
    | press p =>
      obtain rfl := Option.some.inj hstep
      exact mt h.deletesShown_press_iff.1 hnot
    | replaced rules => exact absurd trivial hnot

/-! ### A list that was not printed -/

/-- A line with a number, a target, a protocol, no options and a source. -/
def plainLine (n : ℕ) (a : Action) : List Char :=
  Nat.toDigits 10 n ++ ' ' :: (if a = .accept then 'A' else 'D') :: [' ', 't', ' ', '-', ' ', 's']

theorem isSpace_of_mem_toDigits {n : ℕ} {c : Char} (hc : c ∈ Nat.toDigits 10 n) :
    Python.isSpace c = false := (Python.isDigit_ne (Python.isDigit_of_mem_toDigits hc)).1

theorem head?_columns_plainLine (n : ℕ) (a : Action) :
    (Python.columns (plainLine n a)).head? = some (Nat.toDigits 10 n) := by
  have hne : Nat.toDigits 10 n ≠ [] := Nat.toDigits_ne_nil
  have hstrip : Python.strip (plainLine n a) = plainLine n a := by
    refine Python.strip_of_ends (fun c hc ↦ ?_) fun c hc ↦ ?_
    · rw [plainLine, List.head?_append_of_ne_nil _ hne] at hc
      exact isSpace_of_mem_toDigits (List.mem_of_mem_head? hc)
    · have hlast : (plainLine n a).getLast? = some 's' := by simp [plainLine]
      rw [hlast] at hc
      cases hc
      decide
  rw [Python.columns, hstrip, plainLine,
    Python.words_append (fun c hc ↦ isSpace_of_mem_toDigits hc) hne (by decide)]
  rfl

theorem newline_notMem_plainLine (n : ℕ) (a : Action) : '\n' ∉ plainLine n a := by
  have hdigits : '\n' ∉ Nat.toDigits 10 n := fun hmem ↦ by
    cases (isSpace_of_mem_toDigits hmem).symm.trans rfl
  cases a <;> simp [plainLine, hdigits]

theorem newline_notMem_plainHead : ∀ l ∈ [['C'], ['n']], '\n' ∉ l := by simp

theorem exists_mem_plainHead : ∃ c ∈ ['C'], Python.isSpace c = false :=
  ⟨'C', List.mem_singleton_self _, by decide⟩

/-- An `iptables` that prints as little as it may. -/
def plainTables : Iptables Action where
  head := ['C']
  titles := ['n']
  line := plainLine
  exists_mem_head := exists_mem_plainHead
  newline_notMem := newline_notMem_plainHead
  newline_notMem_line := newline_notMem_plainLine
  head?_columns := head?_columns_plainLine
  number? := Python.nat?
  number?_toDigits := Python.nat?_toDigits

/-- A key, where every command works but the list is printed or not. -/
def plainPress (c : Char) (prints : Bool) : Label Action :=
  .press ⟨.ofKey (.letter c), true, .accept, prints, []⟩

/-- The list is loaded, and the first rule deleted twice without a new one. -/
def deletedTwice : List (Label Action) :=
  [plainPress 'r' true, plainPress 'd' false, plainPress 'd' false]

/-- The second time the rule below it is deleted. -/
theorem not_deletesShown_twice :
    ¬ ∀ u, (world plainTables).run (.start [.accept, .drop]) deletedTwice = some u →
      u.DeletesShown := by
  have hdeleted : ((world plainTables).run (.start [.accept, .drop]) deletedTwice).map
      World.deleted = some [(some (.accept, 0), some (.accept, 0)),
        (some (.accept, 0), some (.drop, 1))] := by decide
  obtain ⟨u, hrun, hu⟩ := Option.map_eq_some_iff.1 hdeleted
  intro h
  have hshown := h u hrun
  rw [World.DeletesShown, hu] at hshown
  have hsecond := hshown (some (.accept, 0), some (.drop, 1)) (by simp)
  cases hsecond

end JuliusOS.Apps.Firewall
