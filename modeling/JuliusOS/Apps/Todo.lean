import JuliusOS.Apps.Keys
import JuliusOS.Foundations.FilteredList

/-!
# The todo list

`src/apps/todo/todo.py`: tasks, a filter, and a list of the tasks that pass the filter. The rows of
that list are the tasks themselves, so the return key changes the very task of the selected row; the
D key removes the first task that is equal to it.

* `selects_iff`: when a row goes on being selected;
* `rowShown_iff`: when it goes on being drawn;
* `handlesRow_iff`: when the D key deletes the task that is selected.
-/

namespace JuliusOS.Apps

/-- A task. -/
structure Task where
  /-- `text`. -/
  text : List ℕ
  /-- `done`. -/
  done : Bool
deriving DecidableEq

/-- `task["done"] = not task["done"]`. -/
def Task.toggle (t : Task) : Task := { t with done := !t.done }

namespace Todo

/-- The values of `filter`. -/
inductive Filter
  | all
  | pending
  | done
deriving DecidableEq

/-- The tasks that a filter lets through. -/
def Filter.shows : Filter → Task → Bool
  | .all, _ => true
  | .pending, t => !t.done
  | .done, t => t.done

/-- `cycle[self.filter]`. -/
def Filter.cycle : Filter → Filter
  | .all => .pending
  | .pending => .done
  | .done => .all

/-- The values of `mode`. -/
inductive Mode
  | list
  | add
deriving DecidableEq

end Todo

/-- A `Todo`. `selected` and `scroll` are the view. -/
structure Todo where
  tasks : List Task
  view : ListView
  mode : Todo.Mode
  input : List ℕ
  filter : Todo.Filter
deriving DecidableEq

namespace Todo

/-- `__init__`, with the tasks that `load` returns. -/
def init (tasks : List Task) : Todo := ⟨tasks, .top, .list, [], .all⟩

variable (s : Todo)

/-- `filtered`. -/
def filtered : List Task := s.tasks.filter s.filter.shows

/-- The place in `tasks` of every task that is shown. -/
def places : List ℕ := FilteredList.places s.filter.shows s.tasks

/-- The return key: `tasks[self.selected]["done"] = not tasks[self.selected]["done"]`. -/
def handleReturn (saves : Bool) : Todo × Bool :=
  if s.filtered = [] then done s
  else
    match s.places[s.view.selected]? with
    | some i => saved saves { s with tasks := s.tasks.modify i Task.toggle }
    | none => (s, true)

/-- The D key: `self.tasks.remove(tasks[self.selected])`. -/
def handleDelete (saves : Bool) : Todo × Bool :=
  if s.filtered = [] then done s
  else
    match s.filtered[s.view.selected]? with
    | some t => saved saves { s with tasks := s.tasks.erase t, view := s.view.back }
    | none => (s, true)

/-- `handle_input` where the list is shown. -/
def handleList (saves : Bool) (e : KeyDown) : Todo × Bool :=
  match e.key with
  | .down => done { s with view := s.view.down 10 s.filtered.length }
  | .up => done { s with view := s.view.up }
  | .letter 'n' => done { s with mode := .add, input := [] }
  | .ret => s.handleReturn saves
  | .letter 'd' => s.handleDelete saves
  | .letter 'f' => done { s with filter := s.filter.cycle, view := .top }
  | _ => done s

/-- `handle_input` where a task is added. -/
def handleAdd (saves : Bool) (e : KeyDown) : Todo × Bool :=
  if e.key = .ret ∧ s.input ≠ [] then
    let s' := { s with tasks := s.tasks ++ [⟨s.input, false⟩] }
    if saves then done { s' with mode := .list, input := [] } else (s', true)
  else
    match e.key with
    | .backspace => done { s with input := s.input.dropLast }
    | .escape => done { s with mode := .list, input := [] }
    | _ => done { s with input := s.input ++ e.unicode }

/-- `handle_input`. -/
def handleInput (saves : Bool) (e : KeyDown) : Todo × Bool :=
  match s.mode with
  | .list => s.handleList saves e
  | .add => s.handleAdd saves e

/-! ### The rows -/

variable {s} {e : KeyDown} {i : ℕ}

/-- Where the selected row is. -/
theorem exists_row (h : s.view.selected < s.filtered.length) :
    ∃ pre t post, s.tasks = pre ++ t :: post ∧ s.places[s.view.selected]? = some pre.length ∧
      s.filtered[s.view.selected]? = some t ∧ s.filter.shows t = true := by
  obtain ⟨i, hi⟩ := FilteredList.exists_place h
  obtain ⟨pre, t, post, htasks, rfl, hk, ht⟩ := FilteredList.exists_split hi
  refine ⟨pre, t, post, htasks, hi, ?_, ht⟩
  rw [filtered, htasks, List.filter_append, List.filter_cons, if_pos ht, ← hk]
  simp

/-- A row is removed with the task that is removed. -/
theorem length_filtered_erase {t : Task} (h : s.filtered[s.view.selected]? = some t) :
    ((s.tasks.erase t).filter s.filter.shows).length = s.filtered.length - 1 := by
  rw [← List.erase_filter]
  exact List.length_erase_of_mem (List.mem_of_getElem? h)

/-- A task that is toggled is shown no longer, unless all are. -/
theorem length_filtered_toggle {pre post : List Task} {t : Task}
    (htasks : s.tasks = pre ++ t :: post) (ht : s.filter.shows t = true) :
    ((s.tasks.modify pre.length Task.toggle).filter s.filter.shows).length =
      if s.filter = .all then s.filtered.length else s.filtered.length - 1 := by
  have hmodify : s.tasks.modify pre.length Task.toggle = pre ++ t.toggle :: post := by
    rw [htasks, List.modify_eq_take_cons_drop (by simp)]
    simp
  have htoggle : s.filter.shows t.toggle = decide (s.filter = .all) := by
    cases hfilter : s.filter with
    | all => rfl
    | pending | done =>
      rw [hfilter] at ht
      simpa [Filter.shows, Task.toggle] using ht
  have hlen (u : Task) : ((pre ++ u :: post).filter s.filter.shows).length =
      (pre.filter s.filter.shows).length + (if s.filter.shows u then 1 else 0) +
        (post.filter s.filter.shows).length := by
    rw [List.filter_append, List.filter_cons, List.length_append, Nat.add_assoc]
    split
    · rw [List.length_cons, Nat.add_comm 1]
    · rw [Nat.zero_add]
  rw [hmodify, filtered, htasks, hlen, hlen, ht, htoggle, if_pos rfl]
  by_cases hall : s.filter = .all
  · rw [decide_eq_true hall, if_pos rfl, if_pos hall]
  · rw [decide_eq_false hall, if_neg Bool.false_ne_true, if_neg hall]
    omega

/-! ### The selection stays valid -/

/-- The selected row is one of those that are shown, or the first. -/
def RowValid (s : Todo) : Prop := s.view.Valid s.filtered.length

/-- In a list that is shown and not empty, a row is selected. -/
def Selects (s : Todo) : Prop :=
  s.mode = .list → s.filtered ≠ [] → s.view.selected < s.filtered.length

/-- The task that the return key toggles goes on being shown, or is not the last of several. -/
def Follows (s : Todo) (e : KeyDown) : Prop :=
  s.mode = .list → e.key = .ret →
    s.filter = .all ∨ s.view.selected = 0 ∨ s.view.selected + 1 < s.filtered.length

theorem RowValid.selects_lt (h : s.RowValid) (hne : s.filtered ≠ []) :
    s.view.selected < s.filtered.length := h.lt (List.length_pos_iff.2 hne)

/-- The return key. -/
theorem handleReturn_spec (h : s.RowValid) :
    (s.handleReturn true).2 = false ∧ (s.handleReturn true).1.mode = s.mode ∧
      (s.handleReturn true).1.view = s.view ∧
      (s.handleReturn true).1.filtered.length =
        if s.filter = .all then s.filtered.length else s.filtered.length - 1 := by
  unfold handleReturn
  by_cases hnil : s.filtered = []
  · rw [if_pos hnil]
    refine ⟨rfl, rfl, rfl, ?_⟩
    rw [done, hnil]
    split <;> rfl
  · obtain ⟨pre, t, post, htasks, hplace, -, ht⟩ := exists_row (h.selects_lt hnil)
    rw [if_neg hnil, hplace]
    exact ⟨rfl, rfl, rfl, length_filtered_toggle htasks ht⟩

/-- The D key. -/
theorem handleDelete_spec (h : s.RowValid) :
    (s.handleDelete true).2 = false ∧ RowValid (s.handleDelete true).1 := by
  unfold handleDelete
  by_cases hnil : s.filtered = []
  · rw [if_pos hnil]
    exact ⟨rfl, h⟩
  · obtain ⟨-, t, -, -, -, hrow, -⟩ := exists_row (h.selects_lt hnil)
    rw [if_neg hnil, hrow]
    refine ⟨rfl, ?_⟩
    show s.view.back.Valid ((s.tasks.erase t).filter s.filter.shows).length
    rw [length_filtered_erase hrow]
    exact h.back

/-- A task that is added is shown below the others, or not at all. -/
theorem RowValid.add (h : s.RowValid) (t : Task) :
    s.view.Valid ((s.tasks ++ [t]).filter s.filter.shows).length := by
  refine h.mono ?_
  rw [List.filter_append, List.length_append]
  exact Nat.le_add_right _ _

theorem RowValid.handleAdd (h : s.RowValid) (e : KeyDown) :
    (s.handleAdd true e).2 = false ∧ RowValid (s.handleAdd true e).1 := by
  unfold Todo.handleAdd
  split
  · exact ⟨rfl, h.add ⟨s.input, false⟩⟩
  · split <;> exact ⟨rfl, h⟩

/-- **A key that follows the list leaves a row selected, and raises nothing.** -/
theorem RowValid.handleInput (h : s.RowValid) (hok : s.Follows e) :
    (s.handleInput true e).2 = false ∧ RowValid (s.handleInput true e).1 := by
  unfold Todo.handleInput
  cases hmode : s.mode with
  | add => exact h.handleAdd e
  | list =>
    dsimp only
    unfold handleList
    split
    · exact ⟨rfl, h.down⟩
    · exact ⟨rfl, h.up⟩
    · exact ⟨rfl, h⟩
    · rename_i hret
      obtain ⟨hraise, -, hview, hlen⟩ := handleReturn_spec h
      refine ⟨hraise, ?_⟩
      rw [RowValid, hview, hlen]
      have hvalid : s.view.selected = 0 ∨ s.view.selected < s.filtered.length := h
      rcases hok hmode hret with hall | hzero | hlt
      · rw [if_pos hall]
        exact h
      · exact .inl hzero
      · right
        split <;> omega
    · exact handleDelete_spec h
    · exact ⟨rfl, ListView.valid_top _⟩
    · exact ⟨rfl, h⟩

/-- **Any other key leaves a list in which no row is selected.** -/
theorem RowValid.not_selects (h : s.RowValid) (hnot : ¬ s.Follows e) :
    ¬ Selects (s.handleInput true e).1 := by
  obtain ⟨hmode, hnot⟩ := Classical.not_imp.1 hnot
  obtain ⟨hret, hnot⟩ := Classical.not_imp.1 hnot
  obtain ⟨hall, hnot⟩ := not_or.1 hnot
  obtain ⟨hzero, hlast⟩ := not_or.1 hnot
  have hreturn : s.handleInput true e = s.handleReturn true := by
    rw [Todo.handleInput, hmode]
    dsimp only
    rw [handleList, hret]
  obtain ⟨-, hmode', hview, hlen⟩ := handleReturn_spec h
  have hvalid : s.view.selected = 0 ∨ s.view.selected < s.filtered.length := h
  rw [if_neg hall] at hlen
  intro hselects
  rw [hreturn] at hselects
  have hne : (s.handleReturn true).1.filtered ≠ [] := by
    rw [← List.length_pos_iff, hlen]
    omega
  have hlt := hselects (hmode'.trans hmode) hne
  rw [hview, hlen] at hlt
  omega

/-- The app from `__init__` on, where the file can always be written. -/
def keys : Machine (Calls.State Todo) KeyDown :=
  Calls.machine (fun s ↦ ∃ tasks, s = init tasks) fun s e ↦ s.handleInput true e

theorem selects_iff (tasks : List Task) (es : List KeyDown) :
    keys.Guarded (fun s e ↦ s.object.Follows e) (Calls.start (init tasks)) es ↔
      ∀ n u, keys.run (Calls.start (init tasks)) (es.take n) = some u →
        u.raised = false ∧ u.object.Selects := by
  refine Calls.guarded_iff (I := Selects) (K := RowValid) ?_ ?_ ?_ ?_ es
  · intro s h _ hne
    exact h.selects_lt hne
  · intro s e h hok
    exact h.handleInput hok
  · intro s e h hnot
    exact .inr (h.not_selects hnot)
  · exact ListView.valid_top _

/-! ### The selected row stays on the screen -/

/-- The task that the D key deletes is not at the upper end of a page that is not the first. -/
def KeepsRow (s : Todo) (e : KeyDown) : Prop :=
  s.mode = .list → e.key = .letter 'd' → s.view.selected < s.filtered.length →
    s.view.scroll = 0 ∨ s.view.scroll < s.view.selected

theorem handleReturn_view (saves : Bool) : (s.handleReturn saves).1.view = s.view := by
  unfold handleReturn
  split
  · rfl
  · split <;> rfl

/-- The D key, where it deletes a task. -/
theorem handleDelete_eq {t : Task} (h : s.filtered[s.view.selected]? = some t) (saves : Bool) :
    s.handleDelete saves =
      saved saves { s with tasks := s.tasks.erase t, view := s.view.back } := by
  have hne : s.filtered ≠ [] := List.ne_nil_of_mem (List.mem_of_getElem? h)
  rw [handleDelete, if_neg hne, h]

/-- Where it deletes none, it does nothing. -/
theorem handleDelete_fst (h : s.filtered[s.view.selected]? = none) (saves : Bool) :
    (s.handleDelete saves).1 = s := by
  rw [handleDelete, h]
  split <;> rfl

theorem onScreen_handleInput (h : s.view.OnScreen 10) (saves : Bool) (hok : s.KeepsRow e) :
    (s.handleInput saves e).1.view.OnScreen 10 := by
  unfold Todo.handleInput
  cases hmode : s.mode with
  | add =>
    dsimp only
    unfold Todo.handleAdd
    split
    · dsimp only
      split <;> exact h
    · split <;> exact h
  | list =>
    dsimp only
    unfold handleList
    split
    · exact h.down _
    · exact h.up
    · exact h
    · rw [handleReturn_view]
      exact h
    · rename_i hdelete
      cases hrow : s.filtered[s.view.selected]? with
      | none =>
        rw [handleDelete_fst hrow]
        exact h
      | some t =>
        rw [handleDelete_eq hrow]
        exact (ListView.onScreen_back_iff h).2
          (hok hmode hdelete (List.getElem?_eq_some_iff.1 hrow).1)
    · exact ListView.onScreen_top (by decide)
    · exact h

/-- In a list that is shown and not empty, the selected row is one of the ten that are drawn. -/
def RowShown (s : Todo) : Prop := s.mode = .list → s.filtered ≠ [] → s.view.OnScreen 10

theorem not_rowShown (h : s.view.OnScreen 10) (saves : Bool) (hnot : ¬ s.KeepsRow e) :
    ¬ RowShown (s.handleInput saves e).1 := by
  obtain ⟨hmode, hnot⟩ := Classical.not_imp.1 hnot
  obtain ⟨hdelete, hnot⟩ := Classical.not_imp.1 hnot
  obtain ⟨hlt, hnot⟩ := Classical.not_imp.1 hnot
  have hrow := List.getElem?_eq_getElem hlt
  have hcall : s.handleInput saves e = s.handleDelete saves := by
    rw [Todo.handleInput, hmode]
    dsimp only
    rw [handleList, hdelete]
    rfl
  rw [hcall, handleDelete_eq hrow]
  have hback : ¬ s.view.back.OnScreen 10 := mt (ListView.onScreen_back_iff h).1 hnot
  have hne : (s.tasks.erase s.filtered[s.view.selected]).filter s.filter.shows ≠ [] := by
    rw [← List.length_pos_iff, length_filtered_erase hrow]
    exact ListView.pos_of_not_back h hlt hback
  exact fun hshown ↦ hback (hshown hmode hne)

/-- The app from `__init__` on. A key comes with whether the file can be written. -/
def presses : Machine (Calls.State Todo) (KeyDown × Bool) :=
  Calls.machine (fun s ↦ ∃ tasks, s = init tasks) fun s p ↦ s.handleInput p.2 p.1

/-- The key keeps the selected row. -/
def Keeps (s : Todo) (p : KeyDown × Bool) : Prop := s.KeepsRow p.1

theorem rowShown_iff (tasks : List Task) (ps : List (KeyDown × Bool)) :
    presses.Guarded (fun s p ↦ s.object.Keeps p) (Calls.start (init tasks)) ps ↔
      ∀ n u, presses.run (Calls.start (init tasks)) (ps.take n) = some u → u.object.RowShown := by
  refine Calls.guarded_object_iff (I := RowShown) (K := fun s ↦ s.view.OnScreen 10) ?_ ?_ ?_
    (ListView.onScreen_top (by decide)) ps
  · intro s h _ _
    exact h
  · intro s p h hok
    exact onScreen_handleInput h p.2 hok
  · intro s p h hnot
    exact not_rowShown h p.2 hnot

/-! ### The task that is selected -/

/-- The D key deletes the very task of the selected row, and the return key toggles it. -/
def HandlesRow (s : Todo) (saves : Bool) : Prop :=
  ∀ i, s.places[s.view.selected]? = some i →
    (∀ u, (s.handleInput saves ⟨.letter 'd', u⟩).1.tasks = s.tasks.eraseIdx i) ∧
      ∀ u, (s.handleInput saves ⟨.ret, u⟩).1.tasks = s.tasks.modify i Task.toggle

/-- From the first task that is equal to the selected one up to it, all tasks are. -/
def EqualUpTo (s : Todo) : Prop :=
  ∀ i t, s.places[s.view.selected]? = some i → s.tasks[i]? = some t →
    ∀ k, s.tasks.idxOf t ≤ k → k ≤ i → s.tasks[k]? = some t

/-- **When the D key deletes the task that is selected.** -/
theorem handlesRow_iff (s : Todo) (hmode : s.mode = .list) (saves : Bool) :
    s.HandlesRow saves ↔ s.EqualUpTo := by
  have hkey (e : KeyDown) : s.handleInput saves e = s.handleList saves e := by
    rw [handleInput, hmode]
  unfold HandlesRow EqualUpTo
  refine forall_congr' fun i ↦ ?_
  cases hplace : s.places[s.view.selected]? with
  | none =>
    refine iff_of_true (fun h ↦ ?_) fun t h ↦ ?_
    · cases h
    · cases h
  | some j =>
    have hlt : s.view.selected < s.filtered.length := by
      have hlt := (List.getElem?_eq_some_iff.1 hplace).1
      rwa [places, FilteredList.length_places] at hlt
    obtain ⟨pre, t, post, htasks, hpre, hrow, -⟩ := exists_row hlt
    obtain rfl : j = pre.length := Option.some.inj (hplace.symm.trans hpre)
    have htask : s.tasks[pre.length]? = some t := by simp [htasks]
    have hdelete (u : List ℕ) :
        (s.handleInput saves ⟨.letter 'd', u⟩).1.tasks = s.tasks.erase t := by
      have hlist : s.handleList saves ⟨.letter 'd', u⟩ = s.handleDelete saves := rfl
      rw [hkey, hlist, handleDelete_eq hrow]
      rfl
    have hreturn (u : List ℕ) :
        (s.handleInput saves ⟨.ret, u⟩).1.tasks = s.tasks.modify pre.length Task.toggle := by
      have hne : s.filtered ≠ [] := List.ne_nil_of_mem (List.mem_of_getElem? hrow)
      have hlist : s.handleList saves ⟨.ret, u⟩ = s.handleReturn saves := rfl
      rw [hkey, hlist, handleReturn, if_neg hne, hplace]
      rfl
    have hiff := FilteredList.erase_eq_eraseIdx_iff htask
    constructor
    · rintro h t' hi ht'
      obtain rfl := Option.some.inj hi
      obtain rfl := Option.some.inj (htask.symm.trans ht')
      exact hiff.1 ((hdelete []).symm.trans ((h rfl).1 []))
    · rintro h hi
      obtain rfl := Option.some.inj hi
      exact ⟨fun u ↦ (hdelete u).trans (hiff.2 (h t rfl htask)), hreturn⟩

/-- The third of three tasks, the first of which is equal to it. -/
def thirdOfThree : Todo :=
  { init [⟨[97], false⟩, ⟨[98], false⟩, ⟨[97], false⟩] with view := ⟨2, 0⟩ }

/-- The second of them is deleted and toggled as it should be. -/
theorem handlesRow_second : HandlesRow { thirdOfThree with view := ⟨1, 0⟩ } true := by
  refine (handlesRow_iff _ rfl true).2 fun i t hi ht k hk hki ↦ ?_
  obtain rfl : 1 = i := Option.some.inj hi
  obtain rfl : (⟨[98], false⟩ : Task) = t := Option.some.inj ht
  obtain rfl : k = 1 := Nat.le_antisymm hki hk
  rfl

/-- For the third the first is deleted. -/
theorem not_handlesRow_third : ¬ HandlesRow thirdOfThree true := by
  intro h
  have hdelete := (h 2 rfl).1 []
  exact absurd hdelete (by decide)

end Todo

end JuliusOS.Apps
