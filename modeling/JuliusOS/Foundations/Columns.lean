import JuliusOS.Foundations.TextLines

/-!
# Tables that a command prints

How Python programs take the output of `ps` or `iptables` apart: the text is stripped and split at
its newlines, the lines of the heading are dropped, and every line is stripped and split at its
spaces (`table`).

Stripping the whole text may take blank lines away at its end, and blanks from its first line, but
no line that has columns (`filterMap_table_concat`). So of a text that was printed line by line the
columns of every line are found, provided that the first line is not blank (`filterMap_table`).
-/

namespace Python

variable {s : List Char} {c : Char} {β : Type*} {f : List (List Char) → Option β} {n : ℕ}

/-- `s.split()`. -/
def words (s : List Char) : List (List Char) := (s.splitOnP isSpace).filter fun w ↦ !w.isEmpty

/-- `line.strip().split()`. -/
def columns (line : List Char) : List (List Char) := words (strip line)

/-- The columns of every line. -/
def rows (s : List Char) : List (List (List Char)) := (s.splitOn '\n').map columns

/-- `line.strip().split()` for every `line` of `s.strip().split("\n")[n:]`. -/
def table (n : ℕ) (s : List Char) : List (List (List Char)) := (rows (strip s)).drop n

/-! ### Words -/

/-- A word in front. -/
theorem words_append (hs : ∀ c ∈ s, isSpace c = false) (hne : s ≠ []) (hc : isSpace c = true)
    (t : List Char) : words (s ++ c :: t) = s :: words t := by
  rw [words, List.splitOnP_append_cons_of_forall_mem hs c hc, List.filter_cons_of_pos]
  · rfl
  · rwa [Bool.not_eq_true', List.isEmpty_eq_false_iff]

/-- A text that is one word. -/
theorem words_singleton (hs : ∀ c ∈ s, isSpace c = false) (hne : s ≠ []) : words s = [s] := by
  rw [words, List.splitOnP_eq_singleton hs, List.filter_cons_of_pos, List.filter_nil]
  rwa [Bool.not_eq_true', List.isEmpty_eq_false_iff]

/-- A word has characters, and none of them is a space. -/
theorem ne_nil_of_mem_words {w : List Char} (h : w ∈ words s) :
    w ≠ [] ∧ ∀ c ∈ w, isSpace c = false := by
  obtain ⟨hmem, hne⟩ := List.mem_filter.1 h
  rw [Bool.not_eq_true', List.isEmpty_eq_false_iff] at hne
  refine ⟨hne, ?_⟩
  clear h hne
  induction s generalizing w with
  | nil =>
    rw [List.splitOnP_nil, List.mem_singleton] at hmem
    rw [hmem]
    exact List.forall_mem_nil _
  | cons x s ih =>
    obtain ⟨head, rest, hs⟩ := List.exists_cons_of_ne_nil (List.splitOnP_ne_nil isSpace s)
    rw [List.splitOnP_cons_eq_if_modifyHead, hs] at hmem
    rw [hs] at ih
    split at hmem
    next hx =>
      rcases List.mem_cons.1 hmem with rfl | hmem
      · exact List.forall_mem_nil _
      · exact ih hmem
    next hx =>
      rcases List.mem_cons.1 hmem with rfl | hmem
      · exact List.forall_mem_cons.2 ⟨eq_false_of_ne_true hx, ih (List.mem_cons_self ..)⟩
      · exact ih (List.mem_cons_of_mem _ hmem)

/-- Words with spaces between them. -/
theorem words_intercalate {ws : List (List Char)}
    (hws : ∀ w ∈ ws, w ≠ [] ∧ ∀ c ∈ w, isSpace c = false) :
    words ([' '].intercalate ws) = ws := by
  induction ws with
  | nil => rfl
  | cons w ws ih =>
    obtain ⟨⟨hne, hw⟩, hws⟩ := List.forall_mem_cons.1 hws
    cases ws with
    | nil => rw [List.intercalate_singleton, words_singleton hw hne]
    | cons v vs =>
      rw [List.intercalate_cons_cons, List.append_assoc, List.singleton_append,
        words_append hw hne (by decide), ih hws]

theorem columns_concat (hc : isSpace c = true) (s : List Char) :
    columns (s ++ [c]) = columns s := by
  rw [columns, strip_concat s hc]
  rfl

/-! ### Stripping a table -/

/-- A character at the end goes to the last line. -/
theorem exists_splitOn_concat {sep : Char} (hc : c ≠ sep) (s : List Char) :
    ∃ init last, s.splitOn sep = init ++ [last] ∧
      (s ++ [c]).splitOn sep = init ++ [last ++ [c]] := by
  induction s with
  | nil => exact ⟨[], [], rfl, List.splitOn_eq_singleton (by simpa using hc.symm)⟩
  | cons x s ih =>
    obtain ⟨init, last, hs, hsc⟩ := ih
    rw [List.cons_append, List.splitOn_cons_eq_if_modifyHead, List.splitOn_cons_eq_if_modifyHead,
      hs, hsc]
    split
    · exact ⟨[] :: init, last, rfl, rfl⟩
    · cases init with
      | nil => exact ⟨[], x :: last, rfl, rfl⟩
      | cons l init => exact ⟨(x :: l) :: init, last, rfl, rfl⟩

/-- A space at the end of the table adds at most a blank line. -/
theorem filterMap_rows_concat (hf : f [] = none) (hc : isSpace c = true) (s : List Char) :
    ((rows (s ++ [c])).drop n).filterMap f = ((rows s).drop n).filterMap f := by
  by_cases hnl : c = '\n'
  · have hrows : rows (s ++ [c]) = rows s ++ [[]] := by
      rw [rows, hnl, List.splitOn_append_cons_self, List.map_append]
      rfl
    rw [hrows, List.drop_append, List.filterMap_append]
    have hnone :
        (([[]] : List (List (List Char))).drop (n - (rows s).length)).filterMap f = [] := by
      rw [List.filterMap_eq_nil_iff]
      intro row hrow
      rw [List.mem_singleton.1 (List.mem_of_mem_drop hrow), hf]
    rw [hnone, List.append_nil]
  · obtain ⟨init, last, hs, hsc⟩ := exists_splitOn_concat hnl s
    have hrows : rows (s ++ [c]) = rows s := by
      rw [rows, rows, hs, hsc, List.map_append, List.map_append, List.map_singleton,
        List.map_singleton, columns_concat hc]
    rw [hrows]

/-- **Stripping a table at its end takes no line with columns away.** -/
theorem filterMap_rows_rstrip (hf : f [] = none) (s : List Char) :
    ((rows (s.rdropWhile isSpace)).drop n).filterMap f = ((rows s).drop n).filterMap f := by
  induction s using List.reverseRecOn with
  | nil => rfl
  | append_singleton s c ih =>
    cases hc : isSpace c with
    | true => rw [List.rdropWhile_concat_pos _ _ _ hc, ih, filterMap_rows_concat hf hc]
    | false => rw [List.rdropWhile_concat_neg _ _ _ (by rw [hc]; exact Bool.false_ne_true)]

/-! ### A table that was printed line by line -/

/-- The text of some lines. -/
def printed (lines : List (List Char)) : List Char := lines.flatMap (· ++ ['\n'])

theorem splitOn_printed {lines : List (List Char)} (hlines : ∀ l ∈ lines, '\n' ∉ l) :
    (printed lines).splitOn '\n' = lines ++ [[]] := by
  induction lines with
  | nil => rfl
  | cons l lines ih =>
    obtain ⟨hl, hlines⟩ := List.forall_mem_cons.1 hlines
    have hcons : printed (l :: lines) = l ++ '\n' :: printed lines := by
      rw [printed, List.flatMap_cons, List.append_assoc]
      rfl
    rw [hcons, List.splitOn_append_cons_self_of_not_mem hl, ih hlines, List.cons_append]

/-- **Of a table below a heading of two lines every line is found.** -/
theorem filterMap_table {head second : List Char} {lines : List (List Char)} (hf : f [] = none)
    (hhead : ∃ c ∈ head, isSpace c = false) (hlines : ∀ l ∈ head :: second :: lines, '\n' ∉ l) :
    (table 2 (printed (head :: second :: lines))).filterMap f =
      (lines.map columns).filterMap f := by
  obtain ⟨hnl, hsecond, hrest⟩ : '\n' ∉ head ∧ '\n' ∉ second ∧ ∀ l ∈ lines, '\n' ∉ l := by
    simpa using hlines
  have hprinted :
      printed (head :: second :: lines) = head ++ '\n' :: printed (second :: lines) := by
    rw [printed, List.flatMap_cons, List.append_assoc]
    rfl
  have hne : (head.dropWhile isSpace).isEmpty = false := by
    obtain ⟨c, hc, hspace⟩ := hhead
    rw [List.isEmpty_eq_false_iff, Ne, List.dropWhile_eq_nil_iff]
    exact fun hall ↦ Bool.false_ne_true (hspace.symm.trans (hall c hc))
  have hdrop : (printed (head :: second :: lines)).dropWhile isSpace =
      head.dropWhile isSpace ++ '\n' :: printed (second :: lines) := by
    rw [hprinted, List.dropWhile_append, hne]
    rfl
  have hsplit : rows (head.dropWhile isSpace ++ '\n' :: printed (second :: lines)) =
      columns (head.dropWhile isSpace) :: columns second :: (lines.map columns ++ [[]]) := by
    rw [rows, List.splitOn_append_cons_self_of_not_mem
      (fun hmem ↦ hnl ((List.dropWhile_sublist _).subset hmem)),
      splitOn_printed (List.forall_mem_cons.2 ⟨hsecond, hrest⟩)]
    simp [columns, words, strip]
  rw [table, strip, filterMap_rows_rstrip hf, hdrop, hsplit]
  simp [hf]

end Python
