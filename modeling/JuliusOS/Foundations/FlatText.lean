import Mathlib.Data.List.DropRight
import Mathlib.Data.List.TakeWhile

/-!
# A text with a cursor

A text is a list of characters, one of them the newline, and the cursor is an offset into it. The
line of the cursor is what lies between the newlines around it, and its column is how far the line's
start is behind.

The same text as lines is `place pre line post x`: the lines before the cursor's, the cursor's line,
the lines behind it, and the column. For every operation there is an equation that says what it does
to this view, which is all that an editor of lines needs.
-/

namespace FlatText

variable {α : Type*} (nl : α)

/-- A text and an offset into it. -/
@[ext] structure Flat (α : Type*) where
  /-- The text. -/
  text : List α
  /-- The place of the cursor. -/
  offset : ℕ

namespace Flat

variable (s : Flat α)

/-- Insert a character. -/
def insert (c : α) : Flat α := ⟨s.text.take s.offset ++ c :: s.text.drop s.offset, s.offset + 1⟩

/-- Delete the character in front of the cursor, if there is one. -/
def deleteBack : Flat α :=
  if s.offset = 0 then s
  else ⟨s.text.take (s.offset - 1) ++ s.text.drop s.offset, s.offset - 1⟩

variable [DecidableEq α]

/-- The part of the cursor's line in front of the cursor. -/
def front : List α := (s.text.take s.offset).rtakeWhile (· ≠ nl)

/-- The part of the cursor's line behind the cursor. -/
def rest : List α := (s.text.drop s.offset).takeWhile (· ≠ nl)

/-- Go back by one within the line. -/
def left : Flat α := if s.front nl = [] then s else { s with offset := s.offset - 1 }

/-- Go on by one within the line. -/
def right : Flat α := if s.rest nl = [] then s else { s with offset := s.offset + 1 }

/-- Go to the line above, to the same column or to its end. -/
def up : Flat α :=
  let start := s.offset - (s.front nl).length
  if start = 0 then s
  else
    let above := ((s.text.take (start - 1)).rtakeWhile (· ≠ nl)).length
    { s with offset := start - 1 - above + min (s.front nl).length above }

/-- Go to the line below, to the same column or to its end. -/
def down : Flat α :=
  let stop := s.offset + (s.rest nl).length
  if stop = s.text.length then s
  else
    let below := ((s.text.drop (stop + 1)).takeWhile (· ≠ nl)).length
    { s with offset := stop + 1 + min (s.front nl).length below }

end Flat

/-! ### Lines -/

/-- The text of the lines in front of a line. -/
def before (pre : List (List α)) : List α := pre.flatMap (· ++ [nl])

/-- The text of the lines behind a line. -/
def after (post : List (List α)) : List α := post.flatMap (nl :: ·)

/-- The text of some lines with the cursor in column `x` of one of them. -/
def place (pre : List (List α)) (line : List α) (post : List (List α)) (x : ℕ) : Flat α :=
  ⟨before nl pre ++ line ++ after nl post, (before nl pre).length + x⟩

variable {nl} {pre post : List (List α)} {line l : List α} {x : ℕ}

@[simp] theorem before_nil : before nl [] = [] := rfl

theorem before_concat (pre : List (List α)) (l : List α) :
    before nl (pre ++ [l]) = before nl pre ++ l ++ [nl] := by
  simp [before]

theorem after_cons (l : List α) (post : List (List α)) :
    after nl (l :: post) = nl :: l ++ after nl post := rfl

/-- Lines joined with newlines. -/
theorem intercalate_eq (pre : List (List α)) (line : List α) (post : List (List α)) :
    [nl].intercalate (pre ++ line :: post) = before nl pre ++ line ++ after nl post := by
  induction pre with
  | nil =>
    induction post generalizing line with
    | nil => simp [after]
    | cons l post ih =>
      rw [List.nil_append, List.intercalate_cons_cons, ← List.nil_append (l :: post), ih]
      simp [after_cons]
  | cons l pre ih =>
    rw [List.cons_append, List.intercalate_cons_of_ne_nil (by simp), ih]
    simp [before]

/-- The lines of a text contain no newline. -/
theorem notMem_of_mem_splitOn [DecidableEq α] {text : List α} (hl : l ∈ text.splitOn nl) :
    nl ∉ l := by
  induction text generalizing l with
  | nil => exact List.mem_singleton.1 hl ▸ List.not_mem_nil
  | cons c text ih =>
    rw [List.splitOn_cons_eq_if_modifyHead] at hl
    obtain ⟨l₀, ls, hls⟩ := List.exists_cons_of_ne_nil (List.splitOn_ne_nil nl text)
    rw [hls] at hl ih
    split at hl
    next =>
      rcases List.mem_cons.1 hl with rfl | hmem
      · exact List.not_mem_nil
      · exact ih hmem
    next hc =>
      rw [List.modifyHead_cons] at hl
      rcases List.mem_cons.1 hl with rfl | hmem
      · rw [List.mem_cons, not_or]
        exact ⟨fun heq ↦ hc (by simp [heq]), ih (List.mem_cons_self ..)⟩
      · exact ih (List.mem_cons_of_mem _ hmem)

/-- The line that ends a text of lines is its last one. -/
theorem rtakeWhile_before [DecidableEq α] (hl : nl ∉ l) :
    (before nl pre ++ l).rtakeWhile (· ≠ nl) = l := by
  induction l using List.reverseRecOn with
  | nil =>
    rw [List.append_nil]
    rcases List.eq_nil_or_concat' pre with rfl | ⟨pre, l, rfl⟩
    · rfl
    · rw [before_concat, List.rtakeWhile_concat_neg _ _ _ (by simp)]
  | append_singleton l c ih =>
    rw [List.mem_append, not_or, List.mem_singleton] at hl
    rw [← List.append_assoc, List.rtakeWhile_concat_pos _ _ _ (by simpa using Ne.symm hl.2),
      ih hl.1]

/-- The line that begins a text of lines is its first one. -/
theorem takeWhile_after [DecidableEq α] (hl : nl ∉ l) :
    (l ++ after nl post).takeWhile (· ≠ nl) = l := by
  have hall : ∀ c ∈ l, decide (c ≠ nl) = true := fun c hc ↦ by
    simpa using fun heq : c = nl ↦ hl (heq ▸ hc)
  rw [List.takeWhile_append_of_pos hall]
  cases post with
  | nil => exact List.append_nil l
  | cons l' post => rw [after_cons, List.cons_append, List.takeWhile_cons_of_neg (by simp),
      List.append_nil]

/-! ### The operations on lines -/

section

variable (hx : x ≤ line.length)

include hx

theorem take_place : (place nl pre line post x).text.take (place nl pre line post x).offset =
    before nl pre ++ line.take x := by
  rw [place, List.append_assoc, List.take_length_add_append, List.take_append_of_le_length hx]

theorem drop_place : (place nl pre line post x).text.drop (place nl pre line post x).offset =
    line.drop x ++ after nl post := by
  rw [place, List.append_assoc, List.drop_length_add_append, List.drop_append_of_le_length hx]

/-- A character goes into the cursor's line. -/
theorem insert_place (c : α) : (place nl pre line post x).insert c =
    place nl pre (line.take x ++ c :: line.drop x) post (x + 1) := by
  rw [Flat.insert, take_place hx, drop_place hx]
  simp [place, Nat.add_assoc]

/-- A newline cuts the cursor's line in two. -/
theorem newline_place : (place nl pre line post x).insert nl =
    place nl (pre ++ [line.take x]) (line.drop x) post 0 := by
  rw [Flat.insert, take_place hx, drop_place hx]
  have hlen : (line.take x).length = x := List.length_take_of_le hx
  simp [place, before_concat, hlen, Nat.add_assoc]

/-- A deletion inside the line. -/
theorem deleteBack_place (hpos : 0 < x) : (place nl pre line post x).deleteBack =
    place nl pre (line.take (x - 1) ++ line.drop x) post (x - 1) := by
  have hoff : (place nl pre line post x).offset - 1 =
      (place nl pre line post (x - 1)).offset := by
    simp only [place]
    omega
  rw [Flat.deleteBack, if_neg (by simp only [place]; omega), drop_place hx, hoff]
  rw [show (place nl pre line post x).text = (place nl pre line post (x - 1)).text from rfl,
    take_place (by omega)]
  simp [place]

variable [DecidableEq α] (hline : nl ∉ line)

include hline

theorem front_place : (place nl pre line post x).front nl = line.take x := by
  rw [Flat.front, take_place hx, rtakeWhile_before fun h ↦ hline (List.mem_of_mem_take h)]

theorem rest_place : (place nl pre line post x).rest nl = line.drop x := by
  rw [Flat.rest, drop_place hx, takeWhile_after fun h ↦ hline (List.mem_of_mem_drop h)]

theorem left_place : (place nl pre line post x).left nl = place nl pre line post (x - 1) := by
  rw [Flat.left, front_place hx hline]
  rcases Nat.eq_zero_or_pos x with rfl | hpos
  · exact if_pos rfl
  · have hne : line.take x ≠ [] := by
      rw [Ne, List.take_eq_nil_iff]
      rintro (h | rfl)
      · omega
      · exact absurd hx (by simpa using Nat.not_le.2 hpos)
    rw [if_neg hne]
    simp only [place, Nat.add_sub_assoc hpos]

theorem right_place :
    (place nl pre line post x).right nl = place nl pre line post (min line.length (x + 1)) := by
  rw [Flat.right, rest_place hx hline]
  rcases Nat.lt_or_ge x line.length with hlt | hge
  · have hne : line.drop x ≠ [] := by
      rw [Ne, List.drop_eq_nil_iff]
      omega
    rw [if_neg hne, Nat.min_eq_right hlt]
    rfl
  · rw [if_pos (List.drop_eq_nil_iff.2 hge), Nat.min_eq_left (by omega), Nat.le_antisymm hge hx]

end

/-! Two lines and the newline between them. -/

theorem text_concat (above : List α) : (place nl (pre ++ [above]) line post x).text =
    before nl pre ++ above ++ nl :: (line ++ after nl post) := by
  simp [place, before_concat]

theorem offset_concat (above : List α) : (place nl (pre ++ [above]) line post x).offset =
    (before nl pre ++ above).length + 1 + x := by
  simp [place, before_concat, Nat.add_assoc]

theorem text_cons (below : List α) : (place nl pre line (below :: post) x).text =
    before nl pre ++ line ++ nl :: (below ++ after nl post) := by
  simp [place, after_cons]

theorem drop_append_cons (l l' : List α) (c : α) : (l ++ c :: l').drop (l.length + 1) = l' := by
  rw [List.drop_length_add_append]
  rfl

/-- A deletion at the start of a line joins it to the line above. -/
theorem deleteBack_concat (above : List α) : (place nl (pre ++ [above]) line post 0).deleteBack =
    place nl pre (above ++ line) post above.length := by
  rw [Flat.deleteBack, offset_concat, if_neg (by omega), text_concat, Nat.add_zero,
    drop_append_cons, Nat.add_sub_cancel, List.take_left]
  ext1 <;> simp [place]

/-- At the start of the text there is nothing to delete. -/
theorem deleteBack_nil : (place nl [] line post 0).deleteBack = place nl [] line post 0 :=
  if_pos rfl

variable [DecidableEq α]

/-- From the first line there is no way up. -/
theorem up_nil (hx : x ≤ line.length) (hline : nl ∉ line) :
    (place nl [] line post x).up nl = place nl [] line post x := by
  rw [Flat.up, front_place hx hline, List.length_take_of_le hx]
  exact if_pos (by simp [place])

/-- Up goes to the line above. -/
theorem up_concat (hx : x ≤ line.length) (hline : nl ∉ line) {above : List α}
    (habove : nl ∉ above) :
    (place nl (pre ++ [above]) line post x).up nl =
      place nl pre above (line :: post) (min x above.length) := by
  rw [Flat.up, front_place hx hline, List.length_take_of_le hx, offset_concat, Nat.add_sub_cancel,
    if_neg (by omega), Nat.add_sub_cancel, text_concat, List.take_left, rtakeWhile_before habove]
  ext1
  · exact (text_cons line).symm
  · simp [place]

/-- From the last line there is no way down. -/
theorem down_nil (hx : x ≤ line.length) (hline : nl ∉ line) :
    (place nl pre line [] x).down nl = place nl pre line [] x := by
  have hstop : (place nl pre line [] x).offset + (line.drop x).length =
      (place nl pre line [] x).text.length := by
    simp only [place, after, List.flatMap_nil, List.append_nil, List.length_append,
      List.length_drop]
    omega
  rw [Flat.down, rest_place hx hline]
  exact if_pos hstop

/-- Down goes to the line below. -/
theorem down_cons (hx : x ≤ line.length) (hline : nl ∉ line) {below : List α}
    (hbelow : nl ∉ below) :
    (place nl pre line (below :: post) x).down nl =
      place nl (pre ++ [line]) below post (min x below.length) := by
  have hstop : (place nl pre line (below :: post) x).offset + (line.drop x).length =
      (before nl pre ++ line).length := by
    simp only [place, List.length_append, List.length_drop]
    omega
  rw [Flat.down, rest_place hx hline, front_place hx hline, List.length_take_of_le hx, hstop,
    text_cons, if_neg (by simp), drop_append_cons, takeWhile_after hbelow]
  ext1
  · exact (text_concat line).symm
  · exact (offset_concat line).symm

end FlatText
