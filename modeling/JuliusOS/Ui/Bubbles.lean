import JuliusOS.Foundations.Columns
import JuliusOS.Foundations.Wrapping
import JuliusOS.Ui.Overlays

/-!
# Message bubbles

`JuliusAI.draw` splits a message into words and fills the lines of a bubble with them, as many in a
line as fit. The width of a text is what the font says, so it may be any function of the text.

`bubble_lines` says what a reader sees: all the words in order, no empty line, no line that is too
wide but for a single word that is, and no line that is broken early.
-/

namespace JuliusOS.Ui

/-- `max_w`. -/
def maxW : ℤ := 200

/-- The lines of a message; `width` is `font_small.size(...)[0]`. -/
def Message.lines (width : List Char → ℤ) (msg : Message) : List (List Char) :=
  Wrapping.wrap width maxW ' ' (Python.words msg.content.toList)

/-- **The lines of a bubble** lose no word, and are broken only where they have to be. -/
theorem bubble_lines (width : List Char → ℤ) (msg : Message) :
    Python.words ([' '].intercalate (msg.lines width)) = Python.words msg.content.toList ∧
      (∀ l ∈ msg.lines width, l ≠ []) ∧
        (∀ l ∈ msg.lines width, 1 < (Python.words l).length → width l ≤ maxW) ∧
          ∀ front l l' back, msg.lines width = front ++ l :: l' :: back →
            ∃ w ws, Python.words l' = w :: ws ∧ maxW < width (l ++ [' '] ++ w) := by
  have hwords : ∀ w ∈ Python.words msg.content.toList,
      w ≠ [] ∧ ∀ c ∈ w, Python.isSpace c = false := fun w hw ↦ Python.ne_nil_of_mem_words hw
  obtain ⟨groups, hgreedy, hflat, hlines⟩ :
      ∃ groups, Wrapping.Greedy width maxW ' ' groups ∧
        groups.flatten = Python.words msg.content.toList ∧
          msg.lines width = groups.map (Wrapping.line ' ') :=
    Wrapping.exists_groups fun w hw ↦ (hwords w hw).1
  have hgroup : ∀ g ∈ groups, ∀ w ∈ g, w ≠ [] ∧ ∀ c ∈ w, Python.isSpace c = false :=
    fun g hg w hw ↦ hwords w (hflat ▸ List.mem_flatten.2 ⟨g, hg, hw⟩)
  have hline : ∀ g ∈ groups, Python.words (Wrapping.line ' ' g) = g :=
    fun g hg ↦ Python.words_intercalate (hgroup g hg)
  rw [hlines]
  refine ⟨?_, fun l hl ↦ ?_, fun l hl hlen ↦ ?_, fun front l l' back heq ↦ ?_⟩
  · have hall : Wrapping.line ' ' (groups.map (Wrapping.line ' ')) =
        Wrapping.line ' ' groups.flatten := Wrapping.line_map_line hgreedy.ne_nil
    rw [hflat] at hall
    show Python.words (Wrapping.line ' ' _) = _
    rw [hall]
    exact Python.words_intercalate hwords
  · obtain ⟨g, hg, rfl⟩ := List.mem_map.1 hl
    exact Wrapping.line_ne_nil (hgreedy.ne_nil g hg) fun w hw ↦ (hgroup g hg w hw).1
  · obtain ⟨g, hg, rfl⟩ := List.mem_map.1 hl
    rw [hline g hg] at hlen
    exact hgreedy.fits g hg hlen
  · obtain ⟨fronts, rest, rfl, rfl, hrest⟩ := List.map_eq_append_iff.1 heq
    obtain ⟨g, rest', rfl, rfl, hrest'⟩ := List.map_eq_cons_iff.1 hrest
    obtain ⟨g', backs, rfl, rfl, rfl⟩ := List.map_eq_cons_iff.1 hrest'
    obtain ⟨w, ws, hg'⟩ := List.exists_cons_of_ne_nil (hgreedy.ne_nil g' (by simp))
    refine ⟨w, ws, (hline g' (by simp)).trans hg', ?_⟩
    have hfull := (List.isChain_append_cons_cons.1 hgreedy.full).2.1 w (by rw [hg']; rfl)
    rwa [Wrapping.line_concat (hgreedy.ne_nil g (by simp))] at hfull

end JuliusOS.Ui
