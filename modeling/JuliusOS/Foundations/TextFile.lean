import JuliusOS.Foundations.FlatText
import JuliusOS.Foundations.TextLines
import JuliusOS.Foundations.Utf8

/-!
# Texts in files

A Python text, as a list of code points, written to a file opened with `open(path, "w")` and read
from one opened with `open(path)`. Code points that are no characters (surrogates) are not encoded;
what is no encoding is not decoded; and every `\r\n` and `\r` is read as a newline.

`read_lines_iff`: lines that are joined with newlines and written are read back as the same lines
exactly if none of them contains a carriage return or a newline. Of a part of the file they are
never read back (`read_take_iff`).
-/

namespace TextFile

/-- The character of a code point. -/
def char? (n : ℕ) : Option Char :=
  if n < 0xd800 ∨ 0xdfff < n ∧ n < 0x110000 then some (Char.ofNat n) else none

/-- The characters of a text; `none` where a code point is no character. -/
def chars? : List ℕ → Option (List Char)
  | [] => some []
  | n :: text => (char? n).bind fun c ↦ (chars? text).map (c :: ·)

/-- The code points of some characters. -/
def points (s : List Char) : List ℕ := s.map Char.toNat

/-- What is written for a text; `none` is a `UnicodeEncodeError`. -/
def encode (text : List ℕ) : Option Bytes := (chars? text).map Utf8.encode

/-- The text that is read from a file; `none` is a `UnicodeDecodeError`. -/
def decode (content : Bytes) : Option (List ℕ) :=
  (Utf8.decodeStrict content).map fun s ↦ points (Python.translate s)

/-! ### Code points and characters -/

theorem char?_eq_some_iff {n : ℕ} {c : Char} : char? n = some c ↔ c.toNat = n := by
  unfold char?
  constructor
  · intro h
    obtain ⟨hn, hc⟩ := Option.ite_none_right_eq_some.1 h
    have hvalid : n.isValidChar := hn
    rw [← Option.some.inj hc, Char.ofNat, dif_pos hvalid]
    rfl
  · rintro rfl
    have hvalid : c.toNat < 0xd800 ∨ 0xdfff < c.toNat ∧ c.toNat < 0x110000 := c.valid
    rw [if_pos hvalid, c.ofNat_toNat]

theorem chars?_eq_some_iff {text : List ℕ} {s : List Char} :
    chars? text = some s ↔ points s = text := by
  induction text generalizing s with
  | nil => simp [chars?, points, eq_comm]
  | cons n text ih =>
    rw [chars?, Option.bind_eq_some_iff]
    constructor
    · rintro ⟨c, hc, hs⟩
      obtain ⟨t, ht, rfl⟩ := Option.map_eq_some_iff.1 hs
      rw [points, List.map_cons, char?_eq_some_iff.1 hc]
      exact congrArg (n :: ·) (ih.1 ht)
    · intro h
      obtain ⟨c, t, rfl, hc, ht⟩ := List.map_eq_cons_iff.1 h
      exact ⟨c, char?_eq_some_iff.2 hc, Option.map_eq_some_iff.2 ⟨t, ih.2 ht, rfl⟩⟩

theorem points_inj {s t : List Char} (h : points s = points t) : s = t :=
  List.map_injective_iff.2 (fun _ _ h ↦ Char.toNat_inj.1 h) h

theorem mem_points {s : List Char} {c : Char} : c.toNat ∈ points s ↔ c ∈ s :=
  List.mem_map_of_injective fun _ _ h ↦ Char.toNat_inj.1 h

/-! ### What is read -/

variable {s t : List Char} {lines : List (List ℕ)}

theorem length_translateFrom_le (cr : Bool) (s : List Char) :
    (Python.translateFrom cr s).length ≤ s.length := by
  induction s generalizing cr with
  | nil => exact Nat.le_refl _
  | cons c s ih =>
    rw [Python.translateFrom]
    split_ifs
    · exact Nat.le_succ_of_le (ih false)
    · exact Nat.succ_le_succ (ih false)
    · exact Nat.succ_le_succ (ih true)
    · exact Nat.succ_le_succ (ih false)

/-- What is in lines that are joined, newlines apart, is in one of them. -/
theorem mem_intercalate_iff {nl n : ℕ} (hn : n ≠ nl) :
    n ∈ [nl].intercalate lines ↔ ∃ l ∈ lines, n ∈ l := by
  induction lines with
  | nil => simp [List.intercalate_nil]
  | cons l ls ih =>
    cases ls with
    | nil => simp [List.intercalate_singleton]
    | cons l' ls =>
      rw [List.intercalate_cons_cons, List.mem_append, List.mem_append, ih, List.mem_singleton,
        List.exists_mem_cons_iff (l := l' :: ls)]
      exact ⟨fun h ↦ h.imp_left fun h ↦ h.resolve_right hn, fun h ↦ h.imp_left .inl⟩

/-- No line contains a newline or a carriage return. -/
def Clean (lines : List (List ℕ)) : Prop := ∀ l ∈ lines, 10 ∉ l ∧ 13 ∉ l

/-- The lines of a text that is read are clean. -/
theorem clean_splitOn_translate (s : List Char) :
    Clean ((points (Python.translate s)).splitOn 10) := by
  refine fun l hl ↦ ⟨FlatText.notMem_of_mem_splitOn hl, fun hmem ↦ ?_⟩
  have hcr : 13 ∈ points (Python.translate s) := by
    have hjoin : [10].intercalate ((points (Python.translate s)).splitOn 10) =
        points (Python.translate s) := List.intercalate_splitOn 10
    rw [← hjoin]
    exact (mem_intercalate_iff (by decide)).2 ⟨l, hl, hmem⟩
  have hchar : '\r' ∈ Python.translate s := mem_points.1 hcr
  exact Python.notMem_translateFrom false s hchar

/-- **Lines are read back exactly if they are clean.** -/
theorem splitOn_translate_eq_iff (hne : lines ≠ [])
    (hs : points s = [10].intercalate lines) :
    (points (Python.translate s)).splitOn 10 = lines ↔ Clean lines := by
  constructor
  · intro h
    exact h ▸ clean_splitOn_translate s
  · intro hclean
    have hcr : '\r' ∉ s := by
      intro hmem
      have hpoint : 13 ∈ [10].intercalate lines := hs ▸ mem_points.2 hmem
      obtain ⟨l, hl, hcr⟩ := (mem_intercalate_iff (by decide)).1 hpoint
      exact (hclean l hl).2 hcr
    rw [Python.translate_eq_self hcr, hs]
    exact List.splitOn_intercalate 10 (fun l hl ↦ (hclean l hl).1) hne

/-- **A part of a file is read as the lines of the whole exactly if it is the whole** and the lines
are clean. -/
theorem read_take_iff (hne : lines ≠ []) (hs : points s = [10].intercalate lines) (kept : ℕ) :
    (∃ text, decode ((Utf8.encode s).take kept) = some text ∧ text.splitOn 10 = lines) ↔
      Clean lines ∧ (Utf8.encode s).length ≤ kept := by
  constructor
  · rintro ⟨text, hread, hlines⟩
    obtain ⟨t, ht, rfl⟩ := Option.map_eq_some_iff.1 hread
    have htake : Utf8.encode t = (Utf8.encode s).take kept := Utf8.decodeStrict_eq_some_iff.1 ht
    -- what is read is at most as long as what was written
    obtain ⟨u, hu, -⟩ := Utf8.exists_of_encode_eq_append
      (show Utf8.encode s = Utf8.encode t ++ (Utf8.encode s).drop kept by
        rw [htake, List.take_append_drop])
    have hjoin : points (Python.translate t) = points s := by
      rw [hs, ← hlines, List.intercalate_splitOn]
    have hsame : Python.translate t = s := points_inj hjoin
    have hlen : (Python.translate t).length ≤ t.length := length_translateFrom_le false t
    have hnil : u = [] := by
      rw [hsame, hu, List.length_append] at hlen
      exact List.length_eq_zero_iff.1 (by omega)
    rw [hnil, List.append_nil] at hu
    refine ⟨hlines ▸ clean_splitOn_translate t, ?_⟩
    rw [← hu] at htake
    rw [htake, List.length_take]
    exact Nat.min_le_left _ _
  · rintro ⟨hclean, hlen⟩
    refine ⟨points (Python.translate s), ?_, (splitOn_translate_eq_iff hne hs).2 hclean⟩
    rw [List.take_of_length_le hlen, decode, Utf8.decodeStrict_encode]
    rfl

end TextFile
