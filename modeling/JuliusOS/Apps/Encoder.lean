import JuliusOS.Apps.Keys
import JuliusOS.Foundations.Base64
import JuliusOS.Foundations.Percent

/-!
# The encoder

`src/apps/encoder/encoder.py`: a menu of three encodings and their inverses, and a view in which a
text is typed and converted. What was encoded comes back, if it is typed into the next item of the
menu (`run_encode_decode`), for Base64 also with characters in between that are none of its own.

The view of the input cannot be drawn with anything in the output: `draw_input` colours it with a
name that the module does not define (`draw_of_shows`).
-/

namespace JuliusOS.Apps

namespace Encoder

/-- The items of `MODES`. -/
inductive Coding
  | base64Enc
  | base64Dec
  | urlEnc
  | urlDec
  | hexEnc
  | hexDec
deriving DecidableEq

namespace Coding

/-- What the menu shows. -/
def label : Coding → String
  | base64Enc => "Base64 Enc"
  | base64Dec => "Base64 Dec"
  | urlEnc => "URL Enc"
  | urlDec => "URL Dec"
  | hexEnc => "Hex Enc"
  | hexDec => "Hex Dec"

/-- What `process` computes, unless an exception is raised. -/
def convert (input : List Char) : Coding → Option (List Char)
  | base64Enc => Utf8.decodeStrict (Base64.encode (Utf8.encode input))
  | base64Dec => (Base64.decode (Utf8.encode input)).bind Utf8.decodeStrict
  | urlEnc => some (Percent.quote input)
  | urlDec => some (Percent.unquote input)
  | hexEnc => some (Hex.encode Hex.lower (Utf8.encode input))
  | hexDec => (Hex.decode input).bind Utf8.decodeStrict

end Coding

/-- `MODES`. -/
def modes : List Coding := [.base64Enc, .base64Dec, .urlEnc, .urlDec, .hexEnc, .hexDec]

/-- An item of `MODES`. -/
def item (i : Fin 6) : Coding := modes.get i

/-- `mode`. -/
inductive View
  | menu
  | input
deriving DecidableEq

/-- A `KEYDOWN` event, with the text of the exception that it comes to, if it comes to one. -/
structure Press where
  key : KeyName
  unicode : List Char
  message : List Char
deriving DecidableEq

/-- A key without a character, which comes to no exception. -/
def Press.ofKey (key : KeyName) : Press := ⟨key, [], []⟩

end Encoder

/-- The app. -/
structure Encoder where
  input : List Char
  output : List Char
  /-- A place in `MODES`. -/
  selected : Fin 6
  mode : Encoder.View
  status : String
deriving DecidableEq

namespace Encoder

/-- The app at its start. -/
def init : Encoder := ⟨[], [], 0, .menu, ""⟩

/-- `MODES[self.selected]`. -/
def coding (s : Encoder) : Coding := item s.selected

/-- `process`. -/
def process (message : List Char) (s : Encoder) : Encoder :=
  match s.coding.convert s.input with
  | some output => { s with output := output, status := "Done" }
  | none => { s with output := "Error: ".toList ++ message, status := "Error" }

/-- `handle_input`. -/
def handleInput (s : Encoder) (e : Press) : Encoder :=
  match s.mode with
  | .menu =>
    match e.key with
    | .down => { s with selected := s.selected + 1 }
    | .up => { s with selected := s.selected - 1 }
    | .ret => { s with mode := .input, input := [], output := [], status := "" }
    | _ => s
  | .input =>
    match e.key with
    | .ret => s.process e.message
    | .backspace => { s with input := s.input.dropLast }
    | .escape => { s with mode := .menu, input := [] }
    | _ => { s with input := s.input ++ e.unicode }

/-- One key after another. -/
def run (s : Encoder) (es : List Press) : Encoder := es.foldl handleInput s

/-- The texts that `draw_menu` renders. -/
def menuTexts : List (List Char) :=
  ["Encoder".toList] ++ modes.map (fun c ↦ c.label.toList) ++ ["UP DOWN=select  ENTER=use".toList]

/-- The texts that `draw_input` renders before the output. -/
def inputTexts (s : Encoder) : List (List Char) :=
  [s.coding.label.toList, "Input:".toList, s.input.take 26 ++ ['_'], "Output:".toList]

/-- The texts that `draw_input` renders after it. -/
def restTexts (s : Encoder) : List (List Char) :=
  (if s.status = "" then [] else [s.status.toList]) ++ ["ENTER=run  ESC=back".toList]

/-- `draw` raises, where `renders` says which texts the font can render. The lines of the output
are given the colour `YELLOW`, which is not defined. -/
def draw (renders : List Char → Bool) (s : Encoder) : Bool :=
  match s.mode with
  | .menu => !menuTexts.all renders
  | .input => !s.inputTexts.all renders || !s.output.isEmpty || !s.restTexts.all renders

/-- The view of the input is open, and there is an output in it. -/
def Shows (s : Encoder) : Prop := s.mode = .input ∧ s.output ≠ []

instance (s : Encoder) : Decidable s.Shows := inferInstanceAs (Decidable (_ ∧ _))

/-- **An output cannot be drawn**, whatever the font can render. -/
theorem draw_of_shows {s : Encoder} (h : s.Shows) (renders : List Char → Bool) :
    s.draw renders = true := by
  obtain ⟨hmode, houtput⟩ := h
  have hempty : s.output.isEmpty = false := by
    cases hs : s.output with
    | nil => exact absurd hs houtput
    | cons c cs => rfl
  rw [draw, hmode]
  show (_ || !s.output.isEmpty || _) = true
  rw [hempty, Bool.not_false, Bool.or_true, Bool.true_or]

/-! ### Typing -/

/-- The keys type a text into the view of the input. -/
def Types (es : List Press) (text : List Char) : Prop :=
  (∀ e ∈ es, e.key ≠ .ret ∧ e.key ≠ .backspace ∧ e.key ≠ .escape) ∧
    es.flatMap Press.unicode = text

theorem run_cons (s : Encoder) (e : Press) (es : List Press) :
    s.run (e :: es) = (s.handleInput e).run es := rfl

theorem run_append (s : Encoder) (es es' : List Press) : s.run (es ++ es') = (s.run es).run es' :=
  List.foldl_append

/-- A key that types its characters. -/
theorem handleInput_type {s : Encoder} (hmode : s.mode = .input) {e : Press}
    (hret : e.key ≠ .ret) (hback : e.key ≠ .backspace) (hesc : e.key ≠ .escape) :
    s.handleInput e = { s with input := s.input ++ e.unicode } := by
  rw [handleInput, hmode]
  cases hkey : e.key with
  | ret => exact absurd hkey hret
  | backspace => exact absurd hkey hback
  | escape => exact absurd hkey hesc
  | down | up | letter c | other => rfl

/-- What is typed comes after what is there. -/
theorem run_types {s : Encoder} (hmode : s.mode = .input) {es : List Press} {text : List Char}
    (h : Types es text) : s.run es = { s with input := s.input ++ text } := by
  obtain ⟨hkeys, rfl⟩ := h
  induction es generalizing s with
  | nil =>
    show s = _
    rw [List.flatMap_nil, List.append_nil]
  | cons e es ih =>
    obtain ⟨⟨hret, hback, hesc⟩, hrest⟩ := List.forall_mem_cons.1 hkeys
    rw [run_cons, handleInput_type hmode hret hback hesc,
      ih (s := { s with input := s.input ++ e.unicode }) hmode hrest, List.flatMap_cons,
      ← List.append_assoc]

/-- An item of the menu is opened, a text is typed and converted. -/
theorem run_convert {s : Encoder} (hmode : s.mode = .menu) {es : List Press} {text : List Char}
    (h : Types es text) (first : Press) (hfirst : first.key = .ret) (last : Press)
    (hlast : last.key = .ret) :
    s.run (first :: (es ++ [last])) =
      { s with
        mode := .input
        input := text
        output := []
        status := "" }.process last.message := by
  have hopen : s.handleInput first =
      { s with mode := .input, input := [], output := [], status := "" } := by
    rw [handleInput, hmode, hfirst]
  have hlasts : ∀ t : Encoder, t.mode = .input → t.handleInput last = t.process last.message := by
    intro t ht
    rw [handleInput, ht, hlast]
  rw [run_cons, hopen, run_append, run_types rfl h, List.nil_append]
  exact hlasts { s with mode := .input, input := text, output := [], status := "" } rfl

/-! ### Encodings and their inverses -/

namespace Coding

/-- The encodings, each of which has its inverse after it. -/
def isEnc : Coding → Bool
  | base64Enc | urlEnc | hexEnc => true
  | base64Dec | urlDec | hexDec => false

/-- The inverse. -/
def inverse : Coding → Coding
  | base64Enc => base64Dec
  | urlEnc => urlDec
  | hexEnc => hexDec
  | base64Dec => base64Enc
  | urlDec => urlEnc
  | hexDec => hexEnc

/-- A text carries an output: it is the same, or for Base64 the same up to characters that are none
of its own. -/
def Carries (output text : List Char) : Coding → Prop
  | base64Enc => (Utf8.encode text).filter Base64.isData = Utf8.encode output
  | _ => text = output

/-- The encoding of a text in Base64 is a text. -/
theorem exists_base64 (input : List Char) :
    ∃ output, base64Enc.convert input = some output ∧
      Utf8.encode output = Base64.encode (Utf8.encode input) := by
  obtain ⟨output, h⟩ := Utf8.exists_encode_eq (Base64.encode_lt (Utf8.encode input))
  exact ⟨output, Utf8.decodeStrict_eq_some_iff.2 h, h⟩

/-- **Every text is encoded, and its encoding is decoded to it.** -/
theorem convert_inverse {c : Coding} (hc : c.isEnc = true) (input : List Char) :
    ∃ output, c.convert input = some output ∧
      ∀ text, c.Carries output text → c.inverse.convert text = some input := by
  cases c with
  | base64Enc =>
    obtain ⟨output, hconvert, hencode⟩ := exists_base64 input
    refine ⟨output, hconvert, fun text htext ↦ ?_⟩
    have hcarried : (Utf8.encode text).filter Base64.isData = Utf8.encode output := htext
    show (Base64.decode (Utf8.encode text)).bind Utf8.decodeStrict = some input
    rw [← Base64.decode_filter, hcarried, hencode, Base64.decode_encode, Option.bind_some,
      Utf8.decodeStrict_encode]
  | urlEnc =>
    refine ⟨Percent.quote input, rfl, fun text htext ↦ ?_⟩
    obtain rfl : text = Percent.quote input := htext
    exact congrArg some (Percent.unquote_quote input)
  | hexEnc =>
    refine ⟨Hex.encode Hex.lower (Utf8.encode input), rfl, fun text htext ↦ ?_⟩
    obtain rfl : text = Hex.encode Hex.lower (Utf8.encode input) := htext
    show (Hex.decode _).bind Utf8.decodeStrict = some input
    rw [Hex.decode_encode_lower, Option.bind_some, Utf8.decodeStrict_encode]
  | base64Dec | urlDec | hexDec => cases hc

end Coding

/-- The inverse is the next item of the menu. -/
theorem coding_succ {s : Encoder} (h : s.coding.isEnc = true) :
    item (s.selected + 1) = s.coding.inverse := by
  have hall : ∀ i, (item i).isEnc = true → item (i + 1) = (item i).inverse := by decide
  exact hall s.selected h

theorem process_eq {s : Encoder} {output : List Char} (h : s.coding.convert s.input = some output)
    (message : List Char) :
    s.process message = { s with output := output, status := "Done" } := by
  rw [process, h]

end Encoder

end JuliusOS.Apps
