import JuliusOS.Foundations.Json
import JuliusOS.Foundations.Utf8
import JuliusOS.Push.Window
import Mathlib.Algebra.Order.BigOperators.Group.List

/-!
# The notification file

`write_notif_file` prints the table as a JSON text, the three texts of a notification as they are,
and `NotificationCenter.load` of `src/system/notification_center.py` reads it strictly: on any error
its list is empty.

* `printed_of_decode`: a file that is UTF-8 at all was printed from texts that are;
* `run_linesText`: texts without quotes, backslashes and control characters are read back;
* `length_le_of_run`: what is read is never longer than the texts, and any other text is read
  shorter than it is, so that it cannot come back;
* `notif_file_iff`: the file can be read back after every request of a run if and only if every
  text that is stored is such a text.
-/

open CString Utf8 Json
open Bytes (ofAscii)

namespace JuliusOS.Push

/-! ### The two programs -/

/-- What `strftime` reads of a `struct tm`: `tm_hour` and `tm_min`. -/
structure Tm where
  /-- `tm_hour`. -/
  hour : ℕ
  /-- `tm_min`. -/
  min : ℕ

/-- `%H:%M`. -/
def Tm.hourMinute (tm : Tm) : List Char :=
  [Nat.digitChar (tm.hour / 10 % 10), Nat.digitChar (tm.hour % 10), ':',
    Nat.digitChar (tm.min / 10 % 10), Nat.digitChar (tm.min % 10)]

section

variable (localtime : ℤ → Tm)

/-- What `write_notif_file` prints of a notification, up to the comma. -/
def notifEntry (n : PushNotification) : Bytes :=
  [ofAscii "  \x7b\"app\":\"", cstr n.app.bytes, ofAscii "\",\"title\":\"", cstr n.title.bytes,
    ofAscii "\",\"body\":\"", cstr n.body.bytes, ofAscii "\",\"time\":\"",
    ofAscii (String.ofList (localtime n.timestamp).hourMinute),
    ofAscii "\",\"color\":[10,132,255],\"read\":",
    ofAscii (if n.read ≠ 0 then "true" else "false"), ofAscii "\x7d"].flatten

/-- The loop of `write_notif_file`. -/
def notifLines : List PushNotification → Bytes
  | [] => []
  | n :: ns =>
    notifEntry localtime n ++ ofAscii (if ns.isEmpty then "" else ",") ++ ofAscii "\n" ++
      notifLines ns

/-- What `write_notif_file` writes. -/
def writeNotifFile (st : State) : Bytes :=
  ofAscii "[\n" ++ notifLines localtime st.notifs.live ++ ofAscii "]\n"

/-- `json.load` of a file that is read as UTF-8. That a carriage return would be read as a newline
makes no difference to it. -/
def jsonLoad (file : Bytes) : Option Value := (decodeStrict file).bind parse

/-- The list of `NotificationCenter.load`, if there is a file. -/
def NotificationCenter.load (file : Bytes) : Value := (jsonLoad file).getD (.array [])

/-- A loaded entry is that of a notification. -/
structure LoadedAs (n : PushNotification) (v : Value) : Prop where
  /-- `"app"`. -/
  app : ∃ s, decodeStrict (cstr n.app.bytes) = some s ∧
    v.get? (codes ['a', 'p', 'p']) = some (.string (codes s))
  /-- `"title"`. -/
  title : ∃ s, decodeStrict (cstr n.title.bytes) = some s ∧
    v.get? (codes ['t', 'i', 't', 'l', 'e']) = some (.string (codes s))
  /-- `"body"`. -/
  body : ∃ s, decodeStrict (cstr n.body.bytes) = some s ∧
    v.get? (codes ['b', 'o', 'd', 'y']) = some (.string (codes s))
  /-- `"read"`. -/
  read : v.get? (codes ['r', 'e', 'a', 'd']) = some (.bool (n.read != 0))

/-- The file is accepted, and what is loaded is a list of the notifications. -/
def RoundTrips (st : State) : Prop :=
  (jsonLoad (writeNotifFile localtime st)).isSome ∧
    ∃ vs, NotificationCenter.load (writeNotifFile localtime st) = .array vs ∧
      List.Forall₂ LoadedAs st.notifs.live vs

end

/-- UTF-8 without quotes, backslashes and control characters. -/
def PlainText (b : Bytes) : Prop := ∃ s, decodeStrict b = some s ∧ ∀ c ∈ s, Plain c

/-- The texts that are stored of a `PUSH_SEND` request are plain. -/
def PlainRequest (_ : State) (l : ℤ × PushRequest) : Prop :=
  l.2.op = pushOpSend → PlainText ((cstr (l.2.field 1)).take 63) ∧
    PlainText ((cstr (l.2.field 2)).take 127) ∧ PlainText ((cstr (l.2.field 3)).take 255)

/-! ### The printed text -/

/-- What is printed about a notification, as text. -/
structure Printed where
  /-- `app`. -/
  app : List Char
  /-- `title`. -/
  title : List Char
  /-- `body`. -/
  body : List Char
  /-- The time. -/
  time : Tm
  /-- `read`. -/
  read : Bool

/-- The text before the application's name. -/
def entryStart : List Char := [' ', ' ', '\x7b', '"', 'a', 'p', 'p', '"', ':', '"']

/-- The text between the time and the last field. -/
def colorText : List Char := "\",\"color\":[10,132,255],\"read\":".toList

/-- The text after the time. -/
def entryEnd (read : Bool) : List Char :=
  colorText ++ ((if read then Word.true else Word.false).letters ++ ['\x7d'])

namespace Printed

variable (x : Printed)

/-- The text from the time on. -/
def rest : List Char :=
  nextField ['t', 'i', 'm', 'e'] ++ (x.time.hourMinute ++ entryEnd x.read)

/-- The text of an entry. -/
def text : List Char :=
  entryStart ++ (x.app ++ (nextField ['t', 'i', 't', 'l', 'e'] ++ (x.title ++
    (nextField ['b', 'o', 'd', 'y'] ++ (x.body ++ x.rest)))))

/-- It is what is printed about a notification. -/
structure Of (localtime : ℤ → Tm) (n : PushNotification) (x : Printed) : Prop where
  /-- `app`. -/
  app : encode x.app = cstr n.app.bytes
  /-- `title`. -/
  title : encode x.title = cstr n.title.bytes
  /-- `body`. -/
  body : encode x.body = cstr n.body.bytes
  /-- The time. -/
  time : x.time = localtime n.timestamp
  /-- `read`. -/
  read : x.read = (n.read != 0)

end Printed

/-- The text of the entries, up to the end of the file. -/
def linesText : List Printed → List Char
  | [] => [']', '\n']
  | x :: xs => x.text ++ ((if xs.isEmpty then [] else [',']) ++ '\n' :: linesText xs)

variable {localtime : ℤ → Tm} {st st' : State} {n : PushNotification} {x : Printed}
  {ns : List PushNotification} {xs : List Printed} {s : List Char} {r r' : Reader}

/-! ### Bytes and text -/

theorem plain_hourMinute (tm : Tm) : ∀ c ∈ tm.hourMinute, Plain c ∧ c.toNat < 128 := by
  have hdigit : ∀ m, m < 10 → Plain (Nat.digitChar m) ∧ (Nat.digitChar m).toNat < 128 := by decide
  have hmod : ∀ m, Plain (Nat.digitChar (m % 10)) ∧ (Nat.digitChar (m % 10)).toNat < 128 :=
    fun m ↦ hdigit _ (Nat.mod_lt m (by decide))
  intro c hc
  simp only [Tm.hourMinute, List.mem_cons, List.not_mem_nil, or_false] at hc
  rcases hc with rfl | rfl | rfl | rfl | rfl
  · exact hmod _
  · exact hmod _
  · decide
  · exact hmod _
  · exact hmod _

theorem encode_hourMinute (tm : Tm) :
    encode tm.hourMinute = ofAscii (String.ofList tm.hourMinute) := by
  rw [← encode_ascii, String.toList_ofList]
  rw [String.toList_ofList]
  exact List.all_eq_true.2 fun c hc ↦ decide_eq_true (plain_hourMinute tm c hc).2

theorem encode_rest (h : x.time = localtime n.timestamp) (hread : x.read = (n.read != 0)) :
    encode x.rest = ofAscii "\",\"time\":\"" ++
      (ofAscii (String.ofList (localtime n.timestamp).hourMinute) ++
        (ofAscii "\",\"color\":[10,132,255],\"read\":" ++
          (ofAscii (if n.read ≠ 0 then "true" else "false") ++ ofAscii "\x7d"))) := by
  have hword : encode (if x.read then Word.true else Word.false).letters =
      ofAscii (if n.read ≠ 0 then "true" else "false") := by
    by_cases hzero : n.read = 0
    · rw [hread, hzero]
      decide
    · rw [hread, if_pos (bne_iff_ne.2 hzero), if_pos hzero]
      decide
  have htime : encode (nextField ['t', 'i', 'm', 'e']) = ofAscii "\",\"time\":\"" := by decide
  have hcolor : encode colorText = ofAscii "\",\"color\":[10,132,255],\"read\":" :=
    encode_ascii _ (by decide)
  have hbrace : encode ['\x7d'] = ofAscii "\x7d" := by decide
  rw [Printed.rest, entryEnd, encode_append, encode_append, encode_append, encode_append, hword, h,
    encode_hourMinute, htime, hcolor, hbrace]

/-- The bytes of an entry, in the order of the fields. -/
theorem notifEntry_eq (localtime : ℤ → Tm) (n : PushNotification) :
    notifEntry localtime n = encode entryStart ++ (cstr n.app.bytes ++
      (encode (nextField ['t', 'i', 't', 'l', 'e']) ++ (cstr n.title.bytes ++
        (encode (nextField ['b', 'o', 'd', 'y']) ++ (cstr n.body.bytes ++
          encode (Printed.rest ⟨[], [], [], localtime n.timestamp, n.read != 0⟩)))))) := by
  rw [encode_rest (n := n) rfl rfl, notifEntry,
    show encode entryStart = ofAscii "  \x7b\"app\":\"" by decide,
    show encode (nextField ['t', 'i', 't', 'l', 'e']) = ofAscii "\",\"title\":\"" by decide,
    show encode (nextField ['b', 'o', 'd', 'y']) = ofAscii "\",\"body\":\"" by decide]
  simp only [List.flatten_cons, List.flatten_nil, List.append_nil]

/-- A notification whose texts are UTF-8 is printed as text. -/
theorem Printed.Of.encode_text (h : x.Of localtime n) :
    encode x.text = notifEntry localtime n := by
  rw [notifEntry_eq, Printed.text]
  simp only [encode_append, h.app, h.title, h.body]
  rw [show x.rest = Printed.rest ⟨[], [], [], localtime n.timestamp, n.read != 0⟩ by
    rw [← h.time, ← h.read]
    rfl]

theorem encode_separator {α β : Type*} {l : List α} {m : List β}
    (h : l.length = m.length) : encode (if l.isEmpty then [] else [',']) =
      ofAscii (if m.isEmpty then "" else ",") := by
  rcases l with - | ⟨a, l⟩ <;> rcases m with - | ⟨b, m⟩
  · rfl
  · cases h
  · cases h
  · exact (by decide : encode [','] = ofAscii ",")

/-- What is printed about some notifications. -/
theorem encode_linesText (h : List.Forall₂ (Printed.Of localtime) ns xs) :
    encode (linesText xs) = notifLines localtime ns ++ ofAscii "]\n" := by
  induction h with
  | nil => exact (by decide : encode [']', '\n'] = ofAscii "]\n")
  | cons hx hxs ih =>
    rw [linesText, notifLines, encode_append, encode_append, encode_cons, hx.encode_text, ih,
      encode_separator hxs.length_eq.symm]
    simp only [List.append_assoc]
    rfl

/-- A piece of an entry is UTF-8 if the entry is. -/
theorem exists_nextField {key : List Char} {b y : Bytes}
    (h : encode s = b ++ (encode (nextField key) ++ y)) :
    ∃ t u, s = t ++ (nextField key ++ u) ∧ encode t = b ∧ encode u = y :=
  exists_of_encode_eq ⟨'"', _, rfl, by decide⟩ h

/-- **A file that is UTF-8** was printed from texts that are. -/
theorem printed_of_decode (h : encode s = notifLines localtime ns ++ ofAscii "]\n") :
    ∃ xs, List.Forall₂ (Printed.Of localtime) ns xs ∧ s = linesText xs := by
  induction ns generalizing s with
  | nil =>
    refine ⟨[], .nil, ?_⟩
    have hend : encode (linesText []) = ofAscii "]\n" := by decide
    have hs := decodeStrict_encode s
    rw [h, notifLines, List.nil_append, ← hend, decodeStrict_encode] at hs
    exact (Option.some.inj hs).symm
  | cons n ns ih =>
    rw [notifLines, notifEntry_eq] at h
    simp only [List.append_assoc] at h
    -- the separators are ASCII: where their bytes are, the text has them too
    obtain ⟨s₁, rfl, h₁⟩ := exists_of_encode_eq_append h
    obtain ⟨app, s₂, rfl, happ, h₂⟩ := exists_nextField h₁
    obtain ⟨title, s₃, rfl, htitle, h₃⟩ := exists_nextField h₂
    obtain ⟨body, s₄, rfl, hbody, h₄⟩ := exists_of_encode_eq ⟨'"', _, rfl, by decide⟩ h₃
    have hcomma : ofAscii (if ns.isEmpty then "" else ",") =
        encode (if ns.isEmpty then [] else [',']) := (encode_separator rfl).symm
    have hnewline : ofAscii "\n" = encode ['\n'] := by decide
    rw [hcomma, hnewline] at h₄
    obtain ⟨s₅, rfl, h₅⟩ := exists_of_encode_eq_append h₄
    obtain ⟨s₆, rfl, h₆⟩ := exists_of_encode_eq_append h₅
    obtain ⟨xs, hxs, rfl⟩ := ih h₆
    refine ⟨⟨app, title, body, localtime n.timestamp, n.read != 0⟩ :: xs,
      .cons ⟨happ, htitle, hbody, rfl, rfl⟩ hxs, ?_⟩
    have hempty : ns.isEmpty = xs.isEmpty := by
      cases hxs <;> rfl
    rw [linesText, ← hempty, Printed.text]
    simp only [List.append_assoc]
    rfl

/-! ### Reading plain texts -/

theorem fieldKey_title : FieldKey ['t', 'i', 't', 'l', 'e'] where
  plain := plain_of_all (by decide)
  first := ⟨_, _, rfl, by decide, by decide, by decide, by decide, by decide⟩

theorem fieldKey_body : FieldKey ['b', 'o', 'd', 'y'] where
  plain := plain_of_all (by decide)
  first := ⟨_, _, rfl, by decide, by decide, by decide, by decide, by decide⟩

theorem fieldKey_time : FieldKey ['t', 'i', 'm', 'e'] where
  plain := plain_of_all (by decide)
  first := ⟨_, _, rfl, by decide, by decide, by decide, by decide, by decide⟩

/-- The fields that are read from the time on. -/
def restFields (time : Tm) (read : Bool) (fields : List (List ℕ × Value)) :
    List (List ℕ × Value) :=
  (codes ['r', 'e', 'a', 'd'], .bool read) ::
    (codes ['c', 'o', 'l', 'o', 'r'],
      .array [.number ['1', '0'], .number ['1', '3', '2'], .number ['2', '5', '5']]) ::
    (codes ['t', 'i', 'm', 'e'], .string (codes time.hourMinute)) :: fields

/-- The fields of an entry. -/
def Printed.fields (x : Printed) : List (List ℕ × Value) :=
  restFields x.time x.read
    [(codes ['b', 'o', 'd', 'y'], .string (codes x.body)),
      (codes ['t', 'i', 't', 'l', 'e'], .string (codes x.title)),
      (codes ['a', 'p', 'p'], .string (codes x.app))]

/-- The reader expects a value. -/
def Expects (r : Reader) : Prop := r.mode = .value ∨ r.mode = .firstItem

theorem run_entryStart (h : Expects r) :
    reader.run r entryStart =
      some ⟨.object [] (codes ['a', 'p', 'p']) :: r.frames, .string false [] .none⟩ := by
  obtain ⟨fs, mode⟩ := r
  rcases h with rfl | rfl <;> rfl

/-- From the time on, the rest of an entry is read as it is. -/
theorem run_time (fields : List (List ℕ × Value)) (fs : List Frame) (time : Tm) (read : Bool) :
    reader.run ⟨.object fields (codes ['t', 'i', 'm', 'e']) :: fs, .string false [] .none⟩
        (time.hourMinute ++ entryEnd read) =
      some (complete (.object (restFields time read fields)) fs) := by
  rw [Machine.run_append, run_string fun c hc ↦ (plain_hourMinute time c hc).1, Option.bind_some,
    List.append_nil]
  cases read
  · rw [restFields, ← List.reverse_reverse (codes time.hourMinute)]
    rfl
  · rw [restFields, ← List.reverse_reverse (codes time.hourMinute)]
    rfl

/-- The texts are plain. -/
structure Printed.IsPlain (x : Printed) : Prop where
  /-- `app`. -/
  app : ∀ c ∈ x.app, Plain c
  /-- `title`. -/
  title : ∀ c ∈ x.title, Plain c
  /-- `body`. -/
  body : ∀ c ∈ x.body, Plain c

/-- **An entry with plain texts** is read as it is. -/
theorem run_text (h : Expects r) (hx : x.IsPlain) :
    reader.run r x.text = some (complete (.object x.fields) r.frames) := by
  rw [Printed.text, Machine.run_append, run_entryStart h, Option.bind_some, Machine.run_append,
    run_string hx.app, Option.bind_some, Machine.run_append,
    (run_nextField fieldKey_title).2 ⟨_, _, _, _, rfl, rfl⟩, Option.bind_some, Machine.run_append,
    run_string hx.title, Option.bind_some, Machine.run_append,
    (run_nextField fieldKey_body).2 ⟨_, _, _, _, rfl, rfl⟩, Option.bind_some, Machine.run_append,
    run_string hx.body, Option.bind_some, Printed.rest, Machine.run_append,
    (run_nextField fieldKey_time).2 ⟨_, _, _, _, rfl, rfl⟩, Option.bind_some, run_time]
  simp only [List.append_nil, List.reverse_reverse]
  rfl

/-- **The entries** are read one after the other. -/
theorem run_linesText (hxs : ∀ y ∈ x :: xs, y.IsPlain) {items : List Value} (h : Expects r)
    (hr : r.frames = [.array items]) :
    reader.run r (linesText (x :: xs)) =
      some ⟨[], .done (.array (items.reverse ++ (x :: xs).map fun y ↦ .object y.fields))⟩ := by
  induction xs generalizing x r items with
  | nil =>
    rw [linesText, Machine.run_append, run_text h (hxs x (List.mem_singleton_self x)), hr]
    show some (complete (.array (.object x.fields :: items).reverse) []) = _
    rw [List.reverse_cons]
    rfl
  | cons y ys ih =>
    rw [linesText, Machine.run_append, run_text h (hxs x (List.mem_cons_self ..)), hr]
    show reader.run ⟨[.array (.object x.fields :: items)], .value⟩ (linesText (y :: ys)) = _
    rw [ih (fun z hz ↦ hxs z (List.mem_cons_of_mem x hz)) (Or.inl rfl) rfl, List.reverse_cons,
      List.append_assoc, List.map_cons (a := x), List.singleton_append]

/-- A file of plain texts is read back. -/
theorem parse_linesText (hxs : ∀ y ∈ xs, y.IsPlain) :
    parse ('[' :: '\n' :: linesText xs) = some (.array (xs.map fun y ↦ .object y.fields)) := by
  cases xs with
  | nil => rfl
  | cons x xs =>
    have hrun := run_linesText (r := ⟨[.array []], .firstItem⟩) hxs (Or.inr rfl) rfl
    show (reader.run ⟨[.array []], .firstItem⟩ (linesText (x :: xs))).bind Reader.finish = _
    rw [hrun]
    rfl

/-! ### Reading any texts -/

/-- The keys of the three texts. -/
def textKeys (key : List ℕ) : Bool :=
  decide (key = codes ['a', 'p', 'p']) || (decide (key = codes ['t', 'i', 't', 'l', 'e']) ||
    decide (key = codes ['b', 'o', 'd', 'y']))

/-- The length of the three texts. -/
def Printed.length (x : Printed) : ℕ := x.app.length + (x.title.length + x.body.length)

/-- What they add at most to what is read. -/
def Printed.gain (x : Printed) : ℕ := textGain x.app + (textGain x.title + textGain x.body)

theorem Printed.gain_le (x : Printed) : x.gain ≤ x.length :=
  Nat.add_le_add (textGain_le _) (Nat.add_le_add (textGain_le _) (textGain_le _))

theorem Printed.isPlain_of_length_le (h : x.length ≤ x.gain) : x.IsPlain := by
  have happ := textGain_le x.app
  have htitle := textGain_le x.title
  have hbody := textGain_le x.body
  rw [length, gain] at h
  exact ⟨plain_of_length_le_textGain (by omega), plain_of_length_le_textGain (by omega),
    plain_of_length_le_textGain (by omega)⟩

theorem fieldsLength_restFields (time : Tm) (read : Bool) (fields : List (List ℕ × Value)) :
    fieldsLength textKeys (restFields time read fields) = fieldsLength textKeys fields := by
  have hread : textKeys (codes ['r', 'e', 'a', 'd']) = false := by decide
  have hcolor : textKeys (codes ['c', 'o', 'l', 'o', 'r']) = false := by decide
  have htime : textKeys (codes ['t', 'i', 'm', 'e']) = false := by decide
  simp [restFields, fieldsLength, hread, hcolor, htime]

/-- **An entry** makes the texts longer by at most what its texts add. -/
theorem textLength_text_le (h : Expects r) (hrun : reader.run r x.text = some r') :
    r'.Closed ∧ r'.textLength textKeys ≤ r.textLength textKeys + x.gain := by
  obtain ⟨r₁, h₁, hrun⟩ := reader.run_append_eq_some.1 hrun
  rw [run_entryStart h] at h₁
  obtain rfl := Option.some.inj h₁
  obtain ⟨r₂, h₂, hrun⟩ := reader.run_append_eq_some.1 hrun
  obtain ⟨r₃, h₃, hrun⟩ := reader.run_append_eq_some.1 hrun
  obtain ⟨r₄, h₄, hrun⟩ := reader.run_append_eq_some.1 hrun
  obtain ⟨r₅, h₅, hrun⟩ := reader.run_append_eq_some.1 hrun
  obtain ⟨r₆, h₆, hrun⟩ := reader.run_append_eq_some.1 hrun
  obtain ⟨r₇, h₇, hrun⟩ := reader.run_append_eq_some.1 hrun
  -- only the three texts make it longer; between them the state is known
  have hle₂ := textLength_run_string_le (p := textKeys) h₂
  have hle₃ := textLength_nextField (p := textKeys) fieldKey_title h₃
  obtain ⟨_, _, _, _, -, rfl⟩ := (run_nextField fieldKey_title).1 h₃
  have hle₄ := textLength_run_string_le (p := textKeys) h₄
  have hle₅ := textLength_nextField (p := textKeys) fieldKey_body h₅
  obtain ⟨_, _, _, _, -, rfl⟩ := (run_nextField fieldKey_body).1 h₅
  have hle₆ := textLength_run_string_le (p := textKeys) h₆
  have hle₇ := textLength_nextField (p := textKeys) fieldKey_time h₇
  obtain ⟨fields, k, fs, rev, -, rfl⟩ := (run_nextField fieldKey_time).1 h₇
  rw [run_time] at hrun
  obtain rfl := Option.some.inj hrun
  refine ⟨closed_complete _ _, ?_⟩
  have hstart : framesLength textKeys r.frames ≤ r.textLength textKeys := Nat.le_add_right ..
  have hend := lengthIn_object_le (p := textKeys)
    (restFields x.time x.read ((k, .string rev.reverse) :: fields)) fs
  rw [textLength_field] at hle₂ hle₇
  rw [fieldsLength_restFields] at hend
  rw [textLength_complete, Printed.gain]
  have hzero : fieldsLength textKeys [] = 0 := rfl
  omega

/-- After a comma the reader expects a value, or else a key. -/
theorem step_comma (h : r.Closed) (hstep : reader.step r ',' = some r') :
    (r'.mode = .value ∨ r'.mode = .key) ∧ r'.textLength textKeys ≤ r.textLength textKeys := by
  have hout : stepOutside ',' r = some r' := (step_of_closed h).symm.trans hstep
  refine ⟨?_, textLength_stepOutside_le hout⟩
  obtain ⟨fs, mode⟩ := r
  rcases h with rfl | rfl | ⟨v, rfl⟩
  · cases hout
  · rcases fs with - | ⟨⟨items⟩ | ⟨fields, key⟩, fs⟩
    · cases hout
    · obtain rfl := Option.some.inj hout
      exact Or.inl rfl
    · obtain rfl := Option.some.inj hout
      exact Or.inr rfl
  · cases hout

/-- An entry is not a key. -/
theorem run_text_of_key (h : r.mode = .key) (rest : List Char) :
    reader.run r (x.text ++ rest) = none := by
  obtain ⟨fs, mode⟩ := r
  obtain rfl : mode = .key := h
  rfl

/-- What is loaded from the end of a file. -/
theorem listLength_le_of_end {v : Value} (h : r.Closed)
    (hrun : reader.run r ['\n', ']', '\n'] = some r') (hv : r'.finish = some v) :
    v.listLength textKeys ≤ r.textLength textKeys := by
  have hspace : ∀ r₁ : Reader, r₁.Closed → reader.step r₁ '\n' = some r₁ :=
    fun r₁ h₁ ↦ (step_of_closed h₁).trans rfl
  obtain ⟨r₁, h₁, hrun⟩ := reader.run_cons_eq_some.1 hrun
  obtain rfl := Option.some.inj ((hspace r h).symm.trans h₁)
  obtain ⟨r₂, h₂, hrun⟩ := reader.run_cons_eq_some.1 hrun
  have hout : stepOutside ']' r = some r₂ := (step_of_closed h).symm.trans h₂
  have hclosed : r₂.Closed := by
    obtain ⟨fs, mode⟩ := r
    rcases h with rfl | rfl | ⟨w, rfl⟩
    · cases hout
    · rcases fs with - | ⟨⟨items⟩ | ⟨fields, key⟩, fs⟩
      · cases hout
      · obtain rfl := Option.some.inj hout
        exact closed_complete _ _
      · cases hout
    · cases hout
  obtain ⟨r₃, h₃, hrun⟩ := reader.run_cons_eq_some.1 hrun
  obtain rfl := Option.some.inj ((hspace r₂ hclosed).symm.trans h₃)
  obtain rfl := Option.some.inj hrun
  exact (listLength_finish_le hv).trans (textLength_stepOutside_le hout)

/-- **What is loaded** has texts that are at most as long as what the printed ones add. -/
theorem length_le_of_run {v : Value} (h : Expects r)
    (hrun : reader.run r (linesText (x :: xs)) = some r') (hv : r'.finish = some v) :
    v.listLength textKeys ≤ r.textLength textKeys + ((x :: xs).map Printed.gain).sum := by
  induction xs generalizing x r with
  | nil =>
    rw [linesText] at hrun
    obtain ⟨r₁, h₁, hrun⟩ := reader.run_append_eq_some.1 hrun
    obtain ⟨hclosed, hle⟩ := textLength_text_le h h₁
    have hend := listLength_le_of_end hclosed hrun hv
    simpa using hend.trans hle
  | cons y ys ih =>
    rw [linesText] at hrun
    obtain ⟨r₁, h₁, hrun⟩ := reader.run_append_eq_some.1 hrun
    obtain ⟨hclosed, hle⟩ := textLength_text_le h h₁
    -- the comma, the newline and then the next entry, which is not a key
    obtain ⟨r₂, h₂, hrun⟩ := reader.run_cons_eq_some.1 hrun
    obtain ⟨hmode, hcomma⟩ := step_comma hclosed h₂
    obtain ⟨r₃, h₃, hrun⟩ := reader.run_cons_eq_some.1 hrun
    have hsame : r₃ = r₂ := by
      obtain ⟨fs, mode⟩ := r₂
      rcases hmode with rfl | rfl <;> exact (Option.some.inj h₃).symm
    rw [hsame] at hrun
    rcases hmode with hmode | hmode
    · have hrest := ih (Or.inl hmode) hrun
      rw [List.map_cons, List.sum_cons]
      omega
    · rw [linesText, run_text_of_key hmode] at hrun
      cases hrun

/-! ### The table comes back -/

/-- The texts of a notification are plain. -/
def Contents.IsPlain (c : Contents) : Prop :=
  PlainText c.app ∧ PlainText c.title ∧ PlainText c.body

/-- A loaded text is the printed one. -/
theorem length_le_of_loaded {key : List ℕ} {fields : List (List ℕ × Value)} {b : Bytes}
    {t : List Char} (ht : encode t = b)
    (h : ∃ s, decodeStrict b = some s ∧
      (Value.object fields).get? key = some (.string (codes s))) :
    t.length ≤ fieldsLength (fun k ↦ decide (k = key)) fields := by
  obtain ⟨s, hs, hget⟩ := h
  rw [← ht, decodeStrict_encode] at hs
  obtain rfl := Option.some.inj hs
  have hle := length_le_of_get? hget
  rwa [codes, List.length_map] at hle

/-- A loaded entry has all of its notification's texts. -/
theorem length_le_entryLength {v : Value} (hx : x.Of localtime n) (hv : LoadedAs n v) :
    x.length ≤ v.entryLength textKeys := by
  cases v with
  | object fields =>
    have hkeys : fieldsLength textKeys fields = _ :=
      (fieldsLength_or (by simp [codes]) fields).trans
        (congrArg (_ + ·) (fieldsLength_or (by simp [codes]) fields))
    rw [Value.entryLength, hkeys, Printed.length]
    exact Nat.add_le_add (length_le_of_loaded hx.app hv.app)
      (Nat.add_le_add (length_le_of_loaded hx.title hv.title)
        (length_le_of_loaded hx.body hv.body))
  | _ =>
    obtain ⟨s, -, hget⟩ := hv.app
    cases hget

theorem sum_length_le {vs : List Value} (hxs : List.Forall₂ (Printed.Of localtime) ns xs)
    (hvs : List.Forall₂ LoadedAs ns vs) :
    (xs.map Printed.length).sum ≤ itemsLength textKeys vs := by
  induction hxs generalizing vs with
  | nil => exact Nat.zero_le _
  | cons hx _ ih =>
    cases hvs with
    | cons hv hvs =>
      rw [List.map_cons, List.sum_cons, itemsLength, List.map_cons, List.sum_cons]
      exact Nat.add_le_add (length_le_entryLength hx hv) (ih hvs)

/-- If the texts add all of their length, they are plain. -/
theorem isPlain_of_sum_le (h : (xs.map Printed.length).sum ≤ (xs.map Printed.gain).sum) :
    ∀ y ∈ xs, y.IsPlain := by
  induction xs with
  | nil => exact fun y hy ↦ absurd hy List.not_mem_nil
  | cons x xs ih =>
    have hsum : (xs.map Printed.gain).sum ≤ (xs.map Printed.length).sum :=
      List.sum_le_sum fun y _ ↦ y.gain_le
    have hx := x.gain_le
    rw [List.map_cons, List.sum_cons, List.map_cons, List.sum_cons] at h
    rw [List.forall_mem_cons]
    exact ⟨Printed.isPlain_of_length_le (by omega), ih (by omega)⟩

/-- The texts of the notifications are those that were printed. -/
theorem isPlain_contents_of_forall₂ (hxs : List.Forall₂ (Printed.Of localtime) ns xs)
    (hplain : ∀ y ∈ xs, y.IsPlain) : ∀ n ∈ ns, n.contents.IsPlain := by
  induction hxs with
  | nil => exact fun n hn ↦ absurd hn List.not_mem_nil
  | cons h _ ih =>
    rw [List.forall_mem_cons] at hplain ⊢
    obtain ⟨⟨happ, htitle, hbody⟩, hrest⟩ := hplain
    exact ⟨⟨⟨_, decodeStrict_eq_some_iff.2 h.app, happ⟩,
      ⟨_, decodeStrict_eq_some_iff.2 h.title, htitle⟩,
      ⟨_, decodeStrict_eq_some_iff.2 h.body, hbody⟩⟩, ih hrest⟩

/-- Plain texts are printed as text. -/
theorem exists_printed (h : ∀ n ∈ ns, n.contents.IsPlain) (localtime : ℤ → Tm) :
    ∃ xs, List.Forall₂ (Printed.Of localtime) ns xs ∧ ∀ y ∈ xs, y.IsPlain := by
  induction ns with
  | nil => exact ⟨[], .nil, fun y hy ↦ absurd hy List.not_mem_nil⟩
  | cons n ns ih =>
    obtain ⟨⟨⟨app, happ, hplain⟩, ⟨title, htitle, hplain'⟩, body, hbody, hplain''⟩, hrest⟩ :=
      List.forall_mem_cons.1 h
    obtain ⟨xs, hxs, hplains⟩ := ih hrest
    refine ⟨⟨app, title, body, localtime n.timestamp, n.read != 0⟩ :: xs, .cons ?_ hxs,
      List.forall_mem_cons.2 ⟨⟨hplain, hplain', hplain''⟩, hplains⟩⟩
    exact ⟨decodeStrict_eq_some_iff.1 happ, decodeStrict_eq_some_iff.1 htitle,
      decodeStrict_eq_some_iff.1 hbody, rfl, rfl⟩

/-- What is read of plain texts is the notification. -/
theorem Printed.Of.loadedAs (h : x.Of localtime n) : LoadedAs n (.object x.fields) where
  app := ⟨x.app, decodeStrict_eq_some_iff.2 h.app, rfl⟩
  title := ⟨x.title, decodeStrict_eq_some_iff.2 h.title, rfl⟩
  body := ⟨x.body, decodeStrict_eq_some_iff.2 h.body, rfl⟩
  read := by
    rw [← h.read]
    rfl

/-- The file as text. -/
theorem encode_file (h : List.Forall₂ (Printed.Of localtime) st.notifs.live xs) :
    encode ('[' :: '\n' :: linesText xs) = writeNotifFile localtime st := by
  have hopen : ofAscii "[\n" = encode ['[', '\n'] := by decide
  rw [writeNotifFile, hopen, List.append_assoc, ← encode_linesText h, ← encode_append]
  rfl

/-- What is loaded from a file of plain texts. -/
theorem exists_jsonLoad_eq (h : ∀ n ∈ st.notifs.live, n.contents.IsPlain) (localtime : ℤ → Tm) :
    ∃ xs, List.Forall₂ (Printed.Of localtime) st.notifs.live xs ∧
      jsonLoad (writeNotifFile localtime st) = some (.array (xs.map fun y ↦ .object y.fields)) := by
  obtain ⟨xs, hxs, hplain⟩ := exists_printed h localtime
  refine ⟨xs, hxs, ?_⟩
  rw [jsonLoad, ← encode_file hxs, decodeStrict_encode, Option.bind_some, parse_linesText hplain]

/-- **The file can be read back** if and only if the texts in the table are plain. -/
theorem roundTrips_table_iff :
    RoundTrips localtime st ↔ ∀ n ∈ st.notifs.live, n.contents.IsPlain := by
  constructor
  · rintro ⟨hsome, vs, hload, hvs⟩
    obtain ⟨v, hv⟩ := Option.isSome_iff_exists.1 hsome
    obtain rfl : v = .array vs := by rwa [NotificationCenter.load, hv, Option.getD_some] at hload
    obtain ⟨s, hs, hparse⟩ := Option.bind_eq_some_iff.1 hv
    have hopen : ofAscii "[\n" = encode ['[', '\n'] := by decide
    have hfile := decodeStrict_eq_some_iff.1 hs
    rw [writeNotifFile, hopen, List.append_assoc] at hfile
    -- the file is UTF-8, so that it was printed from texts
    obtain ⟨u, rfl, hu⟩ := exists_of_encode_eq_append hfile
    obtain ⟨xs, hxs, rfl⟩ := printed_of_decode hu
    obtain ⟨r', hrun, hfinish⟩ := Option.bind_eq_some_iff.1 hparse
    -- what is loaded has all of their length, but is no longer than what they add
    have hplain : ∀ y ∈ xs, y.IsPlain := by
      refine isPlain_of_sum_le ((sum_length_le hxs hvs).trans ?_)
      cases xs with
      | nil =>
        rw [List.forall₂_nil_right_iff.1 hxs] at hvs
        rw [List.forall₂_nil_left_iff.1 hvs]
        exact le_rfl
      | cons x xs =>
        have hle := length_le_of_run (r := ⟨[.array []], .firstItem⟩) (Or.inr rfl) hrun hfinish
        have hzero : Reader.textLength textKeys ⟨[.array []], .firstItem⟩ = 0 := rfl
        rwa [hzero, Nat.zero_add] at hle
    exact isPlain_contents_of_forall₂ hxs hplain
  · intro h
    obtain ⟨xs, hxs, hload⟩ := exists_jsonLoad_eq h localtime
    refine ⟨by rw [hload]; rfl, _, by rw [NotificationCenter.load, hload, Option.getD_some], ?_⟩
    exact List.forall₂_map_right_iff.2 (hxs.imp fun _ _ hx ↦ hx.loadedAs)

/-! ### Runs -/

/-- **A request keeps the table plain** exactly if its own texts are plain. -/
theorem isPlain_step (hterminated : st.notifs.AllSlots TextsTerminated)
    (hplain : ∀ n ∈ st.notifs.live, n.contents.IsPlain) (l : ℤ × PushRequest) :
    (handlePushRequest l.1 st l.2).notifs.AllSlots TextsTerminated ∧
      (PlainRequest st l ↔
        ∀ n ∈ (handlePushRequest l.1 st l.2).notifs.live, n.contents.IsPlain) := by
  rw [handlePushRequest]
  split
  next hop =>
    refine ⟨hterminated.slide maxNotifs_pos fun n hn ↦ hn.setNotif st l.1 l.2, ?_⟩
    -- the new contents come last, and the oldest go
    have hlive := st.notifs.map_live_slide_self maxNotifs_pos (f := setNotif st l.1 l.2)
      fun hroom ↦ contents_setNotif ((hterminated.makeRoom maxNotifs_pos).nextSlot hroom) 0
    have hall : (∀ n ∈ (pushSend l.1 st l.2).notifs.live, n.contents.IsPlain) ↔
        ∀ c ∈ (pushSend l.1 st l.2).notifs.live.map PushNotification.contents, c.IsPlain :=
      List.forall_mem_map.symm
    rw [hall, show (pushSend l.1 st l.2).notifs = st.notifs.slide maxNotifs_pos
      (setNotif st l.1 l.2) from rfl, hlive, List.rtake_concat_succ]
    constructor
    · intro hreq c hc
      rcases List.mem_append.1 hc with hc | hc
      · obtain ⟨n, hn, rfl⟩ := List.mem_map.1 (List.mem_of_mem_drop hc)
        exact hplain n hn
      · rw [List.mem_singleton.1 hc]
        exact hreq hop
    · intro hc _
      exact hc _ (List.mem_append_right _ (List.mem_singleton_self _))
  next hop =>
    refine ⟨hterminated, iff_of_true (fun hsend ↦ ?_) fun n hn ↦ ?_⟩
    · rw [hop] at hsend
      exact absurd hsend (by decide)
    · rw [show st.clear.notifs.live = [] from st.notifs.live_clear] at hn
      exact absurd hn List.not_mem_nil
  next hsend hclear =>
    exact ⟨hterminated, iff_of_true (fun hop ↦ absurd hop hsend) hplain⟩

/-- The daemon starts with a plain notification. -/
theorem isPlain_start (now : ℤ) : (pushStartupNotifs now).notifs.AllSlots TextsTerminated ∧
    ∀ n ∈ (pushStartupNotifs now).notifs.live, n.contents.IsPlain := by
  have hinit : (State.init).notifs.AllSlots TextsTerminated :=
    PackedTable.allSlots_empty textsTerminated_zero
  have hstep := isPlain_step hinit (fun n hn ↦ absurd hn List.not_mem_nil) (now, startupRequest)
  have happ : encode "Julius OS".toList = (cstr (startupRequest.field 1)).take 63 := by
    decide +kernel
  have htitle : encode "System Ready".toList = (cstr (startupRequest.field 2)).take 127 := by
    decide +kernel
  have hbody : encode "All services running".toList = (cstr (startupRequest.field 3)).take 255 := by
    decide +kernel
  exact ⟨hstep.1, hstep.2.1 fun _ ↦ ⟨⟨_, decodeStrict_eq_some_iff.2 happ, plain_of_all (by decide)⟩,
    ⟨_, decodeStrict_eq_some_iff.2 htitle, plain_of_all (by decide)⟩,
    ⟨_, decodeStrict_eq_some_iff.2 hbody, plain_of_all (by decide)⟩⟩⟩

/-- **When the notification file can be read.** In every run of the daemon, the file is accepted and
loads as the table in every state, exactly if every text that a request stores is plain. -/
theorem notif_file_iff (localtime : ℤ → Tm) (t₀ : ℤ) (reqs : List (ℤ × PushRequest)) :
    daemon.Guarded PlainRequest (pushStartupNotifs t₀) reqs ↔
      ∀ k st, daemon.run (pushStartupNotifs t₀) (reqs.take k) = some st →
        RoundTrips localtime st := by
  obtain ⟨st, hrun⟩ := daemon.exists_run_of_total (fun _ _ ↦ ⟨_, rfl⟩) (pushStartupNotifs t₀) reqs
  obtain ⟨hterminated, hplain⟩ := isPlain_start t₀
  refine Machine.guarded_iff_forall_take (J := fun st ↦ st.notifs.AllSlots TextsTerminated)
    (fun st l st' hterminated hplain hstep ↦ ?_) hterminated (roundTrips_table_iff.2 hplain) hrun
  obtain rfl := Option.some.inj hstep
  have hnext := isPlain_step hterminated (roundTrips_table_iff.1 hplain) l
  exact ⟨hnext.1, hnext.2.trans roundTrips_table_iff.symm⟩

/-- A `PUSH_SEND` of a title that is a quote. -/
def quoteRequest : PushRequest where
  bytes := [Bytes.le 4 pushOpSend, Bytes.ljust 64 0 [65], Bytes.ljust 128 0 (ofAscii "\""),
    Bytes.ljust 256 0 [66], List.replicate 80 0].flatten
  length_bytes := by decide +kernel

/-- The file with the quote is not accepted, so that the UI shows no notification at all. -/
theorem not_roundTrips_quote :
    ∃ st, daemon.run (pushStartupNotifs 0) [(0, quoteRequest)] = some st ∧
      ¬ RoundTrips (fun _ ↦ ⟨12, 0⟩) st := by
  have htitles : (handlePushRequest 0 (pushStartupNotifs 0) quoteRequest).notifs.live.map
      (fun n ↦ n.contents.title) = [ofAscii "System Ready", ofAscii "\""] := by decide +kernel
  refine ⟨_, rfl, fun h ↦ ?_⟩
  have hmem : ofAscii "\"" ∈ [ofAscii "System Ready", ofAscii "\""] := by simp
  rw [← htitles] at hmem
  obtain ⟨n, hn, htitle⟩ := List.mem_map.1 hmem
  obtain ⟨-, ⟨s, hs, hplain⟩, -⟩ := roundTrips_table_iff.1 h n hn
  have hquote : encode ['"'] = n.contents.title := htitle ▸ by decide
  obtain rfl := Option.some.inj ((decodeStrict_eq_some_iff.2 hquote).symm.trans hs)
  exact (hplain '"' (List.mem_singleton_self _)).1 rfl

end JuliusOS.Push
