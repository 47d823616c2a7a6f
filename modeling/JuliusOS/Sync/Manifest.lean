import JuliusOS.Foundations.CString
import JuliusOS.Foundations.JsonLength
import JuliusOS.Foundations.Utf8
import Mathlib.Tactic.NormNum

/-!
# The manifest of julius_sync

`sync_thread` collects the files of `SYNC_DIR` into an array on its stack and sends a JSON text that
lists them. The names are printed as they are, and the text is put together in a buffer of 8192
bytes that cuts off what does not fit. A name of 255 bytes fills its field up to a byte that nobody
writes, so that what is printed may run on into the struct.

* `Lists` is what the manifest is for: whatever was on the stack, it is one document and a newline,
  and the document lists the files with their names, sizes and digests;
* `run_entriesText`: entries with plain names are read as they are;
* `lists_iff` says that the names have to be plain and shorter than 255 bytes, that all of the text
  has to fit, and that every file has to be readable. That a text which is cut off, or has other
  names in it, is not read as this document after all follows from the lengths
  (`Json.weight_le_of_parse`).
-/

open CString Utf8 Json

namespace JuliusOS.Sync

/-! ### The program -/

/-- A `SyncFile`. -/
structure SyncFile where
  name : Buf 256
  size : ℕ
  mtime : ℤ
  sha256 : Buf 32
  synced : ℤ

/-- The struct as it lies in memory, up to its padding. -/
def SyncFile.memory (f : SyncFile) : Bytes :=
  f.name.bytes ++
    (Bytes.le 8 f.size ++ (Bytes.leInt 8 f.mtime ++ (f.sha256.bytes ++ Bytes.leInt 4 f.synced)))

/-- What `stat` tells of a file. -/
structure Stat where
  size : ℕ
  mtime : ℤ
  size_lt : size < 2 ^ 63

/-- An entry of the directory. -/
structure Dirent where
  /-- `d_name`, as text. -/
  name : List Char
  /-- What `stat` tells, if it succeeds. -/
  stat : Option Stat
  /-- What is in the file. -/
  content : Bytes
  /-- `fopen` succeeds. -/
  fopen : Bool
  name_ne_nil : name ≠ []
  length_name_le : (encode name).length ≤ 255
  zero_notMem_name : (0 : UInt8) ∉ encode name

/-- `e->d_name[0] == '.'` fails. -/
def Dirent.visible (e : Dirent) : Bool := (encode e.name).head? != some 46

section

variable (sha256 : Bytes → Buf 32)

/-- `compute_sha256`. -/
def computeSha256 (e : Dirent) : Buf 32 := if e.fopen then sha256 e.content else .zero 32

/-- The loop of `collect_sync_files`: the entries of the array that are filled from number `count`
on. The path of every file fits its buffer. -/
def collectLoop (max : ℕ) : (ℕ → SyncFile) → ℕ → List Dirent → List SyncFile
  | _, _, [] => []
  | files, count, e :: es =>
    if count < max then
      if e.visible then
        let f2 := { files count with
          name := (files count).name.strncpy (encode e.name) 255 Buf.le_256 }
        match e.stat with
        | some st =>
          { f2 with size := st.size, mtime := st.mtime, sha256 := computeSha256 sha256 e,
                    synced := 0 } :: collectLoop max files (count + 1) es
        | none => collectLoop max (Function.update files count f2) count es
      else collectLoop max files count es
    else []

/-- `collect_sync_files`, with what the array holds at first, and the directory if it can be
opened. -/
def collectSyncFiles (files : ℕ → SyncFile) (max : ℕ) (dir : Option (List Dirent)) :
    List SyncFile :=
  match dir with
  | none => []
  | some es => collectLoop sha256 max files 0 es

/-- `sprintf(hex+j*2, "%02x", ...)` for every byte. -/
def hexText (digest : Bytes) : List Char :=
  digest.flatMap fun b ↦ [Nat.digitChar (b.toNat / 16), Nat.digitChar (b.toNat % 16)]

/-- The format of an entry up to the name. -/
def nameFormat : List Char := "\x7b\"name\":\"".toList

/-- From there up to the size. -/
def sizeFormat : List Char := "\",\"size\":".toList

/-- From there up to the digest. -/
def hashFormat : List Char := ",\"hash\":\"".toList

/-- From there up to the comma. -/
def endFormat : List Char := "\"\x7d".toList

/-- `snprintf(entry, sizeof(entry), ...)`. -/
def manifestEntry (f : SyncFile) (last : Bool) : Bytes :=
  (encode nameFormat ++ (cstr f.memory ++ (encode sizeFormat ++
    (encode (Nat.toDigits 10 f.size) ++ (encode hashFormat ++ (encode (hexText f.sha256.bytes) ++
      (encode endFormat ++ encode (if last then [] else [',']))))))) : Bytes).take 511

/-- `strncat(manifest, text, sizeof(manifest)-strlen(manifest)-1)`, on the text in `manifest`. -/
def appendText (manifest text : Bytes) : Bytes :=
  manifest ++ text.take (8192 - manifest.length - 1)

/-- What `manifest` holds at first. -/
def startText : List Char := "\x7b\"action\":\"sync\",\"files\":[".toList

/-- What is appended at the end, up to the newline. -/
def endText : List Char := "]\x7d".toList

/-- The loop over the files, and the end. -/
def manifestLoop : Bytes → List SyncFile → Bytes
  | manifest, [] => appendText manifest (encode (endText ++ ['\n']))
  | manifest, f :: fs => manifestLoop (appendText manifest (manifestEntry f fs.isEmpty)) fs

/-- What `sync_thread` sends as the manifest of a directory. -/
def syncManifest (files : ℕ → SyncFile) (dir : List Dirent) : Bytes :=
  manifestLoop (encode startText) (collectSyncFiles sha256 files 256 (some dir))

/-! ### The document -/

/-- A directory with at most 256 visible entries. -/
structure SyncDir where
  entries : List Dirent
  length_visible_le : (entries.filter Dirent.visible).length ≤ 256

/-- The visible entries that `stat` succeeds for. -/
def filesOf (es : List Dirent) : List (Dirent × Stat) :=
  (es.filter Dirent.visible).filterMap fun e ↦ e.stat.map (e, ·)

/-- The object for a file with a digest. -/
def fileValue (digest : Buf 32) (x : Dirent × Stat) : Value :=
  .object [(codes ['h', 'a', 's', 'h'], .string (codes (hexText digest.bytes))),
    (codes ['s', 'i', 'z', 'e'], .number (Nat.toDigits 10 x.2.size)),
    (codes ['n', 'a', 'm', 'e'], .string (codes x.1.name))]

/-- The document that lists some files with their digests. -/
def manifestValue (digest : Dirent → Buf 32) (xs : List (Dirent × Stat)) : Value :=
  .object [(codes ['f', 'i', 'l', 'e', 's'], .array (xs.map fun x ↦ fileValue (digest x.1) x)),
    (codes ['a', 'c', 't', 'i', 'o', 'n'], .string (codes ['s', 'y', 'n', 'c']))]

/-- **What the manifest is for**: whatever the array holds at first, what is sent is one document
and a newline, and the document lists the files with their names, sizes and SHA-256. -/
def Lists (d : SyncDir) : Prop :=
  ∀ files, ∃ doc, syncManifest sha256 files d.entries = doc ++ [10] ∧
    (decodeStrict doc).bind parse =
      some (manifestValue (fun e ↦ sha256 e.content) (filesOf d.entries))

/-- The length of the entries, each with a comma. -/
def entriesLength : List (Dirent × Stat) → ℕ
  | [] => 0
  | x :: xs => 94 + (encode x.1.name).length + (Nat.toDigits 10 x.2.size).length + entriesLength xs

/-- The condition on a directory. -/
structure SyncDir.Fits (d : SyncDir) : Prop where
  /-- The whole text has at most 8191 bytes. -/
  length : 28 + entriesLength (filesOf d.entries) ≤ 8191
  /-- The names have no quotes, backslashes and control characters. -/
  plain : ∀ x ∈ filesOf d.entries, ∀ c ∈ x.1.name, Plain c
  /-- They leave room for a NUL. -/
  name : ∀ x ∈ filesOf d.entries, (encode x.1.name).length ≤ 254
  /-- A file that cannot be opened is listed with zeros. -/
  hash : ∀ x ∈ filesOf d.entries, x.1.fopen = true ∨ sha256 x.1.content = .zero 32

end

variable {sha256 : Bytes → Buf 32} {x : Dirent × Stat} {f : SyncFile}

/-! ### The array -/

/-- What is collected of a file, when the byte behind its name satisfies `P`. -/
structure Collected (sha256 : Bytes → Buf 32) (P : UInt8 → Prop) (x : Dirent × Stat)
    (f : SyncFile) : Prop where
  name : ∃ g, P g ∧ f.name.bytes = Bytes.ljust 255 0 (encode x.1.name) ++ [g]
  size : f.size = x.2.size
  sha256 : f.sha256 = computeSha256 sha256 x.1
  synced : f.synced = 0

/-- The last byte of a name field. -/
def SyncFile.lastByte (f : SyncFile) : UInt8 := f.name.bytes.getD 255 0

/-- A copy of at most 255 bytes leaves the last byte alone. -/
theorem bytes_strncpy_name (f : SyncFile) (e : Dirent) :
    (f.name.strncpy (encode e.name) 255 Buf.le_256).bytes =
      Bytes.ljust 255 0 (encode e.name) ++ [f.lastByte] := by
  have hlen := f.name.length_bytes
  have hdrop : f.name.bytes.drop 255 = [f.lastByte] := by
    rw [List.drop_eq_getElem_cons (by omega), List.drop_of_length_le (by omega)]
    exact congrArg (fun b ↦ [b]) (List.getD_eq_getElem _ _ _).symm
  show strncpy f.name.bytes (encode e.name) 255 = _
  rw [strncpy, cstr_eq_self e.zero_notMem_name, List.take_of_length_le e.length_name_le, hdrop]

theorem filesOf_cons (e : Dirent) (es : List Dirent) :
    filesOf (e :: es) = (if e.visible then (e.stat.map (e, ·)).toList else []) ++ filesOf es := by
  rw [filesOf, filesOf, List.filter_cons]
  split
  next =>
    rw [List.filterMap_cons]
    cases e.stat <;> rfl
  next => rfl

/-- **The array lists the files**, as long as there is room for all visible entries. -/
theorem forall₂_collectLoop (sha256 : Bytes → Buf 32) {P : UInt8 → Prop} {max count : ℕ}
    {es : List Dirent} {files : ℕ → SyncFile} (hfiles : ∀ i, P (files i).lastByte)
    (hroom : count + (es.filter Dirent.visible).length ≤ max) :
    List.Forall₂ (Collected sha256 P) (filesOf es) (collectLoop sha256 max files count es) := by
  induction es generalizing files count with
  | nil => exact .nil
  | cons e es ih =>
    rw [List.filter_cons] at hroom
    rw [filesOf_cons, collectLoop]
    by_cases hvisible : e.visible = true
    · rw [if_pos hvisible, List.length_cons] at hroom
      rw [if_pos hvisible, if_pos hvisible, if_pos (by omega)]
      cases hstat : e.stat with
      | none =>
        refine ih (fun i ↦ ?_) (by omega)
        by_cases hi : i = count
        · rw [hi, Function.update_self, SyncFile.lastByte, bytes_strncpy_name,
            List.getD_append_right _ _ _ _ (Bytes.length_ljust_of_le e.length_name_le).le,
            Bytes.length_ljust_of_le e.length_name_le]
          exact hfiles count
        · rw [Function.update_of_ne hi]
          exact hfiles i
      | some st =>
        exact .cons ⟨⟨_, hfiles count, bytes_strncpy_name _ e⟩, rfl, rfl, rfl⟩
          (ih hfiles (by omega))
    · rw [if_neg hvisible] at hroom
      rw [if_neg hvisible, if_neg hvisible]
      split
      next => exact ih hfiles hroom
      next hge =>
        have hnone : es.filter Dirent.visible = [] := List.length_eq_zero_iff.1 (by omega)
        rw [filesOf, hnone]
        exact .nil

/-! ### What is printed of a name -/

/-- The length of what is printed of a name. -/
theorem length_cstr_memory_le {P : UInt8 → Prop} (h : Collected sha256 P x f) :
    (cstr f.memory).length ≤ 307 := by
  have hzero : (0 : UInt8) ∈ f.memory := by
    simp [SyncFile.memory, h.synced, Bytes.leInt, Bytes.le]
  have hlt := length_cstr_lt_of_mem hzero
  have hname := f.name.length_bytes
  have hsha := f.sha256.length_bytes
  simp only [SyncFile.memory, List.length_append, Bytes.length_le, Bytes.length_leInt] at hlt
  exact Nat.le_of_lt_succ (lt_of_lt_of_eq hlt (by omega))

/-- **A name** is printed as it is if it leaves room for a NUL, or there is one behind it. -/
theorem cstr_memory_eq {P : UInt8 → Prop} (h : Collected sha256 P x f)
    (hname : (encode x.1.name).length ≤ 254 ∨ ∀ g, P g → g = 0) :
    cstr f.memory = encode x.1.name := by
  obtain ⟨g, hg, hbytes⟩ := h.name
  have hfree := x.1.zero_notMem_name
  rw [SyncFile.memory, hbytes, List.append_assoc]
  rcases Nat.lt_or_ge (encode x.1.name).length 255 with hlt | hge
  · have hzero : (0 : UInt8) ∈ Bytes.ljust 255 0 (encode x.1.name) :=
      List.mem_append_right _ (List.mem_replicate.2 ⟨by omega, rfl⟩)
    rw [cstr_append_of_mem hzero, cstr_ljust hfree]
  · obtain rfl : g = 0 := hname.resolve_left (by omega) g hg
    rw [Bytes.ljust, Nat.sub_eq_zero_of_le hge, List.replicate_zero, List.append_nil,
      List.singleton_append, cstr_append_zero hfree]

/-- A name of 255 bytes is followed by what was in the array. -/
theorem exists_cstr_memory {P : UInt8 → Prop} (h : Collected sha256 P x f)
    (hname : (encode x.1.name).length = 255) (hP : ∀ g, P g → g = 255) :
    ∃ junk, cstr f.memory = encode x.1.name ++ 255 :: junk := by
  obtain ⟨g, hg, hbytes⟩ := h.name
  obtain rfl := hP g hg
  have hnext : ∀ rest, cstr (255 :: rest) = 255 :: cstr rest := fun rest ↦
    cstr_append_of_notMem (a := [255]) (by decide)
  rw [SyncFile.memory, hbytes, List.append_assoc, Bytes.ljust, hname, Nat.sub_self,
    List.replicate_zero, List.append_nil, cstr_append_of_notMem x.1.zero_notMem_name,
    List.singleton_append, hnext]
  exact ⟨_, rfl⟩

/-! ### The text -/

/-- The text of an entry behind the name. -/
def restText (digest : Buf 32) (x : Dirent × Stat) : List Char :=
  sizeFormat ++ (Nat.toDigits 10 x.2.size ++ (hashFormat ++ (hexText digest.bytes ++ endFormat)))

/-- The text of an entry. -/
def fileText (digest : Buf 32) (x : Dirent × Stat) : List Char :=
  nameFormat ++ (x.1.name ++ restText digest x)

/-- The text of the entries. -/
def entriesText (digest : Dirent → Buf 32) : List (Dirent × Stat) → List Char
  | [] => []
  | x :: xs =>
    fileText (digest x.1) x ++ ((if xs.isEmpty then [] else [',']) ++ entriesText digest xs)

/-- The text of the document. -/
def documentText (digest : Dirent → Buf 32) (xs : List (Dirent × Stat)) : List Char :=
  startText ++ (entriesText digest xs ++ endText)

theorem hexText_spec (digest : Buf 32) :
    (∀ c ∈ hexText digest.bytes, Plain c ∧ c.toNat < 128) ∧
      (hexText digest.bytes).length = 64 := by
  constructor
  · have hdigit : ∀ d : Fin 16, Plain (Nat.digitChar d) ∧ (Nat.digitChar d).toNat < 128 := by decide
    intro c hc
    obtain ⟨b, -, hb⟩ := List.mem_flatMap.1 hc
    have hlt := b.toNat_lt
    rw [List.mem_cons, List.mem_singleton] at hb
    rcases hb with rfl | rfl
    · exact hdigit ⟨b.toNat / 16, by omega⟩
    · exact hdigit ⟨b.toNat % 16, by omega⟩
  · have hlen : ∀ l : Bytes, (hexText l).length = 2 * l.length := by
      intro l
      induction l with
      | nil => rfl
      | cons b l ih =>
        rw [hexText, List.flatMap_cons, List.length_append, ← hexText, ih, List.length_cons]
        exact Nat.add_comm ..
    rw [hlen, digest.length_bytes]

theorem digits_spec (x : Dirent × Stat) :
    (∀ c ∈ Nat.toDigits 10 x.2.size, c.toNat < 128) ∧
      (Nat.toDigits 10 x.2.size).length ≤ 19 := by
  constructor
  · intro c hc
    have hdigit := Nat.isDigit_of_mem_toDigits (by decide) (by decide) hc
    exact lt_of_le_of_lt (Char.isDigit_iff_toNat.1 hdigit).2 (by decide)
  · have hlt : x.2.size < 10 ^ 19 := lt_of_lt_of_le x.2.size_lt (by norm_num)
    exact (Nat.length_toDigits_le_iff (by decide) (by decide)).2 hlt

/-- The length of what is printed behind a name. -/
theorem length_encode_restText (digest : Buf 32) (x : Dirent × Stat) :
    (encode (restText digest x)).length =
      84 + (Nat.toDigits 10 x.2.size).length := by
  obtain ⟨hhex, hlen⟩ := hexText_spec digest
  have hsize : (encode sizeFormat).length = 9 := by decide
  have hhash : (encode hashFormat).length = 9 := by decide
  have hend : (encode endFormat).length = 2 := by decide
  have hdigits := length_encode_of_lt (digits_spec x).1
  have hdigest := length_encode_of_lt fun c hc ↦ (hhex c hc).2
  simp only [restText, encode_append, List.length_append, hsize, hhash, hend, hdigits, hdigest,
    hlen]
  omega

/-- **An entry** is not cut off by its own buffer. -/
theorem manifestEntry_eq {P : UInt8 → Prop} (h : Collected sha256 P x f) (last : Bool) :
    manifestEntry f last = encode nameFormat ++ (cstr f.memory ++
      (encode (restText (computeSha256 sha256 x.1) x) ++
        encode (if last then [] else [',']))) := by
  have hrest := length_encode_restText (computeSha256 sha256 x.1) x
  have hdigits := (digits_spec x).2
  have hname := length_cstr_memory_le h
  have hformat : (encode nameFormat).length = 9 := by decide
  have hcomma : (encode (if last then [] else [','])).length ≤ 1 := by
    cases last <;> decide
  have hsplit : encode sizeFormat ++ (encode (Nat.toDigits 10 f.size) ++ (encode hashFormat ++
      (encode (hexText f.sha256.bytes) ++ (encode endFormat ++
        encode (if last then [] else [',']))))) =
      encode (restText (computeSha256 sha256 x.1) x) ++
        encode (if last then [] else [',']) := by
    rw [h.size, h.sha256, restText]
    simp only [encode_append, List.append_assoc]
  rw [manifestEntry, hsplit]
  refine List.take_of_length_le ?_
  simp only [List.length_append]
  omega

/-- Text that is appended goes as far as the buffer. -/
theorem appendText_take (a b : Bytes) : appendText (a.take 8191) b = (a ++ b).take 8191 := by
  have hroom : 8192 - (a.take 8191).length - 1 = 8191 - a.length := by
    rw [List.length_take]
    omega
  rw [appendText, hroom, List.take_append]

/-- All entries, one after the other. -/
def filesBytes : List SyncFile → Bytes
  | [] => []
  | f :: fs => manifestEntry f fs.isEmpty ++ filesBytes fs

/-- **What is sent** is all of the text, cut to the buffer. -/
theorem manifestLoop_take (a : Bytes) (fs : List SyncFile) :
    manifestLoop (a.take 8191) fs =
      (a ++ (filesBytes fs ++ encode (endText ++ ['\n']))).take 8191 := by
  induction fs generalizing a with
  | nil => exact appendText_take a _
  | cons f fs ih => rw [manifestLoop, appendText_take, ih, filesBytes, List.append_assoc,
      List.append_assoc]

theorem syncManifest_eq (files : ℕ → SyncFile) (dir : List Dirent) :
    syncManifest sha256 files dir = (encode startText ++
      (filesBytes (collectLoop sha256 256 files 0 dir) ++ encode (endText ++ ['\n']))).take 8191 :=
  manifestLoop_take (encode startText) _

variable {xs : List (Dirent × Stat)} {fs : List SyncFile}

/-- **Entries with the right names**. -/
theorem filesBytes_eq {P : UInt8 → Prop} (h : List.Forall₂ (Collected sha256 P) xs fs)
    (hnames : ∀ x ∈ xs, (encode x.1.name).length ≤ 254 ∨ ∀ g, P g → g = 0) :
    filesBytes fs = encode (entriesText (computeSha256 sha256) xs) := by
  induction h with
  | nil => rfl
  | @cons x f xs fs hx hxs ih =>
    obtain ⟨hname, hnames⟩ := List.forall_mem_cons.1 hnames
    have hempty : fs.isEmpty = xs.isEmpty := by
      cases hxs <;> rfl
    rw [filesBytes, manifestEntry_eq hx, cstr_memory_eq hx hname, ih hnames, entriesText, fileText,
      hempty]
    simp only [encode_append, List.append_assoc]

/-- How long the entries are. -/
theorem length_encode_entriesText (digest : Dirent → Buf 32) (xs : List (Dirent × Stat)) :
    (encode (entriesText digest xs)).length + (if xs = [] then 0 else 1) = entriesLength xs := by
  induction xs with
  | nil => rfl
  | cons x xs ih =>
    have hrest := length_encode_restText (digest x.1) x
    have hformat : (encode nameFormat).length = 9 := by decide
    have hcomma : (encode (if xs.isEmpty then [] else [','])).length =
        if xs = [] then 0 else 1 := by
      cases xs <;> rfl
    rw [← hcomma] at ih
    simp only [entriesText, fileText, encode_append, List.length_append, entriesLength, hrest,
      hformat, if_neg (List.cons_ne_nil x xs)]
    omega

/-! ### Reading plain names -/

variable {digest : Dirent → Buf 32} {r : Reader}

/-- **An entry with a plain name** is read as it is. -/
theorem run_fileText (hname : ∀ c ∈ x.1.name, Plain c) (b : Buf 32)
    (h : r.mode = .value ∨ r.mode = .firstItem) :
    reader.run r (fileText b x) = some (complete (fileValue b x) r.frames) := by
  have hstart : reader.run r nameFormat =
      some ⟨.object [] (codes ['n', 'a', 'm', 'e']) :: r.frames, .string false [] .none⟩ := by
    obtain ⟨fs, mode⟩ := r
    rcases h with rfl | rfl <;> rfl
  have hsize : sizeFormat = '"' :: ",\"size\":".toList := by decide
  have hhash : hashFormat = ',' :: "\"hash\":\"".toList := by decide
  have hend : endFormat = '"' :: ['\x7d'] := by decide
  rw [fileText, Machine.run_append, hstart, Option.bind_some, restText, hsize, List.cons_append,
    run_string_quote hname]
  show reader.run ⟨.object [(codes ['n', 'a', 'm', 'e'], .string (codes x.1.name))]
    (codes ['n', 'a', 'm', 'e']) :: r.frames, .after⟩ (",\"size\":".toList ++ _) = _
  rw [Machine.run_append]
  show reader.run ⟨.object [(codes ['n', 'a', 'm', 'e'], .string (codes x.1.name))]
    (codes ['s', 'i', 'z', 'e']) :: r.frames, .value⟩ _ = _
  rw [hhash, List.cons_append, run_toDigits_comma, Machine.run_append]
  show reader.run ⟨.object [(codes ['s', 'i', 'z', 'e'], .number (Nat.toDigits 10 x.2.size)),
    (codes ['n', 'a', 'm', 'e'], .string (codes x.1.name))] (codes ['h', 'a', 's', 'h']) ::
      r.frames, .string false [] .none⟩ _ = _
  rw [hend, run_string_quote fun c hc ↦ ((hexText_spec b).1 c hc).1]
  rfl

/-- **The entries** are read one after the other. -/
theorem run_entriesText (hxs : ∀ y ∈ x :: xs, ∀ c ∈ y.1.name, Plain c) {items : List Value}
    {outer : List Frame} (h : r.mode = .value ∨ r.mode = .firstItem)
    (hr : r.frames = .array items :: outer) :
    reader.run r (entriesText digest (x :: xs)) =
      some ⟨.array (((x :: xs).map fun y ↦ fileValue (digest y.1) y).reverse ++ items) :: outer,
        .after⟩ := by
  induction xs generalizing x r items with
  | nil =>
    rw [entriesText, Machine.run_append, run_fileText (hxs x (List.mem_singleton_self x)) _ h, hr]
    rfl
  | cons y ys ih =>
    rw [entriesText, Machine.run_append, run_fileText (hxs x (List.mem_cons_self ..)) _ h, hr]
    show reader.run ⟨.array (fileValue (digest x.1) x :: items) :: outer, .value⟩
      (entriesText digest (y :: ys)) = _
    rw [ih (fun z hz ↦ hxs z (List.mem_cons_of_mem x hz)) (Or.inl rfl) rfl, List.map_cons (a := x),
      List.reverse_cons (a := fileValue (digest x.1) x), List.append_assoc, List.singleton_append]

/-- **The document** of files with plain names is what it is meant to be. -/
theorem parse_documentText (hxs : ∀ x ∈ xs, ∀ c ∈ x.1.name, Plain c) :
    parse (documentText digest xs) = some (manifestValue digest xs) := by
  rw [parse, documentText, Machine.run_append]
  show (reader.run ⟨[.array [], .object [(codes ['a', 'c', 't', 'i', 'o', 'n'],
    .string (codes ['s', 'y', 'n', 'c']))] (codes ['f', 'i', 'l', 'e', 's'])], .firstItem⟩
      (entriesText digest xs ++ endText)).bind Reader.finish = _
  cases xs with
  | nil => rfl
  | cons x xs =>
    rw [Machine.run_append, run_entriesText hxs (Or.inr rfl) rfl, List.append_nil]
    show some (Value.object [(codes ['f', 'i', 'l', 'e', 's'],
      .array ((x :: xs).map fun x ↦ fileValue (digest x.1) x).reverse.reverse),
        (codes ['a', 'c', 't', 'i', 'o', 'n'], .string (codes ['s', 'y', 'n', 'c']))]) = _
    rw [List.reverse_reverse]
    rfl

/-! ### Texts that are read as the document -/

/-- What the names take in a string beyond their characters. -/
def nameExcess : List (Dirent × Stat) → ℕ
  | [] => 0
  | x :: xs => codesWeight (codes x.1.name) - x.1.name.length + nameExcess xs

theorem weight_fileValue (b b' : Buf 32) (x : Dirent × Stat) :
    (fileValue b x).weight =
      (fileText b' x).length + (codesWeight (codes x.1.name) - x.1.name.length) := by
  have hname := (codesWeight_codes x.1.name).1
  have hhex : codesWeight (codes (hexText b.bytes)) = 64 :=
    ((codesWeight_codes _).2.2 fun c hc ↦ ((hexText_spec b).1 c hc).1).trans (hexText_spec b).2
  have hkeys : codesWeight (codes ['h', 'a', 's', 'h']) = 4 ∧
      codesWeight (codes ['s', 'i', 'z', 'e']) = 4 ∧
        codesWeight (codes ['n', 'a', 'm', 'e']) = 4 := by decide
  have hformat : nameFormat.length = 9 ∧ sizeFormat.length = 9 ∧ hashFormat.length = 9 ∧
      endFormat.length = 2 := by decide
  simp only [fileValue, Value.weight, fieldsWeight, List.length_cons, List.length_nil, hhex, hkeys,
    fileText, restText, List.length_append, hformat, (hexText_spec b').2]
  omega

theorem itemsWeight_fileValues (digest digest' : Dirent → Buf 32) (xs : List (Dirent × Stat)) :
    itemsWeight (xs.map fun x ↦ fileValue (digest x.1) x) + xs.length =
      (entriesText digest' xs).length + nameExcess xs + if xs = [] then 0 else 1 := by
  induction xs with
  | nil => rfl
  | cons x xs ih =>
    have hfile := weight_fileValue (digest x.1) (digest' x.1) x
    have hcomma : (if xs.isEmpty then [] else [',']).length = if xs = [] then 0 else 1 := by
      cases xs <;> rfl
    rw [← hcomma] at ih
    simp only [List.map_cons, itemsWeight, List.length_cons, entriesText, List.length_append,
      nameExcess, if_neg (List.cons_ne_nil x xs)]
    omega

/-- **The document is not shorter than its text**, and if a name has to be escaped it is longer. -/
theorem weight_manifestValue (digest digest' : Dirent → Buf 32) (xs : List (Dirent × Stat)) :
    (manifestValue digest xs).weight = (documentText digest' xs).length + nameExcess xs := by
  have hitems := itemsWeight_fileValues digest digest' xs
  have hkeys : codesWeight (codes ['f', 'i', 'l', 'e', 's']) = 5 ∧
      codesWeight (codes ['a', 'c', 't', 'i', 'o', 'n']) = 6 ∧
        codesWeight (codes ['s', 'y', 'n', 'c']) = 4 := by decide
  have hformat : startText.length = 26 ∧ endText.length = 2 := by decide
  have hcomma : max xs.length 1 + (if xs = [] then 0 else 1) = xs.length + 1 := by
    cases xs with
    | nil => rfl
    | cons x xs =>
      rw [if_neg (List.cons_ne_nil x xs), List.length_cons]
      omega
  simp only [manifestValue, Value.weight, fieldsWeight, List.length_cons, List.length_nil, hkeys,
    documentText, List.length_append, hformat, List.length_map]
  omega

theorem plain_of_nameExcess (h : nameExcess xs = 0) : ∀ x ∈ xs, ∀ c ∈ x.1.name, Plain c := by
  induction xs with
  | nil => exact List.forall_mem_nil _
  | cons x xs ih =>
    rw [nameExcess] at h
    obtain ⟨hle, hiff⟩ := codesWeight_codes x.1.name
    exact List.forall_mem_cons.2 ⟨hiff.1 (by omega), ih (by omega)⟩

/-- **What is read as the document**, and starts the text, is all of the text, and its names are
plain. -/
theorem eq_documentText_of_parse {s u : List Char} {digest' : Dirent → Buf 32}
    (hparse : parse s = some (manifestValue digest xs)) (h : documentText digest' xs = s ++ u) :
    u = [] ∧ ∀ x ∈ xs, ∀ c ∈ x.1.name, Plain c := by
  have hweight := weight_le_of_parse hparse
  have hlen := congrArg List.length h
  rw [weight_manifestValue digest digest'] at hweight
  rw [List.length_append] at hlen
  exact ⟨List.length_eq_zero_iff.1 (by omega), plain_of_nameExcess (by omega)⟩

/-! ### Digests -/

theorem hexText_inj {a b : Bytes} (h : hexText a = hexText b) : a = b := by
  have hdigit : ∀ m n : Fin 16, Nat.digitChar m = Nat.digitChar n → m = n := by decide
  induction a generalizing b with
  | nil =>
    cases b with
    | nil => rfl
    | cons y b => cases h
  | cons x a ih =>
    cases b with
    | nil => cases h
    | cons y b =>
      simp only [hexText, List.flatMap_cons, List.cons_append, List.nil_append,
        List.cons.injEq] at h
      obtain ⟨hhigh, hlow, hrest⟩ := h
      have hx := x.toNat_lt
      have hy := y.toNat_lt
      have hhigh' := Fin.mk.inj (hdigit ⟨x.toNat / 16, by omega⟩ ⟨y.toNat / 16, by omega⟩ hhigh)
      have hlow' := Fin.mk.inj (hdigit ⟨x.toNat % 16, by omega⟩ ⟨y.toNat % 16, by omega⟩ hlow)
      rw [ih hrest, UInt8.toNat_inj.1 (show x.toNat = y.toNat by omega)]

/-- Documents that are equal have equal digests. -/
theorem digest_eq_of_manifestValue {digest digest' : Dirent → Buf 32}
    (h : manifestValue digest xs = manifestValue digest' xs) :
    ∀ x ∈ xs, digest x.1 = digest' x.1 := by
  simp only [manifestValue, Value.object.injEq, List.cons.injEq, Prod.mk.injEq, true_and,
    Value.array.injEq, and_true] at h
  intro x hx
  have hfile := List.map_inj_left.1 h x hx
  simp only [fileValue, Value.object.injEq, List.cons.injEq, Prod.mk.injEq, true_and,
    Value.string.injEq, and_true] at hfile
  have hcodes : Function.Injective Char.toNat := fun _ _ ↦ Char.toNat_inj.1
  exact Buf.ext (hexText_inj (List.map_injective_iff.2 hcodes hfile))

/-- The digests that are printed are right if every file can be opened, or its digest is zero. -/
theorem computeSha256_eq_iff (e : Dirent) :
    computeSha256 sha256 e = sha256 e.content ↔
      e.fopen = true ∨ sha256 e.content = .zero 32 := by
  rw [computeSha256]
  by_cases hopen : e.fopen = true
  · rw [if_pos hopen]
    exact iff_of_true rfl (Or.inl hopen)
  · rw [if_neg hopen, or_iff_right hopen]
    exact eq_comm

/-! ### The manifest of a directory -/

/-- The length of the document and the newline. -/
theorem length_encode_documentText (digest : Dirent → Buf 32) (xs : List (Dirent × Stat)) :
    (encode (documentText digest xs ++ ['\n'])).length =
      28 + entriesLength xs + if xs = [] then 1 else 0 := by
  have hentries := length_encode_entriesText digest xs
  have hformat : (encode startText).length = 26 ∧ (encode endText).length = 2 ∧
      (encode ['\n']).length = 1 := by decide
  simp only [documentText, encode_append, List.length_append, hformat]
  split at hentries <;> split <;> first | omega | contradiction

/-- **What is sent if every name is terminated** is the document and a newline, cut to the
buffer. -/
theorem syncManifest_eq_take {P : UInt8 → Prop} {d : SyncDir} {files : ℕ → SyncFile}
    (hfiles : ∀ i, P (files i).lastByte)
    (hnames : ∀ x ∈ filesOf d.entries, (encode x.1.name).length ≤ 254 ∨ ∀ g, P g → g = 0) :
    syncManifest sha256 files d.entries =
      (encode (documentText (computeSha256 sha256) (filesOf d.entries) ++ ['\n'])).take 8191 := by
  have hvisible := d.length_visible_le
  have hall := forall₂_collectLoop sha256 hfiles
    (show 0 + (d.entries.filter Dirent.visible).length ≤ 256 by omega)
  rw [syncManifest_eq, filesBytes_eq hall hnames, documentText]
  simp only [encode_append, List.append_assoc]

/-- An array with a byte behind every name. -/
def filledWith (g : UInt8) : ℕ → SyncFile := fun _ ↦
  ⟨⟨List.replicate 256 g, List.length_replicate⟩, 0, 0, .zero 32, 0⟩

theorem lastByte_filledWith (g : UInt8) (i : ℕ) : (filledWith g i).lastByte = g := by
  show (List.replicate 256 g).getD 255 0 = g
  rw [List.getD_eq_getElem _ _ (by rw [List.length_replicate]; decide), List.getElem_replicate]

/-- **What is sent from a cleared array** shows that the names are plain and the text fits. -/
theorem fits_of_cleared {d : SyncDir} {doc : Bytes}
    (hsent : syncManifest sha256 (filledWith 0) d.entries = doc ++ [10])
    (hparse : (decodeStrict doc).bind parse =
      some (manifestValue (fun e ↦ sha256 e.content) (filesOf d.entries))) :
    28 + entriesLength (filesOf d.entries) ≤ 8191 ∧
      (∀ x ∈ filesOf d.entries, ∀ c ∈ x.1.name, Plain c) ∧
        ∀ x ∈ filesOf d.entries, x.1.fopen = true ∨ sha256 x.1.content = .zero 32 := by
  obtain ⟨s, hs, hread⟩ := Option.bind_eq_some_iff.1 hparse
  obtain rfl := decodeStrict_eq_some_iff.1 hs
  rw [syncManifest_eq_take (lastByte_filledWith 0) fun _ _ ↦ Or.inr fun _ hg ↦ hg] at hsent
  have hlen := length_encode_documentText (computeSha256 sha256) (filesOf d.entries)
  generalize hfull : documentText (computeSha256 sha256) (filesOf d.entries) = full at hsent hlen
  -- what was read starts the text
  have hsplit : encode (full ++ ['\n']) =
      encode (s ++ ['\n']) ++ (encode (full ++ ['\n'])).drop 8191 := by
    rw [encode_append s]
    exact (List.take_append_drop 8191 _).symm.trans (congrArg (· ++ _) hsent)
  obtain ⟨u, hu, hdrop⟩ := exists_of_encode_eq_append hsplit
  have hall : u = [] ∧ ∀ x ∈ filesOf d.entries, ∀ c ∈ x.1.name, Plain c := by
    rcases List.eq_nil_or_concat u with rfl | ⟨u, c, rfl⟩
    · rw [List.append_nil] at hu
      have hsame := List.append_cancel_right hu
      exact ⟨rfl, (eq_documentText_of_parse hread (hfull.trans (hsame.trans
        (List.append_nil s).symm))).2⟩
    · rw [List.concat_eq_append, ← List.append_assoc] at hu
      have hmore := (List.append_inj' hu rfl).1
      rw [List.append_assoc] at hmore
      have hnil := (eq_documentText_of_parse hread (hfull.trans hmore)).1
      exact absurd hnil (List.append_ne_nil_of_left_ne_nil (List.cons_ne_nil _ _) _)
  obtain ⟨rfl, hplain⟩ := hall
  have hshort := List.drop_eq_nil_iff.1 (hdrop.symm.trans encode_nil)
  refine ⟨by omega, hplain, fun x hx ↦ (computeSha256_eq_iff x.1).1 ?_⟩
  -- the text is read in one way
  rw [List.append_nil] at hu
  have hsame := List.append_cancel_right hu
  rw [← hsame, ← hfull, parse_documentText hplain] at hread
  exact digest_eq_of_manifestValue (Option.some.inj hread) x hx

/-- What was behind a name of 255 bytes is among what is printed, as far as the text would go if
it were not there. -/
theorem mem_take_filesBytes {P : UInt8 → Prop} (hP : ∀ g, P g → g = 255) {n : ℕ}
    (h : List.Forall₂ (Collected sha256 P) xs fs)
    (hx : ∃ x ∈ xs, (encode x.1.name).length = 255)
    (hn : (encode (entriesText (computeSha256 sha256) xs)).length ≤ n) :
    (255 : UInt8) ∈ (filesBytes fs).take n := by
  have hformat : (encode nameFormat).length = 9 := by decide
  induction h generalizing n with
  | nil => exact absurd hx (by simp)
  | @cons x f xs fs hxf hxs ih =>
    have hrest := length_encode_restText (computeSha256 sha256 x.1) x
    rw [entriesText, fileText] at hn
    simp only [encode_append, List.length_append] at hn
    rw [filesBytes, manifestEntry_eq hxf]
    by_cases hname : (encode x.1.name).length = 255
    · obtain ⟨junk, hjunk⟩ := exists_cstr_memory hxf hname hP
      have hlen : (encode nameFormat ++ encode x.1.name).length < n := by
        rw [List.length_append]
        omega
      rw [hjunk]
      simp only [List.append_assoc, List.cons_append]
      rw [← List.append_assoc, List.take_append,
        show n - (encode nameFormat ++ encode x.1.name).length =
          n - (encode nameFormat ++ encode x.1.name).length - 1 + 1 by omega, List.take_succ_cons]
      exact List.mem_append_right _ (List.mem_cons_self ..)
    · have hle := x.1.length_name_le
      have hother : ∃ y ∈ xs, (encode y.1.name).length = 255 := by
        obtain ⟨y, hy, hlong⟩ := hx
        exact ⟨y, List.mem_of_ne_of_mem (by rintro rfl; exact hname hlong) hy, hlong⟩
      have hempty : fs.isEmpty = xs.isEmpty := by
        cases hxs <;> rfl
      rw [cstr_memory_eq hxf (Or.inl (by omega)), List.take_append]
      refine List.mem_append_right _ (ih hother ?_)
      simp only [List.length_append, hempty]
      omega

/-- **What is sent from an array that was not cleared** shows that the names leave room for a
NUL. -/
theorem length_name_le_of_filled {d : SyncDir} {doc : Bytes}
    (hsent : syncManifest sha256 (filledWith 255) d.entries = doc ++ [10])
    (hdoc : (decodeStrict doc).isSome)
    (hlen : 28 + entriesLength (filesOf d.entries) ≤ 8191) :
    ∀ x ∈ filesOf d.entries, (encode x.1.name).length ≤ 254 := by
  intro x hx
  by_contra hlong
  obtain ⟨s, hs⟩ := Option.isSome_iff_exists.1 hdoc
  obtain rfl := decodeStrict_eq_some_iff.1 hs
  have hle := x.1.length_name_le
  have hvisible := d.length_visible_le
  have hentries := length_encode_entriesText (computeSha256 sha256) (filesOf d.entries)
  have hformat : (encode startText).length = 26 := by decide
  have hall := forall₂_collectLoop sha256 (P := (· = 255)) (lastByte_filledWith 255)
    (show 0 + (d.entries.filter Dirent.visible).length ≤ 256 by omega)
  have hmem := mem_take_filesBytes (fun _ hg ↦ hg) hall ⟨x, hx, by omega⟩
    (show _ ≤ 8191 - 26 by omega)
  have hsent' : (255 : UInt8) ∈ encode s ++ [10] := by
    rw [← hsent, syncManifest_eq, List.take_append, List.take_append, hformat]
    exact List.mem_append_right _ (List.mem_append_left _ hmem)
  rcases List.mem_append.1 hsent' with hs | hten
  · exact notMem_encode s hs
  · exact absurd (List.mem_singleton.1 hten) (by decide)

/-- **What fits is sent** as it is meant to be. -/
theorem lists_of_fits {d : SyncDir} (h : d.Fits sha256) : Lists sha256 d := by
  intro files
  have hdigest : manifestValue (computeSha256 sha256) (filesOf d.entries) =
      manifestValue (fun e ↦ sha256 e.content) (filesOf d.entries) := by
    have hmap : (filesOf d.entries).map (fun x ↦ fileValue (computeSha256 sha256 x.1) x) =
        (filesOf d.entries).map fun x ↦ fileValue (sha256 x.1.content) x :=
      List.map_congr_left fun x hx ↦ by rw [(computeSha256_eq_iff x.1).2 (h.hash x hx)]
    rw [manifestValue, manifestValue, hmap]
  have hlen := length_encode_documentText (computeSha256 sha256) (filesOf d.entries)
  have hfit := h.length
  have hshort : (encode (documentText (computeSha256 sha256) (filesOf d.entries) ++
      ['\n'])).length ≤ 8191 := by
    split at hlen
    next hnil =>
      rw [hnil] at hlen ⊢
      exact hlen.trans_le (by decide)
    next => omega
  refine ⟨encode (documentText (computeSha256 sha256) (filesOf d.entries)), ?_, ?_⟩
  · rw [syncManifest_eq_take (P := fun _ ↦ True) (fun _ ↦ trivial) fun x hx ↦
      Or.inl (h.name x hx), List.take_of_length_le hshort, encode_append]
    rfl
  · rw [decodeStrict_encode, Option.bind_some, parse_documentText h.plain, hdigest]

/-- **The exact condition for a manifest.** Whatever was on the stack, what is sent is one document
and a newline, and the document lists the files with their names, sizes and SHA-256, if and only if
all of the text fits, the names have no quotes, backslashes and control characters and are shorter
than 255 bytes, and every file can be opened, or has a SHA-256 of zeros. -/
theorem lists_iff (sha256 : Bytes → Buf 32) (d : SyncDir) : Lists sha256 d ↔ d.Fits sha256 := by
  refine ⟨fun h ↦ ?_, lists_of_fits⟩
  obtain ⟨doc, hsent, hparse⟩ := h (filledWith 0)
  obtain ⟨hlength, hplain, hhash⟩ := fits_of_cleared hsent hparse
  obtain ⟨doc', hsent', hparse'⟩ := h (filledWith 255)
  have hdoc : (decodeStrict doc').isSome := by
    obtain ⟨s, hs, -⟩ := Option.bind_eq_some_iff.1 hparse'
    exact Option.isSome_of_eq_some hs
  exact ⟨hlength, hplain, length_name_le_of_filled hsent' hdoc hlength, hhash⟩

/-- A readable file with a digest of zeros. -/
def emptyFile (name : List Char) (h : name ≠ [] ∧ (encode name).length ≤ 255 ∧
    (0 : UInt8) ∉ encode name) : Dirent :=
  ⟨name, some ⟨0, 0, by decide⟩, [], true, h.1, h.2.1, h.2.2⟩

/-- A file with the name `"`. -/
theorem not_lists_quote :
    ¬ Lists (fun _ ↦ .zero 32) ⟨[emptyFile ['"'] (by decide)], by decide⟩ := by
  intro h
  obtain ⟨doc, hsent, hparse⟩ := h (filledWith 0)
  obtain ⟨-, hplain, -⟩ := fits_of_cleared hsent hparse
  have hfiles : filesOf [emptyFile ['"'] (by decide)] =
      [(emptyFile ['"'] (by decide), ⟨0, 0, by decide⟩)] := rfl
  have hquote := hplain _ (hfiles ▸ List.mem_singleton_self _) '"' (List.mem_singleton_self _)
  exact absurd hquote (by decide)

end JuliusOS.Sync
