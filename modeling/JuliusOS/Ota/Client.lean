import JuliusOS.Ota.Header
import Mathlib.Data.List.Infix
import Mathlib.Order.Basic

/-!
# The OTA client after the header

What `main` of `ota_client.c` does with a connection whose header passed the gates: write
what the peer sends to `UPDATE_PATH` until the counter reaches `hdr.size` or the stream ends,
compare the checksum of that file, rename it to `VERIFIED_PATH` and extract *that* path.

The checksum is computed of one path and the extraction reads the other, with a `rename` in
between whose result is not looked at, and the announced size is a loop bound and nothing
else: a stream that ends early, or whose last read runs past the bound, is checked and
installed like any other. The counter is 32 bits wide and the payload is not.

* `receiveLoop` is the loop, `payload` what a peer's stream amounts to, and
  `receiveLoop_file` says that the loop stores exactly that;
* `ExtractsPayload` is what the client is for: what is extracted is what was received here,
  of the announced size and with the announced digest;
* `extractsPayload_iff` gives the exact condition for it. The part of it that concerns the
  size is a relation between the header and the peer's read sizes (`HitsSize`), because the
  counter stops at `hdr.size` only when some prefix of the reads adds up to it.
-/

open Bytes

namespace JuliusOS.Ota

/-- The `read` results of a connection, in order, up to the first that is not positive. -/
structure Reads where
  /-- The bytes each `read` returned. -/
  chunks : List Bytes
  /-- A `read` into the buffer returns between 1 and `OTA_CHUNK_SIZE` bytes. -/
  bounded : ∀ c ∈ chunks, c ≠ [] ∧ c.length ≤ 4096

/-- The two paths an update passes through, `UPDATE_PATH` and `VERIFIED_PATH`. -/
structure Files where
  /-- `/tmp/julius_update.pkg`. -/
  update : Option Bytes
  /-- `/usr/julius/update.pkg`. -/
  verified : Option Bytes
deriving DecidableEq

/-- Which of the file operations succeed. -/
structure FileOutcomes where
  /-- `fopen(UPDATE_PATH, "wb")`. -/
  fopenUpdate : Bool
  /-- `fopen(path, "rb")` in `verify_checksum`. -/
  fopenCheck : Bool
  /-- `rename(UPDATE_PATH, VERIFIED_PATH)`. -/
  rename : Bool
  /-- `unlink(UPDATE_PATH)`. -/
  unlink : Bool

/-- What becomes of a connection. -/
inductive Handled where
  /-- `fwrite` or `fclose` was called on a null stream. -/
  | crashed (files : Files)
  /-- The checksum failed and `apply_update` was not called. -/
  | aborted (files : Files)
  /-- `apply_update` has reached the extraction of `VERIFIED_PATH`. -/
  | extracting (files : Files)

/-- The receive loop from a given counter: the bytes it writes and the counter it ends with.
`received` is a `uint32_t`. -/
def receiveLoop (size : ℕ) : ℕ → List Bytes → Bytes × ℕ
  | received, [] => ([], received)
  | received, c :: cs =>
    if received < size then
      let rest := receiveLoop size (wrap32 (received + c.length)) cs
      (c ++ rest.1, rest.2)
    else ([], received)

/-- `verify_checksum`. -/
def verifyChecksum (sha256 : Bytes → Digest) (fopen : Bool) (file : Option Bytes)
    (expected : Bytes) : Bool :=
  match file with
  | none => false
  | some content => fopen && (sha256 content).bytes == expected

/-- One round of the accept loop after the header has passed the gates. -/
def handlePayload (sha256 : Bytes → Digest) (hdr : OTAHeader) (reads : Reads)
    (o : FileOutcomes) (files : Files) : Handled :=
  if !o.fopenUpdate then .crashed files
  else
    let file := (receiveLoop hdr.size 0 reads.chunks).1
    let files := { files with update := some file }
    if !verifyChecksum sha256 o.fopenCheck files.update hdr.sha256 then
      .aborted (if o.unlink then { files with update := none } else files)
    else
      -- the result of rename is not looked at; apply_update starts with a copy that only reads
      .extracting (if o.rename then { update := none, verified := files.update } else files)

/-! ### What a stream amounts to -/

/-- The number of bytes in the first `k` reads. -/
def prefixLength (chunks : List Bytes) (k : ℕ) : ℕ := (chunks.take k).flatten.length

/-- How many reads are made for an announced size when the counter starts at `r`: up to the
first prefix that takes the counter, a 32-bit number, to the announced size. -/
def readsMade (size r : ℕ) (chunks : List Bytes) : ℕ :=
  (List.range chunks.length).findIdx fun k ↦ size ≤ wrap32 (r + prefixLength chunks k)

/-- The bytes received on a connection. -/
def payload (size : ℕ) (chunks : List Bytes) : Bytes :=
  (chunks.take (readsMade size 0 chunks)).flatten

/-- Some prefix of the reads adds up to the announced size. -/
def HitsSize (size : ℕ) (chunks : List Bytes) : Prop := ∃ k, prefixLength chunks k = size

/-- **What the client is for**: the file it extracts is the payload received on this
connection, of the announced size and with the announced digest. -/
def ExtractsPayload (sha256 : Bytes → Digest) (hdr : OTAHeader) (reads : Reads)
    (o : FileOutcomes) (files : Files) : Prop :=
  ∀ files', handlePayload sha256 hdr reads o files = .extracting files' →
    files'.verified = some (payload hdr.size reads.chunks) ∧
      (payload hdr.size reads.chunks).length = hdr.size ∧
        (sha256 (payload hdr.size reads.chunks)).bytes = hdr.sha256

/-! ### The loop stores the payload -/

variable {size : ℕ} {chunks : List Bytes}

@[simp]
theorem prefixLength_zero : prefixLength chunks 0 = 0 := by simp [prefixLength]

theorem prefixLength_cons_succ (c : Bytes) (k : ℕ) :
    prefixLength (c :: chunks) (k + 1) = c.length + prefixLength chunks k := by
  simp [prefixLength]

theorem prefixLength_mono {j k : ℕ} (h : j ≤ k) :
    prefixLength chunks j ≤ prefixLength chunks k :=
  (List.IsPrefix.flatten (List.take_prefix_take_left h)).length_le

/-- No read is made once the counter has reached the announced size. -/
theorem readsMade_of_le {r : ℕ} {c : Bytes} (hr : r < 2 ^ 32) (h : size ≤ r) :
    readsMade size r (c :: chunks) = 0 := by
  rw [readsMade, List.length_cons, List.range_succ_eq_map, List.findIdx_cons]
  simp [wrap32_of_lt hr, h]

/-- One read is made, and the rest are those made from the advanced counter. -/
theorem readsMade_of_lt {r : ℕ} {c : Bytes} (hr : r < 2 ^ 32) (h : r < size) :
    readsMade size r (c :: chunks) =
      readsMade size (wrap32 (r + c.length)) chunks + 1 := by
  rw [readsMade, List.length_cons, List.range_succ_eq_map, List.findIdx_cons]
  have hfirst : ¬ size ≤ wrap32 (r + prefixLength (c :: chunks) 0) := by
    rw [prefixLength_zero, Nat.add_zero, wrap32_of_lt hr]
    omega
  have hrest : ∀ k, wrap32 (r + prefixLength (c :: chunks) (k + 1)) =
      wrap32 (wrap32 (r + c.length) + prefixLength chunks k) := by
    intro k
    rw [prefixLength_cons_succ, wrap32_add_wrap32, Nat.add_assoc]
  rw [decide_eq_false hfirst, cond_false, List.findIdx_map, readsMade]
  congr 2
  funext k
  simp only [Function.comp_apply, Nat.succ_eq_add_one, hrest]

/-- **The loop stores the bytes of the reads it makes**, from any counter. -/
theorem receiveLoop_file {r : ℕ} (hr : r < 2 ^ 32) :
    (receiveLoop size r chunks).1 = (chunks.take (readsMade size r chunks)).flatten := by
  induction chunks generalizing r with
  | nil => simp [receiveLoop]
  | cons c cs ih =>
    rw [receiveLoop]
    split
    next h =>
      rw [readsMade_of_lt hr h, List.take_succ_cons, List.flatten_cons, ← ih (wrap32_lt _)]
    next h => rw [readsMade_of_le hr (by omega), List.take_zero, List.flatten_nil]

/-- **The payload has the announced size exactly when some prefix of the reads adds up to
it**: the loop stops at that prefix and not before. -/
theorem length_payload_iff (hsize : size < 2 ^ 32) :
    (payload size chunks).length = size ↔ HitsSize size chunks := by
  constructor
  · exact fun h ↦ ⟨readsMade size 0 chunks, h⟩
  intro hhits
  classical
  -- `m` is the first prefix that adds up to the size, so every earlier one is below it
  set m := Nat.find hhits with hm
  have hmsize : prefixLength chunks m = size := Nat.find_spec hhits
  have hbelow : ∀ j < m, prefixLength chunks j < size := fun j hj ↦
    lt_of_le_of_ne (hmsize ▸ prefixLength_mono hj.le) (Nat.find_min hhits hj)
  have hmle : m ≤ chunks.length := by
    by_contra hgt
    have hall : prefixLength chunks chunks.length = prefixLength chunks m := by
      rw [prefixLength, prefixLength, List.take_length, List.take_of_length_le (by omega)]
    have := hbelow _ (Nat.lt_of_not_le hgt)
    omega
  have hnot : ∀ j < m, ¬ size ≤ wrap32 (0 + prefixLength chunks j) := by
    intro j hj
    have := hbelow j hj
    rw [Nat.zero_add, wrap32_of_lt (by omega)]
    omega
  have hstop : readsMade size 0 chunks = m := by
    rcases Nat.lt_or_ge m chunks.length with hlt | hge
    · refine (List.findIdx_eq (by simpa using hlt)).2 ⟨?_, fun j hj ↦ ?_⟩
      · simp [hmsize, wrap32_of_lt hsize]
      · simpa using hnot j hj
    · have hmeq : m = chunks.length := by omega
      rw [readsMade, List.findIdx_eq_length_of_false, List.length_range, hmeq]
      intro j hj
      simpa using hnot j (hmeq ▸ List.mem_range.1 hj)
  rw [payload, hstop]
  exact hmsize

/-! ### What is extracted -/

variable {sha256 : Bytes → Digest} {hdr : OTAHeader} {reads : Reads} {o : FileOutcomes}
  {files files' : Files}

/-- The extraction is reached exactly when both streams could be opened and the digest of the
received bytes is the announced one; what it reads then depends on the `rename`. -/
theorem handlePayload_eq_extracting :
    handlePayload sha256 hdr reads o files = .extracting files' ↔
      (o.fopenUpdate = true ∧ o.fopenCheck = true ∧
        (sha256 (payload hdr.size reads.chunks)).bytes = hdr.sha256) ∧
      files' = if o.rename then ⟨none, some (payload hdr.size reads.chunks)⟩
        else ⟨some (payload hdr.size reads.chunks), files.verified⟩ := by
  have hfile : (receiveLoop hdr.size 0 reads.chunks).1 = payload hdr.size reads.chunks :=
    receiveLoop_file (by norm_num)
  unfold handlePayload
  rw [hfile]
  cases ho : o.fopenUpdate with
  | false => simp
  | true =>
    cases hc : o.fopenCheck with
    | false => simp [verifyChecksum]
    | true =>
      by_cases hsha : (sha256 (payload hdr.size reads.chunks)).bytes = hdr.sha256
      · simpa [verifyChecksum, hsha] using eq_comm
      · simp [verifyChecksum, hsha]

/-- **The exact condition for a sound update.** The client extracts what it received, whole
and as announced, if and only if it does not get as far as the extraction (a stream could not
be opened, or the digest is not the announced one), or some prefix of the peer's reads adds
up to the announced size and either the `rename` succeeds or the verified path held the same
bytes already. -/
theorem extractsPayload_iff (sha256 : Bytes → Digest) (hdr : OTAHeader) (reads : Reads)
    (o : FileOutcomes) (files : Files) :
    ExtractsPayload sha256 hdr reads o files ↔
      ¬ (o.fopenUpdate = true ∧ o.fopenCheck = true ∧
        (sha256 (payload hdr.size reads.chunks)).bytes = hdr.sha256) ∨
      (HitsSize hdr.size reads.chunks ∧
        (o.rename = true ∨ files.verified = some (payload hdr.size reads.chunks))) := by
  rw [← length_payload_iff hdr.size_lt]
  constructor
  · intro h
    by_cases hreach : o.fopenUpdate = true ∧ o.fopenCheck = true ∧
        (sha256 (payload hdr.size reads.chunks)).bytes = hdr.sha256
    · obtain ⟨hver, hlen, -⟩ := h _ (handlePayload_eq_extracting.2 ⟨hreach, rfl⟩)
      refine Or.inr ⟨hlen, ?_⟩
      cases hren : o.rename
      · rw [hren] at hver
        exact Or.inr hver
      · exact Or.inl rfl
    · exact Or.inl hreach
  · rintro (hnot | ⟨hlen, hren⟩) files' hext
    · exact absurd (handlePayload_eq_extracting.1 hext).1 hnot
    · obtain ⟨⟨-, -, hsha⟩, rfl⟩ := handlePayload_eq_extracting.1 hext
      refine ⟨?_, hlen, hsha⟩
      rcases hren with hren | hver
      · rw [hren]
        rfl
      · cases o.rename
        · exact hver
        · rfl

/-- A header for a one-byte package, as the client wants it. -/
def oneByteHeader : OTAHeader where
  bytes := ljust 16 0 otaMagic ++ ljust 32 0 (ofAscii "1.0.0") ++ ljust 256 0 (ofAscii "k") ++
    le 4 1 ++ ljust 32 0 [9]
  length_bytes := by decide +kernel

theorem length_take_ljust (b : Bytes) : ((ljust 32 0 b).take 32).length = 32 := by
  rw [List.length_take, length_ljust]
  omega

/-- A digest that is easy to evaluate: the first 32 bytes, padded. -/
def prefixDigest (b : Bytes) : Digest := ⟨(ljust 32 0 b).take 32, length_take_ljust b⟩

/-- The `rename` crosses file systems and fails: the package received is `[9]`, the one
extracted is the older `[1]`. -/
theorem not_extractsPayload_stale_package :
    acceptHeader [] (some (ofAscii "k")) oneByteHeader.bytes = some oneByteHeader ∧
      ¬ ExtractsPayload prefixDigest oneByteHeader
        ⟨[[9]], by decide⟩ ⟨true, true, false, true⟩ ⟨none, some [1]⟩ := by
  refine ⟨by decide +kernel, fun h ↦ ?_⟩
  have hext := (h ⟨some [9], some [1]⟩ (by
    rw [handlePayload_eq_extracting]
    exact ⟨by decide +kernel, by decide +kernel⟩)).1
  exact absurd hext (by decide +kernel)

end JuliusOS.Ota
