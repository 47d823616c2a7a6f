import JuliusOS.Foundations.CString
import JuliusOS.Foundations.StructLayout

/-!
# The OTA header: push tool against client

`tools/ota_push.sh` concatenates a header in Python and `services/julius_ota/ota_client.c`
reads it into a C struct. The two sides agree when the Python pieces have the widths of the
struct's fields, in the struct's order and byte order.

They do not. The magic is written as 13 characters and *two* NULs, 15 bytes for a field of
16, so every later field is read one byte early: the version loses its first character to
the magic, the key loses its first character to the version, and the size, which is packed
big-endian for a little-endian target, loses its first byte to the key. The header as a whole
is 339 bytes where the client wants 340.

* `pushHeader` and `OTAHeader` are the two sides, `acceptHeader` the client's three gates;
* `HeaderAgrees` is what the pair is for;
* `pushHeader_not_headerAgrees` says that no push achieves it, and that the client rejects
  every push, whether the first `read` returns the header alone or the header together with
  the first byte of the package.
-/

open CString StructLayout

namespace JuliusOS.Ota

/-- A SHA-256 digest. -/
structure Digest where
  /-- The 32 bytes. -/
  bytes : Bytes
  /-- There are 32 of them. -/
  length_bytes : bytes.length = 32
deriving DecidableEq

/-- `OTA_MAGIC`. -/
def otaMagic : Bytes := Bytes.ofAscii "JULIUS_OTA_V1"

/-! ### The client's struct -/

/-- The fields of `OTAHeader`: `magic`, `version`, `admin_key`, `size`, `sha256`. -/
def otaHeaderFields : List CType :=
  [charArray 16, charArray 32, charArray 256, int32, charArray 32]

/-- An `OTAHeader` in the client's memory. -/
abbrev OTAHeader := Image otaHeaderFields

namespace OTAHeader

/-- `hdr.magic`. -/
def magic (hdr : OTAHeader) : Bytes := hdr.field 0

/-- `hdr.version`. -/
def version (hdr : OTAHeader) : Bytes := hdr.field 1

/-- `hdr.admin_key`. -/
def adminKey (hdr : OTAHeader) : Bytes := hdr.field 2

/-- `hdr.size`, on a little-endian target. -/
def size (hdr : OTAHeader) : ℕ := hdr.u32 3

theorem size_lt (hdr : OTAHeader) : hdr.size < 2 ^ 32 := hdr.u32_lt 3

/-- `hdr.sha256`. -/
def sha256 (hdr : OTAHeader) : Bytes := hdr.field 4

end OTAHeader

/-! ### The client's gates -/

/-- `verify_admin`: compare a key with the first line of `/etc/julius/admin.key`. `stack` is
what the local buffer held before; `none` is a file that cannot be opened. -/
def verifyAdmin (stack : Bytes) (adminKeyFile : Option Bytes) (key : Bytes) : Bool :=
  match adminKeyFile with
  | none => false
  | some content => strcmpEq key (cutNewline (fgets stack 256 content))

/-- The client's gates in front of the receive loop: the first `read` must fill the struct,
the magic must match and the key must be the admin's. -/
def acceptHeader (stack : Bytes) (adminKeyFile : Option Bytes) (got : Bytes) :
    Option OTAHeader :=
  if h : got.length = sizeof otaHeaderFields then
    let hdr : OTAHeader := ⟨got, h⟩
    if !strcmpEq (hdr.memFrom 0) (otaMagic ++ [0]) then none
    else if !verifyAdmin stack adminKeyFile (hdr.memFrom 2) then none
    else some hdr
  else none

/-! ### The push tool's header -/

/-- The header `ota_push.sh` builds. `version` and `adminKey` are the values of the Python
variables, that is the texts the shell pastes between the double quotes as Python reads them
back. `struct.pack(">I", n)` raises for a length that does not fit. -/
def pushHeader (sha256 : Bytes → Digest) (version adminKey pkgData : Bytes) : Option Bytes :=
  if pkgData.length < 2 ^ 32 then
    let magic := Bytes.ofAscii "JULIUS_OTA_V1" ++ [0, 0]
    let verBytes := Bytes.ljust 32 0 version
    let keyBytes := Bytes.ljust 256 0 adminKey
    let sizeBytes := Bytes.be 4 pkgData.length
    some (magic ++ verBytes ++ keyBytes ++ sizeBytes ++ (sha256 pkgData).bytes)
  else none

/-- A version or key text: of a bounded length, with neither NUL nor newline. -/
structure HeaderText (maxLen : ℕ) (text : Bytes) : Prop where
  /-- It fits its field with a NUL to spare. -/
  length_le : text.length ≤ maxLen
  /-- It holds no NUL. -/
  noNul : (0 : UInt8) ∉ text
  /-- It holds no newline. -/
  noNewline : (10 : UInt8) ∉ text

/-- `admin.key` stores a key when the key is its first line. -/
def StoresKey (keyFile key : Bytes) : Prop := firstLine keyFile = key

/-- **What the pair is for**: the header fills the struct, decodes to what was pushed, and
passes the client's gates when `admin.key` stores the key that was pushed. -/
def HeaderAgrees (sha256 : Bytes → Digest) (version adminKey pkgData : Bytes) : Prop :=
  ∃ header, pushHeader sha256 version adminKey pkgData = some header ∧
    ∃ h : header.length = sizeof otaHeaderFields,
      let hdr : OTAHeader := ⟨header, h⟩
      cstr (OTAHeader.magic hdr) = otaMagic ∧ cstr (OTAHeader.version hdr) = version ∧
        cstr (OTAHeader.adminKey hdr) = adminKey ∧ OTAHeader.size hdr = pkgData.length ∧
        OTAHeader.sha256 hdr = (sha256 pkgData).bytes ∧
        ∀ stack keyFile, StoresKey keyFile adminKey →
          acceptHeader stack (some keyFile) header = some hdr

example : sizeof otaHeaderFields = 340 := by decide

/-! ### The client's view of the stored key -/

/-- The admin check accepts exactly the stored key. -/
theorem verifyAdmin_iff {stack keyFile key given : Bytes} (hkey : HeaderText 255 key)
    (hne : key ≠ []) (hfile : StoresKey keyFile key) :
    verifyAdmin stack (some keyFile) given = true ↔ cstr given = key := by
  subst hfile
  rw [verifyAdmin, strcmpEq_iff,
    cstr_cutNewline_fgets (Nat.lt_succ_of_le hkey.length_le) hne hkey.noNul]

/-! ### Every field after the magic is one byte early -/

variable {sha256 : Bytes → Digest} {version adminKey pkgData header : Bytes}

/-- The header is one byte short of the struct. -/
theorem length_pushHeader (hver : version.length ≤ 32) (hkey : adminKey.length ≤ 256)
    (h : pushHeader sha256 version adminKey pkgData = some header) : header.length = 339 := by
  rw [pushHeader] at h
  split at h
  · rw [← Option.some.inj h]
    have hmagic : (Bytes.ofAscii "JULIUS_OTA_V1").length = 13 := by decide
    simp only [List.length_append, hmagic, Bytes.length_ljust_of_le hver,
      Bytes.length_ljust_of_le hkey, Bytes.length_be, (sha256 pkgData).length_bytes,
      List.length_cons, List.length_nil]
  · cases h

/-- **What the client takes for the key** of a pushed header is the key without its first
byte, which has gone to the end of the version field. -/
theorem cstr_drop_pushHeader {k : UInt8} {ks rest : Bytes} (hver : version.length ≤ 32)
    (hks : (0 : UInt8) ∉ ks) (hlen : ks.length < 255)
    (h : pushHeader sha256 version (k :: ks) pkgData = some header) {n : ℕ} (hn : 340 ≤ n) :
    cstr (((header ++ rest).take n).drop 48) = ks := by
  rw [pushHeader] at h
  split at h
  · rw [← Option.some.inj h]
    set front := Bytes.ofAscii "JULIUS_OTA_V1" ++ [0, 0] ++ Bytes.ljust 32 0 version ++ [k]
      with hfront
    have hfl : front.length = 48 := by
      have hmagic : (Bytes.ofAscii "JULIUS_OTA_V1" ++ [0, 0]).length = 15 := by decide
      rw [hfront, List.length_append, List.length_append, Bytes.length_ljust_of_le hver, hmagic,
        List.length_singleton]
    obtain ⟨pad, hpad⟩ : ∃ pad, Bytes.ljust 256 0 (k :: ks) = k :: ks ++ 0 :: pad := by
      refine ⟨List.replicate (254 - ks.length) 0, ?_⟩
      rw [Bytes.ljust, ← List.replicate_succ, List.length_cons,
        show 254 - ks.length + 1 = 256 - (ks.length + 1) by omega]
    have hshape : ∃ back, Bytes.ofAscii "JULIUS_OTA_V1" ++ [0, 0] ++ Bytes.ljust 32 0 version ++
        Bytes.ljust 256 0 (k :: ks) ++ Bytes.be 4 pkgData.length ++ (sha256 pkgData).bytes ++
          rest = front ++ (ks ++ 0 :: back) :=
      ⟨pad ++ (Bytes.be 4 pkgData.length ++ ((sha256 pkgData).bytes ++ rest)), by
        simp [hfront, hpad]⟩
    obtain ⟨back, hback⟩ := hshape
    rw [hback, List.drop_take, List.drop_left' hfl, List.take_append,
      List.take_of_length_le (by omega),
      show n - 48 - ks.length = (n - 49 - ks.length) + 1 by omega, List.take_succ_cons]
    exact cstr_append_zero hks
  · cases h

/-- The client turns every push away: on its length when the first `read` returns the header
alone, and on its key when the `read` returns package bytes as well. -/
theorem acceptHeader_pushHeader {stack keyFile : Bytes} (hver : version.length ≤ 32)
    (hkey : HeaderText 255 adminKey) (hne : adminKey ≠ []) (hfile : StoresKey keyFile adminKey)
    (h : pushHeader sha256 version adminKey pkgData = some header) (n : ℕ) :
    acceptHeader stack (some keyFile) ((header ++ pkgData).take n) = none := by
  have hlen := length_pushHeader hver (Nat.le_succ_of_le hkey.length_le) h
  obtain ⟨k, ks, rfl⟩ := List.exists_cons_of_ne_nil hne
  have hklen := hkey.length_le
  have hsize : sizeof otaHeaderFields = 340 := by decide
  have hoff : (offsets otaHeaderFields).getD 2 0 = 48 := by decide
  rw [List.length_cons] at hklen
  rw [acceptHeader]
  split
  next hfull =>
    have hn : 340 ≤ n := by
      rw [List.length_take, List.length_append, hlen, hsize] at hfull
      omega
    have hread : cstr (((header ++ pkgData).take n).drop 48) = ks :=
      cstr_drop_pushHeader hver (fun h0 ↦ hkey.noNul (List.mem_cons_of_mem k h0)) (by omega) h hn
    have hreject : verifyAdmin stack (some keyFile)
        (((header ++ pkgData).take n).drop 48) = false := by
      rw [← Bool.not_eq_true, verifyAdmin_iff hkey hne hfile, hread]
      exact fun hself ↦ List.cons_ne_self k ks hself.symm
    have hmem : (Image.mk ((header ++ pkgData).take n) hfull).memFrom 2 =
        ((header ++ pkgData).take n).drop 48 := by rw [Image.memFrom, hoff]
    simp only [hmem, hreject, Bool.not_false, if_true, ite_self]
  next => rfl

/-- **No push meets the contract**: whatever the version, the key and the package, the header
does not fill the client's struct, and the client rejects the push even when `admin.key`
stores exactly the key that was pushed. -/
theorem pushHeader_not_headerAgrees (sha256 : Bytes → Digest)
    (version adminKey pkgData : Bytes) (hver : HeaderText 31 version)
    (hkey : HeaderText 255 adminKey) (hne : adminKey ≠ []) :
    ¬ HeaderAgrees sha256 version adminKey pkgData ∧
      ∀ header, pushHeader sha256 version adminKey pkgData = some header →
        ∀ stack keyFile, StoresKey keyFile adminKey → ∀ n,
          acceptHeader stack (some keyFile) ((header ++ pkgData).take n) = none := by
  have hver' : version.length ≤ 32 := Nat.le_succ_of_le hver.length_le
  refine ⟨?_, fun header h stack keyFile hfile ↦ acceptHeader_pushHeader hver' hkey hne hfile h⟩
  rintro ⟨header, h, hfull, -⟩
  rw [length_pushHeader hver' (Nat.le_succ_of_le hkey.length_le) h] at hfull
  exact absurd hfull (by decide)

theorem pushHeader_not_headerAgrees_default :
    ¬ HeaderAgrees (fun _ ↦ ⟨List.replicate 32 7, rfl⟩) (Bytes.ofAscii "1.0.0")
      (Bytes.ofAscii "k") [1, 2, 3] :=
  (pushHeader_not_headerAgrees _ _ _ _ ⟨by decide, by decide, by decide⟩
    ⟨by decide, by decide, by decide⟩ (by decide)).1

/-- The default version, a one-letter key and a three-byte package: the header is one byte
short. -/
theorem not_headerAgrees_one_letter_key :
    ¬ HeaderAgrees (fun _ ↦ ⟨List.replicate 32 0, rfl⟩) (Bytes.ofAscii "1.0.0")
      (Bytes.ofAscii "k") [1, 2, 3] := by
  rintro ⟨header, h, hfull, -⟩
  rw [length_pushHeader (by decide) (by decide) h] at hfull
  exact absurd hfull (by decide)

end JuliusOS.Ota
