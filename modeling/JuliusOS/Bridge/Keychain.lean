import JuliusOS.Foundations.Utf8
import JuliusOS.Keychain.Map

/-!
# The bridge's keychain client

`keychain_save` and `keychain_get` of `src/system/julius_bridge.py`, which lay out the daemon's
structs by hand with numeric offsets.

Saving is right. Reading is not: the response struct has the data at offset 4 and their length
behind them at offset 516, and the client takes the first four bytes of the *data* for the
length and starts reading after them. What it returns is `misread`, cut to the number that the
secret's first four bytes spell.

* `keychainSave_spec`: a save stores the secret's bytes and returns `True`;
* `misread_eq_iff`: the misread text is the secret for exactly one secret;
* `secretRoundTrips_iff`: hence a secret survives the round trip if and only if it is that one.
-/

open CString StructLayout Utf8
open Bytes (le leInt ljust ofLe slice)

namespace JuliusOS.Bridge

open Keychain

/-! ### Python's `struct` module -/

/-- `struct.pack('I', n)`, which raises for a number that does not fit. -/
def packUInt (n : ℕ) : Option Bytes := if n < 2 ^ 32 then some (le 4 n) else none

/-- `struct.unpack('I', b)[0]`, which raises unless there are four bytes. -/
def unpackUInt (b : Bytes) : Option ℕ := if b.length = 4 then some (ofLe b) else none

/-- `struct.unpack('i', b)[0]`, likewise. -/
def unpackInt (b : Bytes) : Option ℤ :=
  (unpackUInt b).map fun n ↦ if n < 2 ^ 31 then n else (n : ℤ) - 2 ^ 32

/-! ### The client -/

section Client

variable (A : Gcm) (env : Env) (st : Store)

/-- A name as it is sent. -/
def nameField (name : String) : Bytes := ljust 64 0 (encode name.toList)

/-- `keychain_save`: the daemon's new state and the returned value. An exception on the way
makes it `False`. -/
def keychainSave (service account : String) (data : String ⊕ Bytes) : Option (Store × Bool) :=
  let dataB := data.elim (fun text ↦ encode text.toList) id
  match packUInt dataB.length with
  | none => some (st, false)
  | some dlen =>
    (kcConnection A env st [le 4 1, nameField service, nameField account, ljust 512 0 dataB, dlen,
        List.replicate 128 0].flatten).map fun out ↦
      let resp := out.2.take 648
      (out.1, unpackInt (resp.take 4) == some 0)

/-- What `keychain_get` makes of the bytes that came back. -/
def readSecret (sent : Bytes) : Option String :=
  let resp := sent.take 648
  if 8 ≤ resp.length then
    match unpackInt (resp.take 4), unpackUInt (slice resp 4 4) with
    | some status, some dlen =>
      if status = 0 ∧ 0 < dlen then some (String.ofList (decodeIgnore (slice resp 8 dlen)))
      else none
    | _, _ => none
  else none

/-- `keychain_get`. -/
def keychainGet (service account : String) : Option (Option String) :=
  (kcConnection A env st [le 4 2, nameField service, nameField account,
      List.replicate (512 + 4 + 128) 0].flatten).map fun out ↦ readSecret out.2

end Client

/-! ### What a secret is misread as -/

/-- The data field of the response to a get that finds `v`. -/
def dataField (v : Bytes) : Bytes := ljust 512 0 v

/-- The number that `keychain_get` takes for the length. -/
def announced (v : Bytes) : ℕ := ofLe ((dataField v).take 4)

/-- `resp[8:]`: the rest of the data field, the length and the error text. -/
def misread (v : Bytes) : Bytes :=
  (dataField v).drop 4 ++ (le 4 v.length ++ List.replicate 128 0)

/-- The bytes of the one secret that is read back. -/
def fixedSecret : Bytes := (List.replicate 128 [0, 2, 0, 0]).flatten

theorem length_dataField {v : Bytes} (h : v.length ≤ 512) : (dataField v).length = 512 :=
  Bytes.length_ljust_of_le h

/-- The announced length is spelled by the first four bytes of the secret. -/
theorem announced_eq {v : Bytes} (h : v.length ≤ 512) :
    announced v = (v.getD 0 0).toNat + 256 * ((v.getD 1 0).toNat +
      256 * ((v.getD 2 0).toNat + 256 * (v.getD 3 0).toNat)) := by
  have hlen := length_dataField h
  rw [announced, ← Bytes.getD_ljust 512 v 0, ← Bytes.getD_ljust 512 v 1,
    ← Bytes.getD_ljust 512 v 2, ← Bytes.getD_ljust 512 v 3, ← dataField]
  match dataField v, hlen with
  | a :: b :: c :: d :: _, _ => rfl

/-- A secret of zeros announces the length 0. -/
theorem announced_of_zero {v : Bytes} (hlen : v.length ≤ 512) (h : ∀ a ∈ v, a = 0) :
    announced v = 0 := by
  have hget : ∀ i, v.getD i 0 = 0 := by
    intro i
    rcases Nat.lt_or_ge i v.length with hi | hi
    · rw [List.getD_eq_getElem _ _ hi]
      exact h _ (List.getElem_mem hi)
    · exact List.getD_eq_default _ _ hi
  rw [announced_eq hlen, hget, hget, hget, hget]
  rfl

/-- What follows the low byte of the length in the response: the other three bytes and the error
text, all below 128. -/
def lengthTail (n : ℕ) : Bytes := UInt8.ofNat (n / 256) :: 0 :: 0 :: List.replicate 128 0

theorem misread_eq {v : Bytes} (h : v.length ≤ 512) :
    misread v = (dataField v).drop 4 ++ UInt8.ofNat v.length :: lengthTail v.length := by
  rw [misread, le, le, le, le, le, show v.length / 256 / 256 = 0 by omega]
  rfl

theorem lengthTail_lt {n : ℕ} (h : n ≤ 512) : ∀ a ∈ lengthTail n, a < 128 := by
  intro a ha
  have hzero : (0 : UInt8) < 128 := by decide
  rcases List.mem_cons.1 ha with rfl | ha
  · rw [UInt8.lt_iff_toNat_lt, UInt8.toNat_ofNat']
    exact lt_of_le_of_lt (Nat.mod_le _ _) (lt_of_le_of_lt (Nat.div_le_div_right h) (by decide))
  · rcases List.mem_cons.1 ha with rfl | ha
    · exact hzero
    · rcases List.mem_cons.1 ha with rfl | ha
      · exact hzero
      · exact List.eq_of_mem_replicate ha ▸ hzero

theorem length_lengthTail (n : ℕ) : (lengthTail n).length = 131 := by
  simp [lengthTail]

/-- Of a byte and bytes below 128 behind it everything is decoded, but the first byte only if it
is below 128 too. -/
theorem encode_decodeIgnore_cons {a : UInt8} {x : Bytes} (hx : ∀ b ∈ x, b < 128) :
    encode (decodeIgnore (a :: x)) = if a < 128 then a :: x else x := by
  obtain ⟨u, hu⟩ := exists_encode_eq hx
  split
  next ha =>
    obtain ⟨c, hc⟩ := exists_encodeChar_eq ha
    have hcu : encode (c :: u) = a :: x := by rw [encode_cons, hc, hu, List.singleton_append]
    rw [← hcu, decodeIgnore_encode]
  next ha => rw [decodeIgnore_cons_ascii (UInt8.not_lt.1 ha) hx, ← hu, decodeIgnore_encode]

/-- What follows the first four bytes in the data field, if they do not end inside a character,
is text. -/
theorem exists_encode_eq_dataField_drop {s : List Char} (hlt : (encode s).getD 3 0 < 128) :
    ∃ t, (encode s).drop 4 = encode t := by
  obtain ⟨junk, t, hdrop, -, -, hbefore⟩ := exists_drop_encode s 4
  rcases eq_or_ne junk [] with rfl | hne
  · exact ⟨t, hdrop⟩
  · exact absurd hlt (UInt8.not_lt.2 (hbefore hne).2)

theorem dataField_drop (v : Bytes) :
    (dataField v).drop 4 = v.drop 4 ++ List.replicate (512 - v.length - (4 - v.length)) 0 := by
  rw [dataField, ljust, List.drop_append, List.drop_replicate]

/-- **A fourth byte from 128 on** announces more than there is, and then everything behind it
is returned, which is longer than any secret. -/
theorem decodeIgnore_misread_ne_of_ge {s : List Char} (hlen : (encode s).length ≤ 512)
    (hge : 128 ≤ (encode s).getD 3 0) :
    decodeIgnore ((misread (encode s)).take (announced (encode s))) ≠ s := by
  intro heq
  have hbig : 640 ≤ announced (encode s) := by
    rw [announced_eq hlen]
    have : 128 ≤ ((encode s).getD 3 0).toNat := UInt8.le_iff_toNat_le.1 hge
    omega
  have hall : (misread (encode s)).length ≤ announced (encode s) := by
    rw [misread_eq hlen, List.length_append, List.length_drop, length_dataField hlen,
      List.length_cons, length_lengthTail]
    omega
  obtain ⟨junk, t, hdrop, hjunk, hfirst, -⟩ := exists_drop_encode s 4
  obtain ⟨z, hz⟩ := exists_encode_eq
    (x := List.replicate (512 - (encode s).length - (4 - (encode s).length)) 0)
    fun a ha ↦ List.eq_of_mem_replicate ha ▸ by decide
  have hrest : 131 ≤ (encode (decodeIgnore
      (UInt8.ofNat (encode s).length :: lengthTail (encode s).length))).length := by
    rw [encode_decodeIgnore_cons (lengthTail_lt hlen)]
    split
    · rw [List.length_cons, length_lengthTail]
      omega
    · rw [length_lengthTail]
  rw [List.take_of_length_le hall, misread_eq hlen, dataField_drop, hdrop, ← hz,
    List.append_assoc, List.append_assoc, decodeIgnore_not_first_append hfirst,
    decodeIgnore_encode_append, decodeIgnore_encode_append] at heq
  have hcount := congrArg (fun s ↦ (encode s).length) heq
  have hdropped := congrArg List.length hdrop
  have hzlen := congrArg List.length hz
  simp only [encode_append, List.length_append, List.length_drop, List.length_replicate]
    at hcount hdropped hzlen
  omega

/-- **A number inside the data field**: the text returned ends there, so it is too short, or it
is the secret's tail and zeros, and then the secret is all zeros and announces 0. -/
theorem announced_eq_zero_of_le {s : List Char} (hlen : (encode s).length ≤ 512)
    (hlt : (encode s).getD 3 0 < 128) (hle : announced (encode s) ≤ 508)
    (heq : decodeIgnore ((misread (encode s)).take (announced (encode s))) = s) :
    announced (encode s) = 0 := by
  set d := announced (encode s) with hd
  obtain ⟨t, ht⟩ := exists_encode_eq_dataField_drop hlt
  have htlen := congrArg List.length ht
  rw [List.length_drop] at htlen
  have hpre : (misread (encode s)).take d = (encode t ++ List.replicate
      (512 - (encode s).length - (4 - (encode s).length)) 0).take d := by
    rw [misread, List.take_append_of_le_length, dataField_drop, ht]
    rwa [List.length_drop, length_dataField hlen]
  rw [hpre] at heq
  rcases Nat.lt_or_ge d (encode t).length with hshort | hlong
  · have hbound := length_encode_decodeIgnore_le ((encode t ++ List.replicate
      (512 - (encode s).length - (4 - (encode s).length)) 0).take d)
    rw [heq, List.length_take] at hbound
    omega
  · rw [List.take_append, List.take_of_length_le hlong, List.take_replicate] at heq
    set j := min (d - (encode t).length) (512 - (encode s).length - (4 - (encode s).length))
    obtain ⟨z, hz⟩ := exists_encode_eq (x := List.replicate j 0)
      fun a ha ↦ List.eq_of_mem_replicate ha ▸ by decide
    rw [← hz, ← encode_append, decodeIgnore_encode] at heq
    have hshift : encode s = (encode s).drop 4 ++ List.replicate j 0 := by
      rw [ht, ← hz, ← encode_append, heq]
    rw [hd]
    exact announced_of_zero hlen (Bytes.eq_zero_of_shift (by decide) hshift)

/-- A string whose bytes come back four places further on, up to place 508. -/
theorem getD_one_eq {v tail : Bytes} (hv : v = (dataField v).drop 4 ++ tail)
    (hlen : v.length ≤ 512) : v.getD 1 0 = tail.getD 1 0 := by
  have hdrop : ((dataField v).drop 4).length = 508 := by
    rw [List.length_drop, length_dataField hlen]
  have hshift : ∀ i, i < 508 → v.getD i 0 = v.getD (i + 4) 0 := by
    intro i hi
    conv_lhs => rw [hv]
    rw [List.getD_append _ _ _ _ (by omega), ← Bytes.getD_ljust 512 v (i + 4), ← dataField,
      List.getD_eq_getElem?_getD, List.getElem?_drop, Nat.add_comm, List.getD_eq_getElem?_getD]
  have hwalk : ∀ m, m ≤ 127 → v.getD 1 0 = v.getD (1 + 4 * m) 0 := by
    intro m
    induction m with
    | zero => exact fun _ ↦ rfl
    | succ m ih => exact fun hm ↦ (ih (by omega)).trans (hshift _ (by omega))
  rw [hwalk 127 (by omega), hv, List.getD_append_right _ _ _ _ (by omega), hdrop]

/-- **A number behind the data field**: only the announced length 512 with a secret of that
length fits. -/
theorem eq_shift_of_gt {s : List Char} (hlen : (encode s).length ≤ 512)
    (hlt : (encode s).getD 3 0 < 128) (hgt : 508 < announced (encode s))
    (heq : decodeIgnore ((misread (encode s)).take (announced (encode s))) = s) :
    encode s = (encode s).drop 4 ++ [0, 2, 0, 0] ∧ (encode s).length = 512 := by
  have hann := announced_eq hlen
  set d := announced (encode s)
  set n := (encode s).length with hn
  obtain ⟨t, ht⟩ := exists_encode_eq_dataField_drop hlt
  obtain ⟨z, hz⟩ := exists_encode_eq (x := List.replicate (512 - n - (4 - n)) 0)
    fun a ha ↦ List.eq_of_mem_replicate ha ▸ by decide
  have hfield : (dataField (encode s)).drop 4 = encode (t ++ z) := by
    rw [dataField_drop, ← hn, ht, ← hz, encode_append]
  have hfieldlen : (encode (t ++ z)).length = 508 := by
    rw [← hfield, List.length_drop, length_dataField hlen]
  have htail : ∀ a ∈ (lengthTail n).take (d - 509), a < 128 :=
    fun a ha ↦ lengthTail_lt hlen a (List.mem_of_mem_take ha)
  have hpre : (misread (encode s)).take d =
      encode (t ++ z) ++ UInt8.ofNat n :: (lengthTail n).take (d - 509) := by
    rw [misread_eq hlen, hfield, List.take_append, List.take_of_length_le (by omega), hfieldlen,
      show d - 508 = d - 509 + 1 by omega, List.take_succ_cons]
  have hsplit : encode s = (dataField (encode s)).drop 4 ++
      if UInt8.ofNat n < 128 then UInt8.ofNat n :: (lengthTail n).take (d - 509)
      else (lengthTail n).take (d - 509) := by
    rw [hpre, decodeIgnore_encode_append] at heq
    rw [hfield, ← encode_decodeIgnore_cons htail, ← encode_append, heq]
  have hcount := congrArg List.length hsplit
  rw [List.length_append, hfield, hfieldlen, ← hn] at hcount
  split at hsplit
  next hlow =>
    -- the low byte was read: it is 0, since 508 bytes in front leave it nothing else to be
    have hlow' : n % 256 < 128 := by
      rw [UInt8.lt_iff_toNat_lt, UInt8.toNat_ofNat'] at hlow
      exact hlow
    rw [if_pos hlow, List.length_cons, List.length_take, length_lengthTail] at hcount
    have hn512 : n = 512 := by omega
    have hd512 : d = 512 := by omega
    have hself : dataField (encode s) = encode s := by
      rw [dataField, ljust, ← hn, hn512, Nat.sub_self, List.replicate_zero, List.append_nil]
    refine ⟨?_, hn512⟩
    rw [hself, hn512, hd512] at hsplit
    exact hsplit
  next hlow =>
    -- the low byte was dropped, so the announced length is one more than the length; but the
    -- second byte of such a secret is 0
    rw [if_neg hlow, List.length_take, length_lengthTail] at hcount
    have hn512 : n ≠ 512 := by
      intro h
      rw [h] at hlow
      exact hlow (by decide)
    have hone : (encode s).getD 1 0 = 0 := by
      rw [getD_one_eq hsplit hlen]
      rcases d - 509 with _ | _ | k <;> rfl
    rw [hone] at hann
    have h0 := ((encode s).getD 0 0).toNat_lt
    simp only [UInt8.toNat_zero] at hann
    omega

/-- **The one secret.** What `keychain_get` reads back is the secret if and only if its bytes
are `00 02 00 00`, 128 times over. -/
theorem misread_eq_iff {s : List Char} (hlen : (encode s).length ≤ 512) :
    (0 < announced (encode s) ∧
      decodeIgnore ((misread (encode s)).take (announced (encode s))) = s) ↔
        encode s = fixedSecret := by
  constructor
  · rintro ⟨hpos, heq⟩
    rcases Decidable.em ((encode s).getD 3 0 < 128) with hlt | hge
    · rcases Nat.lt_or_ge 508 (announced (encode s)) with hgt | hle
      · obtain ⟨hshift, h512⟩ := eq_shift_of_gt hlen hlt hgt heq
        exact Bytes.eq_flatten_replicate_of_shift hshift h512
      · exact absurd (announced_eq_zero_of_le hlen hlt hle heq) hpos.ne'
    · exact absurd heq (decodeIgnore_misread_ne_of_ge hlen (UInt8.not_lt.1 hge))
  · intro hs
    have hann : announced fixedSecret = 512 := by decide +kernel
    have hread : (misread fixedSecret).take 512 = fixedSecret := by decide +kernel
    rw [hs, hann, hread, ← hs, decodeIgnore_encode]
    exact ⟨by decide, rfl⟩

/-! ### The requests as the daemon sees them -/

/-- A service or account name of 1 to 63 bytes without NUL. -/
structure NameOk (name : String) : Prop where
  /-- It is not empty. -/
  pos : 1 ≤ (encode name.toList).length
  /-- It leaves room for a NUL. -/
  le : (encode name.toList).length ≤ 63
  /-- It has no NUL of its own. -/
  noNul : (0 : UInt8) ∉ encode name.toList

variable {A : Gcm} {env env' : Env} {st st' : Store} {service account secret : String}

theorem NameOk.length_nameField {name : String} (h : NameOk name) :
    (nameField name).length = 64 :=
  Bytes.length_ljust_of_le (Nat.le_succ_of_le h.le)

theorem NameOk.zero_mem_nameField {name : String} (h : NameOk name) :
    (0 : UInt8) ∈ nameField name := by
  have := h.le
  exact List.mem_append_right _ (List.mem_replicate.2 ⟨by omega, rfl⟩)

/-- A name that is sent in a field of its own arrives. -/
theorem NameOk.cstr_nameField_append {name : String} (h : NameOk name) (rest : Bytes) :
    cstr (nameField name ++ rest) = encode name.toList := by
  rw [cstr_append_of_mem h.zero_mem_nameField, nameField, cstr_ljust h.noNul]

/-- The parts of a request: the operation, the names, and what comes after them. -/
def requestParts (op : ℕ) (service account : String) (rest : List Bytes) : List Bytes :=
  [le 4 op, nameField service, nameField account] ++ rest

/-- **The daemon sees the operation and the names.** -/
theorem request_spec {op : ℕ} (hop : op < 2 ^ 32) (hsvc : NameOk service) (hacc : NameOk account)
    {rest : List Bytes} (req : KeychainRequest)
    (hreq : req.bytes = (requestParts op service account rest).flatten) :
    req.op = op ∧ req.key = (encode service.toList, encode account.toList) ∧ req.Terminated := by
  have hop4 : [le 4 op].flatten.length = 4 := by simp
  have hnames : [le 4 op, nameField service].flatten.length = 68 := by
    simp [hsvc.length_nameField]
  have hopField : req.field 0 = le 4 op :=
    Image.field_flatten [] (le 4 op) _ hreq rfl (by rw [Bytes.length_le]; rfl)
  have hserviceField : req.field 1 = nameField service :=
    Image.field_flatten [le 4 op] (nameField service) _ hreq (by rw [hop4]; rfl)
      (by rw [hsvc.length_nameField]; rfl)
  have haccountField : req.field 2 = nameField account :=
    Image.field_flatten [le 4 op, nameField service] (nameField account) rest hreq
      (by rw [hnames]; rfl) (by rw [hacc.length_nameField]; rfl)
  refine ⟨?_, Prod.ext ?_ ?_, ?_, ?_⟩
  · rw [KeychainRequest.op, Image.u32, hopField, List.take_of_length_le (Bytes.length_le 4 op).le,
      Bytes.ofLe_le_of_lt hop]
  · show cstr (req.memFrom 1) = _
    rw [Image.memFrom_flatten [le 4 op] ([nameField service, nameField account] ++ rest) hreq
      (by rw [hop4]; rfl)]
    exact hsvc.cstr_nameField_append _
  · show cstr (req.memFrom 2) = _
    rw [Image.memFrom_flatten [le 4 op, nameField service] (nameField account :: rest) hreq
      (by rw [hnames]; rfl)]
    exact hacc.cstr_nameField_append _
  · rw [hserviceField]
    exact hsvc.zero_mem_nameField
  · rw [haccountField]
    exact hacc.zero_mem_nameField

/-- **The daemon sees the data.** -/
theorem saveRequest_spec (hsvc : NameOk service) (hacc : NameOk account) {data : Bytes}
    (hlen : data.length ≤ 512) (req : KeychainRequest)
    (hreq : req.bytes = (requestParts 1 service account
      [ljust 512 0 data, le 4 data.length, List.replicate 128 0]).flatten) :
    req.dataLen = data.length ∧ req.plain = data := by
  have hfront : [le 4 1, nameField service, nameField account].flatten.length = 132 := by
    simp [hsvc.length_nameField, hacc.length_nameField]
  have hdata : (ljust 512 0 data).length = 512 := Bytes.length_ljust_of_le hlen
  have hdataField : req.field 3 = ljust 512 0 data :=
    Image.field_flatten [le 4 1, nameField service, nameField account] (ljust 512 0 data) _ hreq
      (by rw [hfront]; rfl) (by rw [hdata]; rfl)
  have hlenField : req.field 4 = le 4 data.length :=
    Image.field_flatten [le 4 1, nameField service, nameField account, ljust 512 0 data]
      (le 4 data.length) _ hreq
      (by simp [hsvc.length_nameField, hacc.length_nameField, hdata]; rfl)
      (by rw [Bytes.length_le]; rfl)
  have hu32 : req.u32 4 = data.length := by
    rw [Image.u32, hlenField, List.take_of_length_le (Bytes.length_le 4 _).le,
      Bytes.ofLe_le_of_lt (by omega)]
  have hdataLen : req.dataLen = data.length := by
    rw [KeychainRequest.dataLen, Image.i32, hu32, if_pos (by omega)]
  refine ⟨hdataLen, ?_⟩
  rw [KeychainRequest.plain, hdataLen, Int.toNat_natCast, KeychainRequest.data, hdataField, ljust,
    List.take_left]

/-! ### The round trip -/

theorem length_requestParts (op : ℕ) (hsvc : NameOk service) (hacc : NameOk account)
    (rest : List Bytes) :
    (requestParts op service account rest).flatten.length = 132 + rest.flatten.length := by
  rw [requestParts, List.flatten_append, List.length_append]
  simp [hsvc.length_nameField, hacc.length_nameField]

/-- A request of the right length is handled as the struct it fills. -/
theorem exists_request (A : Gcm) (env : Env) (st : Store) (sent : Bytes)
    (h : sent.length = sizeof keychainRequestFields) :
    ∃ req : KeychainRequest, req.bytes = sent ∧ kcConnection A env st sent =
      (handleKcRequest A env st req).map fun out ↦ (out.1, out.2.image.bytes) :=
  ⟨⟨sent, h⟩, rfl, kcConnection_eq h⟩

/-- The status of a zeroed response is read as 0. -/
theorem unpackInt_zero :
    unpackInt ((KeychainResponse.zero.image.bytes.take 648).take 4) = some 0 := by
  decide +kernel

/-- **A save** to a daemon with room returns `True` and stores the secret's bytes. -/
theorem keychainSave_spec (A : Gcm) (hctx : env.ctxNew = true)
    (hnt : st.items.AllSlots NamesTerminated) (hroom : st.items.count < kcMaxItems)
    (hsvc : NameOk service) (hacc : NameOk account)
    (hpos : 1 ≤ (encode secret.toList).length) (hlen : (encode secret.toList).length ≤ 512) :
    ∃ st' it, keychainSave A env st service account (.inl secret) = some (st', true) ∧
      st'.lookup (encode service.toList, encode account.toList) = some it ∧
      Opens A st'.kcKey it (encode secret.toList) := by
  set data := encode secret.toList with hdata
  obtain ⟨req, hreq, hconn⟩ := exists_request A env st (requestParts 1 service account
      [ljust 512 0 data, le 4 data.length, List.replicate 128 0]).flatten (by
    rw [length_requestParts 1 hsvc hacc]
    simp [Bytes.length_ljust_of_le hlen]
    rfl)
  obtain ⟨hop, hkey, hterm⟩ := request_spec (by decide) hsvc hacc req hreq
  obtain ⟨hdataLen, hplain⟩ := saveRequest_spec hsvc hacc hlen req hreq
  obtain ⟨st', it, hadd, hkcKey, -, hlook⟩ :=
    kcAddCase_spec A hnt hterm (Or.inr (by rw [hdataLen]; omega)) hroom
  have hseals : Seals A st'.kcKey (encryptReq A env st.kcKey req it) data := by
    rw [hkcKey, ← hplain]
    exact seals_encryptItem hctx _ it
  refine ⟨st', _, ?_, by rw [hlook, hkey, if_pos rfl], hseals.opens hpos⟩
  have hpack : packUInt data.length = some (le 4 data.length) := if_pos (by omega)
  rw [handleKcRequest, hop, hadd] at hconn
  rw [keychainSave]
  simp only [Sum.elim_inl, ← hdata, hpack]
  refine (congrArg _ hconn).trans ?_
  simp [unpackInt_zero]

/-- A get is answered from the item stored under the key. -/
theorem keychainGet_eq (A : Gcm) (env : Env) (st : Store) (hsvc : NameOk service)
    (hacc : NameOk account) :
    keychainGet A env st service account =
      ((st.lookup (encode service.toList, encode account.toList)).elim
        (some (KeychainResponse.zero.fail "Item not found")) (openItem A env st.kcKey)).map
          fun resp ↦ readSecret resp.image.bytes := by
  obtain ⟨req, hreq, hconn⟩ := exists_request A env st (requestParts 2 service account
      [List.replicate (512 + 4 + 128) 0]).flatten (by
    rw [length_requestParts 2 hsvc hacc, List.flatten_singleton, List.length_replicate]
    rfl)
  obtain ⟨hop, hkey, -⟩ := request_spec (by decide) hsvc hacc req hreq
  rw [handleKcRequest, hop] at hconn
  simp only [kcGetCase_eq, hkey, Option.map_map] at hconn
  rw [keychainGet]
  refine (congrArg _ hconn).trans ?_
  rw [Option.map_map]
  rfl

/-- **A get of a key that is not stored** returns `None`. -/
theorem keychainGet_of_not_stored (A : Gcm) (env : Env) (hsvc : NameOk service)
    (hacc : NameOk account)
    (h : st.lookup (encode service.toList, encode account.toList) = none) :
    keychainGet A env st service account = some none := by
  have hread : readSecret (KeychainResponse.zero.fail "Item not found").image.bytes = none := by
    decide +kernel
  rw [keychainGet_eq A env st hsvc hacc, h]
  exact congrArg some hread

/-- The first 648 bytes of the response to a get that finds `v`. -/
theorem take_found {v : Bytes} (h : v.length ≤ 512) :
    (KeychainResponse.found v h).image.bytes.take 648 =
      le 4 0 ++ (dataField v ++ (le 4 v.length ++ List.replicate 128 0)) := by
  have hparts : (KeychainResponse.found v h).parts =
      [le 4 0, dataField v, le 4 v.length, List.replicate 128 0, List.replicate 4096 0] := by
    rw [KeychainResponse.parts,
      show (KeychainResponse.found v h).data.bytes = dataField v from
        Buf.bytes_write_zero v (by omega),
      show leInt 4 (KeychainResponse.found v h).dataLen = le 4 v.length from
        Bytes.leInt_natCast (by omega)]
    rfl
  show (KeychainResponse.found v h).parts.flatten.take 648 = _
  rw [hparts, List.flatten_cons, List.flatten_cons, List.flatten_cons, List.flatten_cons,
    ← List.append_assoc, ← List.append_assoc, ← List.append_assoc, List.append_assoc (le 4 0),
    List.append_assoc (le 4 0), List.append_assoc (dataField v)]
  exact List.take_left' (by simp [length_dataField h])

/-- **What a found secret is read as.** -/
theorem readSecret_found {v : Bytes} (h : v.length ≤ 512) :
    readSecret (KeychainResponse.found v h).image.bytes =
      if 0 < announced v then some (String.ofList (decodeIgnore ((misread v).take (announced v))))
      else none := by
  have hfield := length_dataField h
  set resp := le 4 0 ++ (dataField v ++ (le 4 v.length ++ List.replicate 128 0)) with hresp
  have hlen : 8 ≤ resp.length := by simp [hresp, hfield]
  have hdrop : resp.drop 4 = dataField v ++ (le 4 v.length ++ List.replicate 128 0) :=
    List.drop_left' rfl
  have hstatus : unpackInt (resp.take 4) = some 0 := by
    rw [hresp, List.take_left' (Bytes.length_le 4 0)]
    decide
  have hdlen : unpackUInt (slice resp 4 4) = some (announced v) := by
    rw [slice, hdrop, List.take_append_of_le_length (by omega)]
    exact if_pos (by rw [List.length_take, hfield]; rfl)
  have htext : slice resp 8 (announced v) = (misread v).take (announced v) := by
    rw [slice, show 8 = 4 + 4 from rfl, ← List.drop_drop, hdrop,
      List.drop_append_of_le_length (by omega), misread]
  rw [readSecret, take_found h, ← hresp]
  simp only [if_pos hlen, hstatus, hdlen, htext, true_and]

/-- The contract of the two calls: the save returns `True`, the get after it returns exactly the
secret, and a get of a key that is not stored returns `None`. -/
def SecretRoundTrips (A : Gcm) (env env' : Env) (st : Store) (service account secret : String) :
    Prop :=
  ∃ st', keychainSave A env st service account (.inl secret) = some (st', true) ∧
    keychainGet A env' st' service account = some (some secret) ∧
    ∀ svc acc, NameOk svc → NameOk acc →
      st.lookup (encode svc.toList, encode acc.toList) = none →
        keychainGet A env' st svc acc = some none

/-- The contract holds for the one secret and no other, whatever the state of the table. -/
theorem secretRoundTrips_iff_eq_fixedSecret (A : Gcm) (hctx : env.ctxNew = true)
    (hctx' : env'.ctxNew = true) (hnt : st.items.AllSlots NamesTerminated)
    (hroom : st.items.count < kcMaxItems)
    (hsvc : NameOk service) (hacc : NameOk account)
    (hpos : 1 ≤ (encode secret.toList).length) (hlen : (encode secret.toList).length ≤ 512) :
    SecretRoundTrips A env env' st service account secret ↔
      encode secret.toList = fixedSecret := by
  obtain ⟨st', it, hsave, hlook, hfit, hopen⟩ :=
    keychainSave_spec A hctx hnt hroom hsvc hacc hpos hlen
  have hget : keychainGet A env' st' service account =
      some (if 0 < announced (encode secret.toList) then
        some (String.ofList (decodeIgnore ((misread (encode secret.toList)).take
          (announced (encode secret.toList))))) else none) := by
    rw [keychainGet_eq A env' st' hsvc hacc, hlook, Option.elim_some, hopen env' hctx',
      ← readSecret_found hlen]
    rfl
  rw [← misread_eq_iff hlen]
  constructor
  · rintro ⟨st'', hsave', hget', -⟩
    obtain ⟨rfl, -⟩ := Prod.ext_iff.1 (Option.some.inj (hsave.symm.trans hsave'))
    have htext := Option.some.inj (hget.symm.trans hget')
    split at htext
    next hann =>
      refine ⟨hann, ?_⟩
      have hlist := congrArg String.toList (Option.some.inj htext)
      rwa [String.toList_ofList] at hlist
    next => cases htext
  · rintro ⟨hann, htext⟩
    refine ⟨st', hsave, ?_, fun svc acc h h' ↦ keychainGet_of_not_stored A env' h h'⟩
    rw [hget, if_pos hann, htext, String.ofList_toList]

/-- **The exact condition for the round trip.** In every state a daemon can be in with room
left and while the cipher calls succeed, for all names of 1 to 63 bytes and every secret of 1 to
512 bytes, the contract holds if and only if the secret's bytes are `00 02 00 00`, 128 times
over. -/
theorem secretRoundTrips_iff (A : Gcm) (hctx : env.ctxNew = true) (hctx' : env'.ctxNew = true)
    {hist : History} (hst : (daemon A).Reachable (st, hist)) (hroom : st.items.count < kcMaxItems)
    (hsvc : NameOk service) (hacc : NameOk account)
    (hpos : 1 ≤ (encode secret.toList).length) (hlen : (encode secret.toList).length ≤ 512) :
    SecretRoundTrips A env env' st service account secret ↔
      encode secret.toList = fixedSecret :=
  secretRoundTrips_iff_eq_fixedSecret A hctx hctx' (namesTerminated_of_reachable hst) hroom hsvc
    hacc hpos hlen

/-- The one secret as a text. -/
def fixedText : String :=
  String.ofList (List.replicate 128 ['\x00', '\x02', '\x00', '\x00']).flatten

theorem encode_fixedText : encode fixedText.toList = fixedSecret :=
  (congrArg encode String.toList_ofList).trans (by decide +kernel)

theorem nameOk_mail : NameOk "mail" := ⟨by decide, by decide, by decide⟩

/-- It does make the round trip. -/
theorem secretRoundTrips_fixedText :
    SecretRoundTrips Gcm.transparent ⟨.zero _, 0, 0, true, true⟩ ⟨.zero _, 0, 0, true, true⟩
      (Store.init []) "mail" "mail" fixedText :=
  (secretRoundTrips_iff Gcm.transparent rfl rfl (reachable_init _ _) (count_init_lt _) nameOk_mail
    nameOk_mail (by rw [encode_fixedText]; decide +kernel)
    (by rw [encode_fixedText]; decide +kernel)).2 encode_fixedText

/-- A one-letter secret, saved in a fresh daemon, does not. -/
theorem not_secretRoundTrips_letter :
    (daemon Gcm.transparent).Reachable (Store.init [], []) ∧
      ¬ SecretRoundTrips Gcm.transparent ⟨.zero _, 0, 0, true, true⟩ ⟨.zero _, 0, 0, true, true⟩
        (Store.init []) "mail" "mail" "x" := by
  refine ⟨reachable_init _ _, fun h ↦ ?_⟩
  rw [secretRoundTrips_iff_eq_fixedSecret Gcm.transparent rfl rfl (Store.inv_init []).terminated
    (count_init_lt _) nameOk_mail nameOk_mail (by decide) (by decide)] at h
  exact absurd (congrArg List.length h) (by decide +kernel)

end JuliusOS.Bridge
