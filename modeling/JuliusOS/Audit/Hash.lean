import JuliusOS.Audit.Daemon

/-!
# What the audit hash is a hash of

The hash of a line is the beginning of a digest of the whole struct, as it lies in memory. The line
shows of a text what comes before its first NUL, and it shows nothing of the padding; the bytes
behind are those that the client has sent, or for the first event whatever was on the stack.

`checkable_iff` says that two events which show the same have the same hash exactly if they agree in
the bytes that are not shown. SHA-256 is a parameter, so that they have the same hash means:
whatever it makes of the structs. For one digest the hashes may agree by chance.
-/

open CString StructLayout

namespace JuliusOS.Audit

/-- What a line shows of an event besides its hash, and what it makes of it: the type, the severity,
the process and the time, and the texts. -/
structure Shown where
  /-- `type`. -/
  type : ℕ
  /-- `severity`. -/
  severity : ℤ
  /-- `pid`. -/
  pid : ℤ
  /-- `timestamp`. -/
  timestamp : ℤ
  /-- `source`. -/
  source : Bytes
  /-- `action`. -/
  action : Bytes
  /-- `detail`. -/
  detail : Bytes
deriving DecidableEq

namespace AuditEvent

variable (e : AuditEvent)

/-- What is shown of an event. -/
def shown : Shown :=
  ⟨e.type, e.severity, e.pid, e.timestamp, cstr e.source, cstr e.action, cstr e.detail⟩

/-- The bytes of a text field from its first NUL on. -/
def behind (i : ℕ) : Bytes := (e.field i).drop (cstr (e.field i)).length

/-- The padding at the end of the struct. -/
def padding : Bytes := e.bytes.drop 468

end AuditEvent

/-- The hash can be computed from what the line shows: two events that show the same have the same
hash. -/
def Checkable (e e' : AuditEvent) : Prop :=
  e.shown = e'.shown → ∀ sha256, auditComputeHash sha256 e = auditComputeHash sha256 e'

/-- The events agree in what is not shown. -/
structure SameHidden (e e' : AuditEvent) : Prop where
  /-- Behind `source`. -/
  source : e.behind 1 = e'.behind 1
  /-- Behind `action`. -/
  action : e.behind 2 = e'.behind 2
  /-- Behind `detail`. -/
  detail : e.behind 3 = e'.behind 3
  /-- At the end. -/
  padding : e.padding = e'.padding

variable {e e' : AuditEvent}

/-! ### A struct and its fields -/

/-- **A struct** is its fields and the padding at its end. -/
theorem bytes_eq_of_fields (htype : e.field 0 = e'.field 0) (hsource : e.field 1 = e'.field 1)
    (haction : e.field 2 = e'.field 2) (hdetail : e.field 3 = e'.field 3)
    (hpid : e.field 4 = e'.field 4) (htimestamp : e.field 5 = e'.field 5)
    (hseverity : e.field 6 = e'.field 6) (hpadding : e.padding = e'.padding) :
    e.bytes = e'.bytes := by
  have h464 : e.bytes.drop 464 = e'.bytes.drop 464 := Bytes.drop_eq_of_slice hseverity hpadding
  have h456 : e.bytes.drop 456 = e'.bytes.drop 456 := Bytes.drop_eq_of_slice htimestamp h464
  have h452 : e.bytes.drop 452 = e'.bytes.drop 452 := Bytes.drop_eq_of_slice hpid h456
  have h196 : e.bytes.drop 196 = e'.bytes.drop 196 := Bytes.drop_eq_of_slice hdetail h452
  have h68 : e.bytes.drop 68 = e'.bytes.drop 68 := Bytes.drop_eq_of_slice haction h196
  have h4 : e.bytes.drop 4 = e'.bytes.drop 4 := Bytes.drop_eq_of_slice hsource h68
  exact Bytes.drop_eq_of_slice htype h4

/-- A text field is the string that is shown, as far as it lies in the field, and the rest. -/
theorem field_eq_of_cstr {i : ℕ} (hlen : (e.field i).length = (e'.field i).length)
    (hshown : cstr (e.memFrom i) = cstr (e'.memFrom i)) (hbehind : e.behind i = e'.behind i) :
    e.field i = e'.field i := by
  have hself : ∀ f : AuditEvent, (cstr (f.memFrom i)).take (f.field i).length =
      cstr (f.field i) := by
    intro f
    obtain ⟨rest, hrest⟩ := f.memFrom_eq i
    rw [hrest, take_cstr_append le_rfl, List.take_of_length_le (length_cstr_le _)]
  have hcstr : cstr (e.field i) = cstr (e'.field i) := by
    rw [← hself e, ← hself e', hshown, hlen]
  have hsplit : ∀ f : AuditEvent, f.field i = cstr (f.field i) ++ f.behind i := by
    intro f
    have hprefix : cstr (f.field i) <+: f.field i := List.takeWhile_prefix _
    rw [AuditEvent.behind]
    conv_lhs => rw [← List.take_append_drop (cstr (f.field i)).length (f.field i)]
    rw [← List.prefix_iff_eq_take.1 hprefix]
  rw [hsplit e, hsplit e', hcstr, hbehind]

theorem length_field_eq {i : ℕ} (hi : i < 7) :
    (e.field i).length = (auditEventFields.map CType.size).getD i 0 := by
  have hin : ∀ i < 7, (offsets auditEventFields).getD i 0 +
      (auditEventFields.map CType.size).getD i 0 ≤ sizeof auditEventFields := by decide
  exact e.length_field (hin i hi)

/-- **Events that show the same** and hide the same are the same struct. -/
theorem bytes_eq_of_shown (hshown : e.shown = e'.shown) (hhidden : SameHidden e e') :
    e.bytes = e'.bytes := by
  have hlen : ∀ {i}, i < 7 → (e.field i).length = (e'.field i).length := fun hi ↦
    (length_field_eq hi).trans (length_field_eq hi).symm
  obtain ⟨htype, hseverity, hpid, htimestamp, hsource, haction, hdetail⟩ := Shown.mk.inj hshown
  have hfour : ∀ {i : ℕ}, (auditEventFields.map CType.size).getD i 0 = 4 → i < 7 →
      e.u32 i = e'.u32 i → e.field i = e'.field i := fun hsize hi h ↦
    Image.u32_inj ((length_field_eq hi).trans hsize) ((length_field_eq hi).trans hsize) h
  refine bytes_eq_of_fields ?_ ?_ ?_ ?_ ?_ ?_ ?_ hhidden.padding
  · exact hfour rfl (by decide) htype
  · exact field_eq_of_cstr (hlen (by decide)) hsource hhidden.source
  · exact field_eq_of_cstr (hlen (by decide)) haction hhidden.action
  · exact field_eq_of_cstr (hlen (by decide)) hdetail hhidden.detail
  · exact hfour rfl (by decide) (Image.i32_inj hpid)
  · exact Bytes.ofLeInt_inj (hlen (by decide)) htimestamp
  · exact hfour rfl (by decide) (Image.i32_inj hseverity)

/-! ### The hash -/

/-- A digest that tells one string from all others. -/
def marking (b : Bytes) : Bytes → Buf 32 :=
  fun b' ↦ if b' = b then .zero 32 else ⟨List.replicate 32 1, List.length_replicate⟩

theorem bytes_eq_of_marking
    (h : auditComputeHash (marking e.bytes) e = auditComputeHash (marking e.bytes) e') :
    e.bytes = e'.bytes := by
  by_contra hne
  rw [auditComputeHash, auditComputeHash, marking, if_pos rfl, marking, if_neg (Ne.symm hne)] at h
  exact absurd h (by decide)

/-- **When the hash can be checked.** For all events: two that show the same have the same hash,
whatever the digest, if and only if they agree behind the terminators and in the padding. -/
theorem checkable_iff (e e' : AuditEvent) :
    Checkable e e' ↔ (e.shown = e'.shown → SameHidden e e') := by
  refine forall_congr' fun hshown ↦ ?_
  constructor
  · intro h
    have hbytes : e.bytes = e'.bytes := bytes_eq_of_marking (h (marking e.bytes))
    constructor
    all_goals simp only [AuditEvent.behind, AuditEvent.padding, Image.field, hbytes]
  · intro hhidden sha256
    rw [auditComputeHash, auditComputeHash, bytes_eq_of_shown hshown hhidden]

/-- The detail `a`, and nothing behind it. -/
def plain : AuditEvent := withDetail 1 [97] (by decide)

/-- The detail `a`, and another letter behind its terminator. -/
def stuffed : AuditEvent := withDetail 1 [97, 0, 98] (by decide)

/-- SHA-256 of the two. -/
def digests (b : Bytes) : Buf 32 :=
  if b = plain.bytes then
    ⟨[14, 66, 180, 10, 18, 208, 255, 23, 163, 246, 3, 1, 108, 59, 175, 148, 27, 160, 150, 119, 103,
      151, 117, 94, 197, 35, 249, 6, 26, 246, 40, 160], rfl⟩
  else
    ⟨[51, 173, 44, 252, 209, 236, 87, 180, 56, 175, 44, 141, 72, 27, 246, 207, 160, 116, 136, 215,
      174, 218, 130, 108, 142, 76, 10, 50, 166, 138, 27, 194], rfl⟩

/-- Their lines are the same but for the hash. -/
theorem not_checkable_stuffed :
    plain.shown = stuffed.shown ∧
      auditComputeHash digests plain = "0e42b40a12d0ff17".toList ∧
      auditComputeHash digests stuffed = "33ad2cfcd1ec57b4".toList ∧ ¬ Checkable plain stuffed := by
  have hshown : plain.shown = stuffed.shown := by decide +kernel
  refine ⟨hshown, by decide +kernel, by decide +kernel, fun h ↦ ?_⟩
  exact absurd (h hshown digests) (by decide +kernel)

end JuliusOS.Audit
