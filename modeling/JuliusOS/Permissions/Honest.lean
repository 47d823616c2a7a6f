import JuliusOS.Permissions.Daemon

/-!
# Whether a grant is kept

A grant is answered with `granted = 1` whatever `grant_permission` did. It does nothing where the
table is full, and it stores 63 bytes of a longer name, which no comparison with the whole name
finds; instead the shorter name becomes a granted application. A denial changes stored entries only.

* `answer_handlePermsRequest`: what a request does to the answers of later checks;
* `honest_and_isolated_iff`: a request is honest and leaves the other applications alone exactly if
  it is no grant, or the table has an entry for it, or there is room and the name fits.
-/

open CString StructLayout

namespace JuliusOS.Permissions

variable {perms : Perms} {req chk : PermRequest} {now now' : ℤ} {app : Bytes} {type : ℕ}

/-! ### The table -/

/-- A slot's name is terminated. -/
def NameTerminated (p : Permission) : Prop := LastZero p.app.bytes

/-- The names are terminated in every slot, used or stale. -/
def Terminated (perms : Perms) : Prop := perms.AllSlots NameTerminated

/-- The answer to a check of a name and a type. -/
def answer (perms : Perms) (k : Bytes × ℕ) : PermissionStatus :=
  (perms.lookup Permission.key k).elim .unknown Permission.status

theorem find?_isFor (perms : Perms) (app : Bytes) (type : ℕ) :
    perms.find? (isFor app type) = perms.find? fun p ↦ p.key = (cstr app, type) := by
  congr 1
  funext p
  simp [isFor, strcmpEq, Permission.key, Prod.ext_iff, Bool.decide_and, beq_eq_decide]

/-- The name that is stored, and the type. -/
theorem key_namePerm {p : Permission} (h : NameTerminated p) :
    (namePerm app type p).key = ((cstr app).take 63, type) :=
  Prod.ext (cstr_strncpy p.app.length_bytes h) rfl

theorem NameTerminated.namePerm {p : Permission} (h : NameTerminated p) (app : Bytes) (type : ℕ) :
    NameTerminated (namePerm app type p) := lastZero_strncpy p.app.length_bytes h

/-- **A check** answers with the status of the first entry. -/
theorem checkPermission_eq (perms : Perms) (app : Bytes) (type : ℕ) :
    (checkPermission perms app type).2 = answer perms (cstr app, type) := by
  rw [checkPermission, find?_isFor, answer]
  cases hfind : perms.find? fun p ↦ p.key = (cstr app, type) with
  | none =>
    rw [PackedTable.find?_eq_none_iff.1 hfind]
    rfl
  | some i =>
    obtain ⟨pre, p, post, hlive, rfl, hlook⟩ := PackedTable.exists_lookup_of_find? hfind
    rw [hlook, Option.bind_some, hlive, List.getElem?_append_right le_rfl, Nat.sub_self]
    rfl

theorem granted_check (h : chk.op = permCheck) :
    (handlePermsRequest now perms chk).2 =
      ⟨answer perms chk.key, if answer perms chk.key = .granted then 1 else 0⟩ := by
  rw [handlePermsRequest, h, PermRequest.key, ← checkPermission_eq]
  rfl

/-! ### What a request does to later answers -/

/-- Changing the entry of a key changes its answer and no other. -/
theorem answer_modify {i : ℕ} {k₀ : Bytes × ℕ} (f : Permission → Permission)
    (status : PermissionStatus) (hi : (perms.find? fun p ↦ p.key = k₀) = some i)
    (hf : ∀ p, (f p).key = p.key) (hstatus : ∀ p, (f p).status = status) (k : Bytes × ℕ) :
    answer (perms.modify i f) k = if k = k₀ then status else answer perms k := by
  obtain ⟨-, p, -, -, -, hlook⟩ := PackedTable.exists_lookup_of_find? hi
  rw [answer, PackedTable.lookup_modify hi hlook hf]
  split
  · exact hstatus p
  · rfl

/-- **A grant.** An entry of the name and type is granted; else, where there is room, the name cut
to 63 bytes is, unless it has an entry already; else nothing changes. -/
theorem answer_grantPermission (hperms : Terminated perms) (k : Bytes × ℕ) :
    answer (grantPermission now perms app type) k =
      if perms.lookup Permission.key (cstr app, type) ≠ none then
        if k = (cstr app, type) then .granted else answer perms k
      else if perms.count < maxPerms then
        if k = ((cstr app).take 63, type) ∧ perms.lookup Permission.key k = none then .granted
        else answer perms k
      else answer perms k := by
  rw [grantPermission, find?_isFor]
  cases hfind : perms.find? fun p ↦ p.key = (cstr app, type) with
  | some i =>
    obtain ⟨-, p, -, -, -, hlook⟩ := PackedTable.exists_lookup_of_find? hfind
    rw [if_pos (by rw [hlook]; rintro ⟨⟩)]
    exact answer_modify (grantPerm now) .granted hfind (fun _ ↦ rfl) (fun _ ↦ rfl) k
  | none =>
    rw [if_neg (not_not.2 (PackedTable.find?_eq_none_iff.1 hfind))]
    dsimp only
    split
    next hroom =>
      rw [PackedTable.modify_append, answer, PackedTable.lookup, PackedTable.live_append,
        List.find?_append]
      have hkey : (grantPerm now (namePerm app type (perms.nextSlot hroom))).key =
          ((cstr app).take 63, type) := key_namePerm (hperms.nextSlot hroom)
      cases hlook : perms.lookup Permission.key k with
      | some p =>
        rw [show List.find? _ perms.live = some p from hlook, answer, hlook]
        simp
      | none =>
        rw [show List.find? _ perms.live = none from hlook, answer, hlook, Option.none_or]
        by_cases hk : k = ((cstr app).take 63, type)
        · rw [if_pos ⟨hk, rfl⟩, List.find?_cons_of_pos (by simp [hkey, hk])]
          rfl
        · rw [if_neg fun h ↦ hk h.1, List.find?_cons_of_neg (by simpa [hkey] using Ne.symm hk)]
          rfl
    next => rfl

/-- **A denial** changes the answer for its name and type, and no other. -/
theorem answer_denyPermission {k : Bytes × ℕ} (hk : k ≠ (cstr app, type)) :
    answer (denyPermission perms app type) k = answer perms k := by
  rw [denyPermission, find?_isFor]
  cases hfind : perms.find? fun p ↦ p.key = (cstr app, type) with
  | some i =>
    refine (answer_modify (fun p ↦ { p with status := .denied }) .denied hfind ?_ ?_ k).trans
      (if_neg hk)
    · exact fun _ ↦ rfl
    · exact fun _ ↦ rfl
  | none => rfl

/-! ### Reachable tables -/

theorem terminated_addDefault (hperms : Terminated perms) {name : String}
    {f : Permission → Permission} (hf : ∀ p, (f p).app = p.app) :
    Terminated (addDefault perms name f) := by
  rw [addDefault]
  split
  · refine hperms.append fun p hp ↦ ?_
    rw [NameTerminated, hf]
    exact lastZero_strncpy p.app.length_bytes hp
  · exact hperms

theorem terminated_foldl_addNetApp (now : ℤ) (names : List String) (hperms : Terminated perms) :
    Terminated (names.foldl (addNetApp now) perms) := by
  induction names generalizing perms with
  | nil => exact hperms
  | cons name names ih => exact ih (terminated_addDefault hperms fun _ ↦ rfl)

theorem terminated_loadDefaults (now : ℤ) : Terminated (loadDefaults now) := by
  have hzero : Terminated (.empty .zero) :=
    PackedTable.allSlots_empty (lastZero_replicate (by decide))
  dsimp only [loadDefaults]
  apply terminated_addDefault
  · apply terminated_addDefault (terminated_foldl_addNetApp now netApps hzero)
    exact fun _ ↦ rfl
  · exact fun _ ↦ rfl

/-- A request leaves the names terminated. -/
theorem terminated_handlePermsRequest (hperms : Terminated perms) (now : ℤ) (req : PermRequest) :
    Terminated (handlePermsRequest now perms req).1 := by
  have hkeep : ∀ {i : ℕ} {f : Permission → Permission}, (∀ p, (f p).app = p.app) →
      Terminated (perms.modify i f) := fun hf ↦ hperms.modify fun p hp ↦ by
    rw [NameTerminated, hf]
    exact hp
  rw [handlePermsRequest]
  split
  · dsimp only
    rw [checkPermission]
    split
    · exact hkeep fun _ ↦ rfl
    · exact hperms
  · rw [grantPermission]
    split
    · exact hkeep fun _ ↦ rfl
    · split
      next hroom =>
        rw [PackedTable.modify_append]
        exact hperms.append fun p hp ↦ hp.namePerm req.app req.type
      next => exact hperms
  · rw [denyPermission]
    split
    · exact hkeep fun _ ↦ rfl
    · exact hperms
  · exact hperms

theorem terminated_of_reachable (h : daemon.Reachable perms) : Terminated perms := by
  refine Machine.Reachable.induction (fun perms hinit ↦ ?_) (fun perms l perms' hperms hstep ↦ ?_) h
  · obtain ⟨now, hinit⟩ := hinit
    rw [hinit]
    exact terminated_loadDefaults now
  · obtain rfl := Option.some.inj hstep
    exact terminated_handlePermsRequest hperms l.1 l.2

/-! ### Honesty and isolation -/

/-- The application's bytes and the type are the same. -/
structure PermRequest.SameArgs (a b : PermRequest) : Prop where
  /-- The 64 bytes of the field. -/
  app : a.field 1 = b.field 1
  /-- The type. -/
  type : a.type = b.type

/-- A grant that is answered with `granted = 1` is one that a check with the same bytes confirms. -/
def Honest (now : ℤ) (perms : Perms) (req : PermRequest) : Prop :=
  req.op = permGrant → (handlePermsRequest now perms req).2.granted = 1 →
    ∀ now' chk, chk.op = permCheck → chk.SameArgs req →
      (handlePermsRequest now' (handlePermsRequest now perms req).1 chk).2.granted = 1

/-- A grant or a denial leaves the answer to a check of any other name or type as it was. -/
def Isolated (now : ℤ) (perms : Perms) (req : PermRequest) : Prop :=
  req.op = permGrant ∨ req.op = permDeny →
    ∀ now' chk, chk.op = permCheck → chk.key ≠ req.key →
      (handlePermsRequest now' (handlePermsRequest now perms req).1 chk).2 =
        (handlePermsRequest now' perms chk).2

/-- The name's memory is the field with the type behind it. -/
theorem PermRequest.app_eq (req : PermRequest) : req.app = req.field 1 ++ req.field 2 := by
  have hlen : req.bytes.length = 72 := req.length_bytes
  have htail : (req.bytes.drop 68).take 4 = (req.bytes.drop 4).drop 64 := by
    rw [List.take_of_length_le (by rw [List.length_drop, hlen]), List.drop_drop]
  show req.bytes.drop 4 = (req.bytes.drop 4).take 64 ++ (req.bytes.drop 68).take 4
  rw [htail, List.take_append_drop]

theorem PermRequest.length_field_two (req : PermRequest) : (req.field 2).length = 4 :=
  Bytes.length_slice (by rw [req.length_bytes]; decide)

/-- The same bytes are the same name. -/
theorem PermRequest.SameArgs.key_eq (h : chk.SameArgs req) : chk.key = req.key := by
  have htype : chk.field 2 = req.field 2 := by
    refine Bytes.ofLe_inj (chk.length_field_two.trans req.length_field_two.symm) ?_
    have hread := h.type
    rw [PermRequest.type, PermRequest.type, Image.u32, Image.u32,
      List.take_of_length_le chk.length_field_two.le,
      List.take_of_length_le req.length_field_two.le] at hread
    exact hread
  rw [PermRequest.key, PermRequest.key, h.type, chk.app_eq, req.app_eq, h.app, htype]

/-- The check with the arguments of a request. -/
def PermRequest.asCheck (req : PermRequest) : PermRequest where
  bytes := Bytes.le 4 permCheck ++ req.bytes.drop 4
  length_bytes := by
    rw [List.length_append, Bytes.length_le, List.length_drop, req.length_bytes]
    rfl

theorem PermRequest.op_asCheck (req : PermRequest) : req.asCheck.op = permCheck :=
  Image.u32_flatten [] [req.bytes.drop 4] (by simp [asCheck]) rfl rfl (by decide)

theorem PermRequest.sameArgs_asCheck (req : PermRequest) : req.asCheck.SameArgs req := by
  have hfour : (Bytes.le 4 permCheck).length = 4 := Bytes.length_le 4 _
  have hslice : ∀ len, ∀ off ≥ 4,
      Bytes.slice req.asCheck.bytes off len = Bytes.slice req.bytes off len := by
    intro len off hoff
    obtain ⟨k, rfl⟩ := Nat.exists_eq_add_of_le hoff
    rw [asCheck, Bytes.slice, Bytes.slice, ← List.drop_drop, ← List.drop_drop,
      List.drop_left' hfour]
  refine ⟨hslice 64 4 le_rfl, ?_⟩
  rw [type, type, Image.u32, Image.u32, Image.field, Image.field, StructLayout.field,
    StructLayout.field, hslice _ _ (by decide)]

theorem handlePermsRequest_grant (h : req.op = permGrant) :
    handlePermsRequest now perms req =
      (grantPermission now perms req.app req.type, ⟨.unknown, 1⟩) := by
  rw [handlePermsRequest, h]
  rfl

theorem handlePermsRequest_deny (h : req.op = permDeny) :
    handlePermsRequest now perms req =
      (denyPermission perms req.app req.type, ⟨.unknown, 0⟩) := by
  rw [handlePermsRequest, h]
  rfl

/-- **When a grant takes effect.** -/
theorem answer_grantPermission_self (hperms : Terminated perms) :
    answer (grantPermission now perms app type) (cstr app, type) = .granted ↔
      perms.lookup Permission.key (cstr app, type) ≠ none ∨
        perms.count < maxPerms ∧ (cstr app).length ≤ 63 := by
  rw [answer_grantPermission hperms]
  by_cases hlook : perms.lookup Permission.key (cstr app, type) = none
  · have hunknown : answer perms (cstr app, type) ≠ .granted := by
      rw [answer, hlook]
      rintro ⟨⟩
    rw [if_neg (not_not.2 hlook), or_iff_right (not_not.2 hlook)]
    by_cases hroom : perms.count < maxPerms
    · rw [if_pos hroom, and_iff_right hroom]
      constructor
      · intro h
        by_contra hlong
        refine hunknown ((if_neg fun hk ↦ hlong ?_).symm.trans h)
        have htake : cstr app = (cstr app).take 63 := congrArg Prod.fst hk.1
        rw [htake]
        exact List.length_take_le _ _
      · intro hshort
        rw [List.take_of_length_le hshort, if_pos ⟨rfl, hlook⟩]
    · rw [if_neg hroom]
      exact iff_of_false hunknown fun h ↦ hroom h.1
  · rw [if_pos hlook, if_pos rfl]
    exact iff_of_true rfl (Or.inl hlook)

/-- **What a grant that takes effect leaves alone.** -/
theorem answer_grantPermission_other (hperms : Terminated perms)
    (h : perms.lookup Permission.key (cstr app, type) ≠ none ∨
      perms.count < maxPerms ∧ (cstr app).length ≤ 63) {k : Bytes × ℕ} (hk : k ≠ (cstr app, type)) :
    answer (grantPermission now perms app type) k = answer perms k := by
  rw [answer_grantPermission hperms, if_neg hk]
  rcases h with hlook | ⟨-, hshort⟩
  · exact if_pos hlook
  · rw [List.take_of_length_le hshort, if_neg fun hand : _ ∧ _ ↦ hk hand.1, ite_self, ite_self]

/-- **When a request is honest and leaves the others alone.** -/
theorem honest_and_isolated_iff (hperms : daemon.Reachable perms) (now : ℤ) (req : PermRequest) :
    Honest now perms req ∧ Isolated now perms req ↔
      (req.op = permGrant → perms.lookup Permission.key req.key ≠ none ∨
        perms.count < maxPerms ∧ (cstr req.app).length ≤ 63) := by
  have hterm := terminated_of_reachable hperms
  constructor
  · rintro ⟨hhonest, -⟩ hop
    have hgranted := hhonest hop (by rw [handlePermsRequest_grant hop]) now req.asCheck
      req.op_asCheck req.sameArgs_asCheck
    rw [granted_check req.op_asCheck, req.sameArgs_asCheck.key_eq,
      handlePermsRequest_grant hop] at hgranted
    have hself : answer (grantPermission now perms req.app req.type) req.key = .granted := by
      by_contra hne
      rw [if_neg hne] at hgranted
      exact absurd hgranted Nat.zero_ne_one
    exact (answer_grantPermission_self hterm).1 hself
  · intro h
    refine ⟨fun hop _ now' chk hchk hsame ↦ ?_, fun hor now' chk hchk hne ↦ ?_⟩
    · rw [granted_check hchk, hsame.key_eq, handlePermsRequest_grant hop]
      exact if_pos ((answer_grantPermission_self hterm).2 (h hop))
    · have hkept : answer (handlePermsRequest now perms req).1 chk.key = answer perms chk.key := by
        rcases hor with hop | hop
        · rw [handlePermsRequest_grant hop]
          exact answer_grantPermission_other hterm (h hop) hne
        · rw [handlePermsRequest_deny hop]
          exact answer_denyPermission hne
      rw [granted_check hchk, granted_check hchk, hkept]

/-! ### Two grants -/

/-- A grant of permission 2 to an application whose field holds these bytes. -/
def PermRequest.ofGrant (app : Bytes) (h : app.length = 64) : PermRequest where
  bytes := Bytes.le 4 permGrant ++ app ++ Bytes.le 4 2
  length_bytes := by
    rw [List.length_append, List.length_append, Bytes.length_le, h]
    rfl

/-- A grant to the application `a` is honest and leaves the others alone. -/
theorem honest_and_isolated_letter :
    daemon.Reachable (loadDefaults 0) ∧
      Honest 0 (loadDefaults 0) (.ofGrant (Bytes.ljust 64 0 [97]) rfl) ∧
      Isolated 0 (loadDefaults 0) (.ofGrant (Bytes.ljust 64 0 [97]) rfl) := by
  have hinit : daemon.Reachable (loadDefaults 0) := .of_init ⟨0, rfl⟩
  exact ⟨hinit, (honest_and_isolated_iff hinit 0 _).2 fun _ ↦ Or.inr (by decide +kernel)⟩

/-- A grant to an application whose field is not terminated is not honest. -/
theorem not_honest_long :
    daemon.Reachable (loadDefaults 0) ∧
      ¬ (Honest 0 (loadDefaults 0) (.ofGrant (List.replicate 64 97) rfl) ∧
        Isolated 0 (loadDefaults 0) (.ofGrant (List.replicate 64 97) rfl)) := by
  have hinit : daemon.Reachable (loadDefaults 0) := .of_init ⟨0, rfl⟩
  refine ⟨hinit, fun h ↦ ?_⟩
  have hor := (honest_and_isolated_iff hinit 0 _).1 h (by decide +kernel)
  exact absurd hor (by decide +kernel)

end JuliusOS.Permissions
