import JuliusOS.Permissions.Honest
import Mathlib.Data.Finset.Card

/-!
# The permission store is a map

Where every name is terminated in its field and the pairs that are stored leave a slot free, the
table is a map from pairs of a name and a type to statuses: `latestGrant` is that map as a function
of the requests handled so far, and `Implements` says that the table agrees with it.

* `implements_handlePermsRequest`: a request keeps the table in step with the history;
* `permission_store_is_map`: in every run no pair is stored twice, and a check answers what the most
  recent grant or denial of its pair, or else the default table, said.
-/

open CString StructLayout

namespace JuliusOS.Permissions

/-- Requests as they were handled, each with the time. -/
abbrev Requests := List (ℤ × PermRequest)

variable {perms : Perms} {req chk : PermRequest} {reqs : Requests} {now : ℤ} {k : Bytes × ℕ}

/-! ### The map -/

/-- The pairs that `load_defaults` grants. -/
def defaultKeys : List (Bytes × ℕ) :=
  netApps.map (fun app ↦ (Bytes.ofAscii app, permNetwork)) ++
    [(Bytes.ofAscii "GPIO", permGpio), (Bytes.ofAscii "Bluetooth", permBluetooth)]

/-- The request grants or denies the pair. -/
def Decides (k : Bytes × ℕ) (req : PermRequest) : Prop :=
  (req.op = permGrant ∨ req.op = permDeny) ∧ req.key = k

instance (k : Bytes × ℕ) : DecidablePred (Decides k) := fun req ↦
  inferInstanceAs (Decidable ((req.op = permGrant ∨ req.op = permDeny) ∧ req.key = k))

/-- What the most recent grant or denial of the pair said, or else the default table. -/
def latestGrant (reqs : Requests) (k : Bytes × ℕ) : Bool :=
  match reqs.reverse.find? fun r ↦ Decides k r.2 with
  | some r => r.2.op = permGrant
  | none => k ∈ defaultKeys

/-- The pairs that are granted by some request. -/
def grantedKeys (reqs : Requests) : List (Bytes × ℕ) :=
  (reqs.filter fun r ↦ r.2.op = permGrant).map fun r ↦ r.2.key

/-- The pairs that are ever stored: the defaults and those granted. -/
def storedKeys (reqs : Requests) : Finset (Bytes × ℕ) := (defaultKeys ++ grantedKeys reqs).toFinset

/-- The application's name is terminated within the 64 bytes of its field. -/
def PermRequest.NameTerminated (req : PermRequest) : Prop := (0 : UInt8) ∈ req.field 1

instance : DecidablePred PermRequest.NameTerminated := fun req ↦
  inferInstanceAs (Decidable ((0 : UInt8) ∈ req.field 1))

theorem grantedKeys_append {l : ℤ × PermRequest} :
    grantedKeys (reqs ++ [l]) =
      if l.2.op = permGrant then grantedKeys reqs ++ [l.2.key] else grantedKeys reqs := by
  rw [grantedKeys, List.filter_append, List.map_append]
  split_ifs with hop
  · rw [List.filter_cons_of_pos (by simpa using hop)]
    rfl
  · rw [List.filter_cons_of_neg (by simpa using hop)]
    exact List.append_nil _

/-- One more request stores its own pair, if it is a grant. -/
theorem mem_storedKeys_append {l : ℤ × PermRequest} :
    k ∈ storedKeys (reqs ++ [l]) ↔
      k ∈ storedKeys reqs ∨ l.2.op = permGrant ∧ k = l.2.key := by
  rw [storedKeys, storedKeys, grantedKeys_append]
  split_ifs with hop
  · rw [← List.append_assoc, List.mem_toFinset, List.mem_append, List.mem_singleton,
      List.mem_toFinset, and_iff_right hop]
  · rw [or_iff_left fun h ↦ hop h.1]

/-- One more request decides its own pair, if it is a grant or a denial. -/
theorem latestGrant_append {l : ℤ × PermRequest} :
    latestGrant (reqs ++ [l]) k =
      if Decides k l.2 then decide (l.2.op = permGrant) else latestGrant reqs k := by
  rw [latestGrant, List.reverse_append, List.reverse_singleton, List.singleton_append]
  split_ifs with h
  · rw [List.find?_cons_of_pos (by simpa using h)]
  · rw [List.find?_cons_of_neg (by simpa using h), latestGrant]

/-! ### The default table -/

/-- The table holds these pairs in this order, all of them granted. -/
structure GrantsAll (perms : Perms) (ks : List (Bytes × ℕ)) : Prop where
  /-- The names are terminated. -/
  terminated : Terminated perms
  /-- The pairs. -/
  keys : perms.live.map Permission.key = ks
  /-- They are granted. -/
  granted : ∀ p ∈ perms.live, p.status = .granted

theorem GrantsAll.count_eq {ks : List (Bytes × ℕ)} (h : GrantsAll perms ks) :
    perms.count = ks.length := by
  rw [← h.keys, List.length_map, PackedTable.length_live]

/-- A name that `strncpy` stores as it is. -/
def PlainName (app : String) : Prop :=
  cstr (Bytes.ofAscii app) = Bytes.ofAscii app ∧ (Bytes.ofAscii app).length ≤ 63

instance : DecidablePred PlainName := fun app ↦
  inferInstanceAs (Decidable (cstr (Bytes.ofAscii app) = Bytes.ofAscii app ∧
    (Bytes.ofAscii app).length ≤ 63))

/-- One more default. -/
theorem GrantsAll.addDefault {ks : List (Bytes × ℕ)} (h : GrantsAll perms ks)
    (hroom : ks.length < maxPerms) (app : String) (happ : PlainName app) {type : ℕ}
    {f : Permission → Permission} (hname : ∀ p, (f p).app = p.app) (htype : ∀ p, (f p).type = type)
    (hstatus : ∀ p, (f p).status = .granted) :
    GrantsAll (addDefault perms app f) (ks ++ [(Bytes.ofAscii app, type)]) := by
  have hcount : perms.count < maxPerms := h.count_eq ▸ hroom
  have hlast := h.terminated.nextSlot hcount
  refine ⟨terminated_addDefault h.terminated hname, ?_, ?_⟩
  · rw [Permissions.addDefault, dif_pos hcount, PackedTable.live_append, List.map_append, h.keys,
      List.map_singleton]
    congr 2
    refine Prod.ext ?_ (htype _)
    rw [Permission.key, hname]
    refine (cstr_strncpy_of_le (Buf.length_bytes _) hlast ?_).trans happ.1
    rw [happ.1]
    exact happ.2
  · rw [Permissions.addDefault, dif_pos hcount]
    intro p hp
    rcases PackedTable.mem_live_append.1 hp with hp | rfl
    · exact h.granted p hp
    · exact hstatus _

theorem GrantsAll.addNetApps (apps : List String) (now : ℤ) (happs : ∀ app ∈ apps, PlainName app)
    {ks : List (Bytes × ℕ)} (hroom : ks.length + apps.length ≤ maxPerms) (h : GrantsAll perms ks) :
    GrantsAll (apps.foldl (addNetApp now) perms)
      (ks ++ apps.map fun app ↦ (Bytes.ofAscii app, permNetwork)) := by
  induction apps generalizing perms ks with
  | nil => simpa using h
  | cons app apps ih =>
    rw [List.length_cons] at hroom
    rw [List.map_cons, List.append_cons]
    refine ih (fun a ha ↦ happs a (List.mem_cons_of_mem _ ha)) ?_ ?_
    · rw [List.length_append, List.length_singleton]
      omega
    · exact h.addDefault (by omega) app (happs app (List.mem_cons_self ..)) (fun _ ↦ rfl)
        (fun _ ↦ rfl) fun _ ↦ rfl

/-- **The default table** grants the default pairs. -/
theorem grantsAll_loadDefaults (now : ℤ) : GrantsAll (loadDefaults now) defaultKeys := by
  have hempty : GrantsAll (.empty .zero) [] :=
    ⟨PackedTable.allSlots_empty (lastZero_replicate (by decide)), rfl,
      fun _ hp ↦ absurd hp List.not_mem_nil⟩
  have hnet := hempty.addNetApps netApps now (by decide) (by decide)
  have hgpio := hnet.addDefault (by decide) "GPIO" (by decide) (fun _ ↦ rfl)
    (f := fun p ↦ { p with type := permGpio, status := .granted }) (fun _ ↦ rfl) fun _ ↦ rfl
  have hall := hgpio.addDefault (by decide) "Bluetooth" (by decide) (fun _ ↦ rfl)
    (f := fun p ↦ { p with type := permBluetooth, status := .granted }) (fun _ ↦ rfl) fun _ ↦ rfl
  rw [List.nil_append, List.append_assoc] at hall
  exact hall

/-! ### Requests -/

theorem PermRequest.length_field_one (req : PermRequest) : (req.field 1).length = 64 :=
  Bytes.length_slice (by rw [req.length_bytes]; decide)

/-- A terminated name is stored whole. -/
theorem PermRequest.NameTerminated.length_le (h : req.NameTerminated) :
    (cstr req.app).length ≤ 63 := by
  have hlt := length_cstr_lt_of_mem h
  rw [req.length_field_one] at hlt
  rw [req.app_eq, cstr_append_of_mem h]
  omega

/-- A check changes no answer. -/
theorem answer_checkPermission (perms : Perms) (app : Bytes) (type : ℕ) (k : Bytes × ℕ) :
    answer (checkPermission perms app type).1 k = answer perms k := by
  rw [checkPermission, find?_isFor]
  cases hfind : perms.find? fun p ↦ p.key = (cstr app, type) with
  | none => rfl
  | some i =>
    obtain ⟨pre, p, post, hlive, rfl, hlook⟩ := PackedTable.exists_lookup_of_find? hfind
    rw [Option.bind_some, hlive, List.getElem?_append_right le_rfl, Nat.sub_self]
    show answer (perms.modify pre.length _) k = _
    rw [answer, PackedTable.lookup_modify (f := fun p ↦ { p with usageCount := p.usageCount + 1 })
      hfind hlook fun _ ↦ rfl]
    split
    next hk => rw [hk, answer, hlook]; rfl
    next => rfl

theorem map_key_checkPermission (perms : Perms) (app : Bytes) (type : ℕ) :
    (checkPermission perms app type).1.live.map Permission.key =
      perms.live.map Permission.key := by
  rw [checkPermission]
  split
  · exact PackedTable.map_key_modify fun _ ↦ rfl
  · rfl

theorem map_key_denyPermission (perms : Perms) (app : Bytes) (type : ℕ) :
    (denyPermission perms app type).live.map Permission.key = perms.live.map Permission.key := by
  rw [denyPermission]
  split
  · exact PackedTable.map_key_modify fun _ ↦ rfl
  · rfl

/-- **A grant of a name that fits, with a slot free, adds its pair** unless it is there. -/
theorem map_key_grantPermission (hperms : Terminated perms) (hroom : perms.count < maxPerms)
    {app : Bytes} (happ : (cstr app).length ≤ 63) (type : ℕ) :
    (grantPermission now perms app type).live.map Permission.key =
      if (cstr app, type) ∈ perms.live.map Permission.key then perms.live.map Permission.key
      else perms.live.map Permission.key ++ [(cstr app, type)] := by
  rw [grantPermission, find?_isFor]
  cases hfind : perms.find? fun p ↦ p.key = (cstr app, type) with
  | some i =>
    obtain ⟨-, p, -, -, -, hlook⟩ := PackedTable.exists_lookup_of_find? hfind
    rw [if_pos (by_contra fun h ↦ by
      rw [PackedTable.lookup_eq_none_iff.2 h] at hlook
      cases hlook)]
    exact PackedTable.map_key_modify fun _ ↦ rfl
  | none =>
    rw [if_neg (PackedTable.lookup_eq_none_iff.1 (PackedTable.find?_eq_none_iff.1 hfind))]
    dsimp only
    rw [dif_pos hroom, PackedTable.modify_append, PackedTable.live_append, List.map_append,
      List.map_singleton]
    congr 2
    refine (key_namePerm (hperms.nextSlot hroom)).trans ?_
    rw [List.take_of_length_le happ]
    rfl

/-- **A denial** leaves its own pair without a grant. -/
theorem answer_denyPermission_self (perms : Perms) (app : Bytes) (type : ℕ) :
    answer (denyPermission perms app type) (cstr app, type) ≠ .granted := by
  rw [denyPermission, find?_isFor]
  cases hfind : perms.find? fun p ↦ p.key = (cstr app, type) with
  | some i =>
    have hdenied := answer_modify (fun p ↦ { p with status := .denied }) .denied hfind
      (fun _ ↦ rfl) (fun _ ↦ rfl) (cstr app, type)
    rw [if_pos rfl] at hdenied
    rw [hdenied]
    rintro ⟨⟩
  | none =>
    rw [answer, PackedTable.find?_eq_none_iff.1 hfind]
    rintro ⟨⟩

/-! ### The table implements the map -/

/-- The table agrees with the requests that were handled. -/
structure Implements (reqs : Requests) (perms : Perms) : Prop where
  /-- The names are terminated. -/
  terminated : Terminated perms
  /-- No two entries are for the same pair. -/
  keysNodup : perms.KeysNodup Permission.key
  /-- The pairs in the table are those ever stored. -/
  mem_keys : ∀ k, k ∈ perms.live.map Permission.key ↔ k ∈ storedKeys reqs
  /-- The granted pairs are those that the map grants. -/
  granted : ∀ k, answer perms k = .granted ↔ latestGrant reqs k = true

theorem Implements.count_eq (h : Implements reqs perms) :
    perms.count = (storedKeys reqs).card := by
  have hkeys : (perms.live.map Permission.key).toFinset = storedKeys reqs :=
    Finset.ext fun k ↦ by rw [List.mem_toFinset, h.mem_keys]
  rw [← hkeys, List.toFinset_card_of_nodup h.keysNodup, List.length_map, PackedTable.length_live]

theorem GrantsAll.implements (h : GrantsAll perms defaultKeys) : Implements [] perms := by
  refine ⟨h.terminated, ?_, fun k ↦ ?_, fun k ↦ ?_⟩
  · rw [PackedTable.KeysNodup, h.keys]
    decide
  · rw [h.keys, storedKeys, List.mem_toFinset]
    exact Iff.of_eq (congrArg (k ∈ ·) (List.append_nil _).symm)
  · rw [answer, latestGrant, List.reverse_nil, List.find?_nil]
    show _ ↔ decide (k ∈ defaultKeys) = true
    rw [decide_eq_true_iff, ← h.keys]
    cases hlook : perms.lookup Permission.key k with
    | none => exact iff_of_false (by rintro ⟨⟩) (PackedTable.lookup_eq_none_iff.1 hlook)
    | some p =>
      refine iff_of_true (h.granted p (List.mem_of_find?_eq_some hlook)) ?_
      by_contra hk
      rw [PackedTable.lookup_eq_none_iff.2 hk] at hlook
      cases hlook

/-- A request that neither grants nor denies leaves the answers and the pairs as they were. -/
theorem handlePermsRequest_other (hgrant : req.op ≠ permGrant) (hdeny : req.op ≠ permDeny) :
    (∀ k, answer (handlePermsRequest now perms req).1 k = answer perms k) ∧
      (handlePermsRequest now perms req).1.live.map Permission.key =
        perms.live.map Permission.key := by
  by_cases hcheck : req.op = permCheck
  · rw [handlePermsRequest, hcheck]
    exact ⟨answer_checkPermission perms _ _, map_key_checkPermission perms _ _⟩
  · rw [handlePermsRequest]
    split
    · contradiction
    · contradiction
    · contradiction
    · exact ⟨fun _ ↦ rfl, rfl⟩

/-- **The pairs in the table** after a request. -/
theorem map_key_handlePermsRequest (hperms : Terminated perms) (hroom : perms.count < maxPerms)
    (hreq : req.NameTerminated) (now : ℤ) :
    (handlePermsRequest now perms req).1.live.map Permission.key =
      if req.op = permGrant ∧ req.key ∉ perms.live.map Permission.key then
        perms.live.map Permission.key ++ [req.key]
      else perms.live.map Permission.key := by
  by_cases hgrant : req.op = permGrant
  · rw [handlePermsRequest_grant hgrant, map_key_grantPermission hperms hroom hreq.length_le,
      show (cstr req.app, req.type) = req.key from rfl]
    by_cases hmem : req.key ∈ perms.live.map Permission.key
    · rw [if_pos hmem, if_neg fun h ↦ h.2 hmem]
    · rw [if_neg hmem, if_pos ⟨hgrant, hmem⟩]
  · rw [if_neg fun h ↦ hgrant h.1]
    by_cases hdeny : req.op = permDeny
    · rw [handlePermsRequest_deny hdeny, map_key_denyPermission]
    · exact (handlePermsRequest_other hgrant hdeny).2

/-- **What is granted** after a request. -/
theorem granted_handlePermsRequest (hperms : Terminated perms) (hroom : perms.count < maxPerms)
    (hreq : req.NameTerminated) (now : ℤ) (k : Bytes × ℕ) :
    answer (handlePermsRequest now perms req).1 k = .granted ↔
      if Decides k req then req.op = permGrant else answer perms k = .granted := by
  by_cases hgrant : req.op = permGrant
  · rw [handlePermsRequest_grant hgrant]
    split_ifs with h
    · refine iff_of_true ?_ hgrant
      rw [← h.2]
      exact (answer_grantPermission_self hperms).2 (Or.inr ⟨hroom, hreq.length_le⟩)
    · have hk : k ≠ req.key := fun hk ↦ h ⟨Or.inl hgrant, hk.symm⟩
      rw [answer_grantPermission_other hperms (Or.inr ⟨hroom, hreq.length_le⟩) hk]
  by_cases hdeny : req.op = permDeny
  · rw [handlePermsRequest_deny hdeny]
    split_ifs with h
    · rw [← h.2]
      exact iff_of_false (answer_denyPermission_self perms _ _) hgrant
    · have hk : k ≠ req.key := fun hk ↦ h ⟨Or.inr hdeny, hk.symm⟩
      rw [answer_denyPermission hk]
  · rw [if_neg fun h ↦ h.1.elim hgrant hdeny, (handlePermsRequest_other hgrant hdeny).1 k]

/-- **A request keeps the table in step with the history.** -/
theorem implements_handlePermsRequest (h : Implements reqs perms)
    (hroom : (storedKeys reqs).card < maxPerms) {l : ℤ × PermRequest} (hl : l.2.NameTerminated) :
    Implements (reqs ++ [l]) (handlePermsRequest l.1 perms l.2).1 := by
  rw [← h.count_eq] at hroom
  have hkeys := map_key_handlePermsRequest h.terminated hroom hl l.1
  refine ⟨terminated_handlePermsRequest h.terminated l.1 l.2, ?_, fun k ↦ ?_, fun k ↦ ?_⟩
  · rw [PackedTable.KeysNodup, hkeys]
    split_ifs with hnew
    · refine List.Nodup.append h.keysNodup (List.nodup_singleton _) fun a ha hb ↦ ?_
      rw [List.mem_singleton.1 hb] at ha
      exact hnew.2 ha
    · exact h.keysNodup
  · rw [hkeys, mem_storedKeys_append, ← h.mem_keys]
    split_ifs with hnew
    · rw [List.mem_append, List.mem_singleton, and_iff_right hnew.1]
    · refine (or_iff_left_of_imp ?_).symm
      rintro ⟨hop, rfl⟩
      by_contra hmem
      exact hnew ⟨hop, hmem⟩
  · rw [granted_handlePermsRequest h.terminated hroom hl, latestGrant_append]
    split_ifs
    · exact decide_eq_true_iff.symm
    · exact h.granted k

/-- **In every run** the table implements the map of the requests handled. -/
theorem implements_of_run (hnames : ∀ l ∈ reqs, l.2.NameTerminated)
    (hroom : (storedKeys reqs).card < maxPerms)
    (hrun : daemon.run (loadDefaults now) reqs = some perms) : Implements reqs perms := by
  refine Machine.invariant_of_history
    (I := fun hist perms ↦ (∀ l ∈ hist, l.2.NameTerminated) →
      (storedKeys hist).card < maxPerms → Implements hist perms)
    (fun hist perms l perms' ih hstep hnames hroom ↦ ?_)
    (fun _ _ ↦ (grantsAll_loadDefaults now).implements) hrun hnames hroom
  obtain rfl := Option.some.inj hstep
  -- the requests before this one stored no more
  have hfewer : (storedKeys hist).card < maxPerms :=
    lt_of_le_of_lt (Finset.card_le_card fun k hk ↦ mem_storedKeys_append.2 (Or.inl hk)) hroom
  exact implements_handlePermsRequest
    (ih (fun l hl ↦ hnames l (List.mem_append_left _ hl)) hfewer) hfewer
    (hnames l (List.mem_append_right _ (List.mem_singleton_self l)))

/-- **The permission store is a map.** With terminated names and fewer than 512 pairs ever stored,
no two entries are for the same pair, and a check is answered with `granted = 1` exactly if the most
recent grant or denial of its pair granted it, or the default table where there was none. -/
theorem permission_store_is_map (reqs : Requests) (hnames : ∀ l ∈ reqs, l.2.NameTerminated)
    (hroom : (storedKeys reqs).card < maxPerms) (now : ℤ) :
    ∃ perms, daemon.run (loadDefaults now) reqs = some perms ∧
      (perms.live.map Permission.key).Nodup ∧
      ∀ now' chk, chk.op = permCheck → chk.NameTerminated →
        ((handlePermsRequest now' perms chk).2.granted = 1 ↔ latestGrant reqs chk.key = true) := by
  obtain ⟨perms, hrun⟩ := daemon.exists_run_of_total (fun _ _ ↦ ⟨_, rfl⟩) (loadDefaults now) reqs
  have himp := implements_of_run hnames hroom hrun
  refine ⟨perms, hrun, himp.keysNodup, fun now' chk hop _ ↦ ?_⟩
  rw [granted_check hop, ← himp.granted]
  show (if _ then 1 else 0) = 1 ↔ _
  split_ifs with h
  · exact iff_of_true rfl h
  · exact iff_of_false not_false h

/-! ### A denial and a second grant -/

/-- A request about permission 1 of an application whose field holds these bytes. -/
def PermRequest.ofNetwork (op : ℕ) (app : Bytes) (h : app.length = 64) : PermRequest where
  bytes := Bytes.le 4 op ++ app ++ Bytes.le 4 permNetwork
  length_bytes := by
    rw [List.length_append, List.length_append, Bytes.length_le, Bytes.length_le, h]
    rfl

/-- A request about the application `a`. -/
abbrev PermRequest.ofLetter (op : ℕ) : PermRequest := .ofNetwork op (Bytes.ljust 64 0 [97]) rfl

/-- A request about the application `WiFi`, which the default table grants. -/
abbrev PermRequest.ofWiFi (op : ℕ) : PermRequest :=
  .ofNetwork op (Bytes.ljust 64 0 (Bytes.ofAscii "WiFi")) rfl

/-- `a` is granted, denied and granted again, `WiFi` is denied. -/
theorem permission_store_regrant :
    ∃ perms, daemon.run (loadDefaults 0) [(1, .ofLetter permGrant), (2, .ofLetter permDeny),
        (3, .ofWiFi permDeny), (4, .ofLetter permGrant)] = some perms ∧
      (perms.live.map Permission.key).Nodup ∧
      (handlePermsRequest 5 perms (.ofLetter permCheck)).2.granted = 1 ∧
      (handlePermsRequest 5 perms (.ofWiFi permCheck)).2.granted ≠ 1 := by
  obtain ⟨perms, hrun, hnodup, hanswers⟩ := permission_store_is_map
    [(1, .ofLetter permGrant), (2, .ofLetter permDeny), (3, .ofWiFi permDeny),
      (4, .ofLetter permGrant)] (by decide +kernel) (by decide +kernel) 0
  refine ⟨perms, hrun, hnodup, (hanswers 5 _ ?_ ?_).2 ?_, mt (hanswers 5 _ ?_ ?_).1 ?_⟩ <;>
    decide +kernel

end JuliusOS.Permissions
