import JuliusOS.Foundations.Inet
import JuliusOS.Foundations.Machine
import JuliusOS.Foundations.PackedTable

/-!
# The DNS cache of julius_net

`dns_lookup` looks for the host in a table of 256 entries, asks the resolver if there is no entry
that is young enough, and appends the answer if there is room. An entry is never removed or
renewed: an expired one stays, and the next answer for its host takes another slot. What is
returned for a fresh answer is not the answer but the *last slot*, and once the table is full the
last slot is some earlier answer, for whatever host it was.

The machine's label is one call, with everything its environment does: the readings of the
clock, and what the resolver would say. The state keeps the calls made so far, which the program
does not know, so that a result can be compared with what the resolver said.

* `RightCall` is what a call is for: what it returns was said for that host, now or less than
  300 seconds ago;
* `Usable` is the condition on a call: the cache answers, or the resolver fails, or there is
  room, or the last slot happens to hold a right answer;
* `right_iff` says that all calls of a run are right exactly if all of them are usable.
-/

open Bytes CString Inet

namespace JuliusOS.Net

/-! ### The program -/

/-- `DNSCacheEntry`. -/
structure DNSCacheEntry where
  hostname : Buf 256
  ip : Buf 16
  cachedAt : ℤ
  ttl : ℤ

/-- `dns_cache` and `dns_count`. -/
abbrev DNSCache := PackedTable DNSCacheEntry 256

/-- They are zero at first. -/
def dnsCache : DNSCache := .empty ⟨.zero 256, .zero 16, 0, 0⟩

/-- A call of `dns_lookup`. -/
structure Lookup where
  /-- The host's name. -/
  hostname : Bytes
  hostname_free : (0 : UInt8) ∉ hostname
  hostname_le : hostname.length ≤ 255
  /-- What `time` returns where slot `i` is looked at. -/
  clock : ℕ → ℤ
  clock_mono : ∀ i j, i ≤ j → clock i ≤ clock j
  /-- What the resolver says if it is asked. -/
  resolver : Option InAddr
  /-- What `time` returns where the answer is stored. -/
  stored : ℤ
  clock_le : ∀ i, clock i ≤ stored

/-- The loop over the cache: the first entry of the host that is young enough. -/
def checkCache (l : Lookup) : ℕ → List DNSCacheEntry → Option DNSCacheEntry
  | _, [] => none
  | i, e :: es =>
    if strcmpEq e.hostname.bytes l.hostname && l.clock i - e.cachedAt < e.ttl then some e
    else checkCache l (i + 1) es

/-- The entry of an answer, in a slot of the array. -/
def DNSCacheEntry.fill (l : Lookup) (addr : InAddr) (e : DNSCacheEntry) : DNSCacheEntry where
  hostname := e.hostname.strncpy l.hostname 255 Buf.le_256
  ip := e.ip.strncpy addr.text 15 Buf.le_16
  cachedAt := l.stored
  ttl := 300

/-- `dns_cache[dns_count-1].ip`. -/
def lastIp (cache : DNSCache) : Bytes := cache.live.getLast?.elim [] fun e ↦ cstr e.ip.bytes

/-- `dns_lookup`: the cache afterwards, and the text that is returned. -/
def dnsLookup (l : Lookup) (cache : DNSCache) : DNSCache × Option Bytes :=
  match checkCache l 0 cache.live with
  | some e => (cache, some (cstr e.ip.bytes))
  | none =>
    match l.resolver with
    | none => (cache, none)
    | some addr =>
      let cache := if h : cache.count < 256 then cache.append h (.fill l addr) else cache
      (cache, some (lastIp cache))

/-! ### Calls -/

/-- A call that was made. -/
structure Call where
  hostname : Bytes
  /-- When it began. -/
  start : ℤ
  /-- When it could store an answer. -/
  stored : ℤ
  /-- What the resolver said, if it was asked and did not fail. -/
  answer : Option InAddr
  /-- What was returned. -/
  result : Option Bytes
deriving DecidableEq

/-- The program and the calls so far, the last one first. -/
structure DNSState where
  cache : DNSCache
  calls : List Call
  /-- The last reading of the clock. -/
  now : ℤ

/-- The call that a lookup is. -/
def Lookup.call (l : Lookup) (cache : DNSCache) : Call where
  hostname := l.hostname
  start := l.clock 0
  stored := l.stored
  answer := if (checkCache l 0 cache.live).isSome then none else l.resolver
  result := (dnsLookup l cache).2

/-- The lookups, on a clock that does not go back. -/
def dns : Machine DNSState Lookup where
  Init s := s.cache = dnsCache ∧ s.calls = []
  step s l :=
    if s.now ≤ l.clock 0 then
      some ⟨(dnsLookup l s.cache).1, l.call s.cache :: s.calls, l.stored⟩
    else none

/-- The resolver said so for the host less than 300 seconds before. -/
def AnsweredBefore (hostname text : Bytes) (start : ℤ) (earlier : List Call) : Prop :=
  ∃ c ∈ earlier, c.hostname = hostname ∧ (∃ addr, c.answer = some addr ∧ addr.text = text) ∧
    start - c.stored < 300

/-- **What a call is for**: an address that is returned is one that the resolver has said for
the host, in this call or less than 300 seconds before. -/
def RightCall (c : Call) (earlier : List Call) : Prop :=
  ∀ text, c.result = some text → (∃ addr, c.answer = some addr ∧ addr.text = text) ∨
    AnsweredBefore c.hostname text c.start earlier

/-- All calls were right. -/
def Right : List Call → Prop
  | [] => True
  | c :: earlier => RightCall c earlier ∧ Right earlier

/-- The condition on a call: the cache answers, or the resolver fails, or there is room for its
answer, or the last slot holds the answer or one given to the same host lately. -/
def Usable (s : DNSState) (l : Lookup) : Prop :=
  (checkCache l 0 s.cache.live).isSome = true ∨ l.resolver = none ∨ s.cache.count < 256 ∨
    (∃ addr, l.resolver = some addr ∧ addr.text = lastIp s.cache) ∨
      AnsweredBefore l.hostname (lastIp s.cache) (l.clock 0) s.calls

/-! ### Entries and answers -/

variable {l : Lookup} {s s' : DNSState} {cache : DNSCache} {addr : InAddr} {e : DNSCacheEntry}
  {calls : List Call}

/-- What holds of every slot: its texts end inside their fields. -/
def DNSCacheEntry.Terminated (e : DNSCacheEntry) : Prop :=
  LastZero e.hostname.bytes ∧ LastZero e.ip.bytes

theorem DNSCacheEntry.Terminated.fill (h : e.Terminated) (l : Lookup) (addr : InAddr) :
    (e.fill l addr).Terminated :=
  ⟨lastZero_strncpy e.hostname.length_bytes h.1, lastZero_strncpy e.ip.length_bytes h.2⟩

/-- An entry holds the host and the answer whole. -/
theorem DNSCacheEntry.Terminated.cstr_fill (h : e.Terminated) (l : Lookup) (addr : InAddr) :
    cstr (e.fill l addr).hostname.bytes = l.hostname ∧
      cstr (e.fill l addr).ip.bytes = addr.text := by
  have hhost := cstr_eq_self l.hostname_free
  have htext := cstr_eq_self addr.zero_notMem_text
  have hname : cstr (strncpy e.hostname.bytes l.hostname 255) = cstr l.hostname :=
    cstr_strncpy_of_le e.hostname.length_bytes h.1 (by rw [hhost]; exact l.hostname_le)
  have hip : cstr (strncpy e.ip.bytes addr.text 15) = cstr addr.text :=
    cstr_strncpy_of_le e.ip.length_bytes h.2 (by rw [htext]; exact addr.length_text_le)
  exact ⟨hname.trans hhost, hip.trans htext⟩

/-- An entry stands for an answer that was given. -/
def DNSCacheEntry.From (e : DNSCacheEntry) (calls : List Call) : Prop :=
  e.ttl = 300 ∧ ∃ c ∈ calls, c.hostname = cstr e.hostname.bytes ∧
    (∃ addr, c.answer = some addr ∧ addr.text = cstr e.ip.bytes) ∧ c.stored = e.cachedAt

/-- The invariant of the lookups. -/
structure DNSState.Sound (s : DNSState) : Prop where
  terminated : s.cache.AllSlots DNSCacheEntry.Terminated
  answered : ∀ e ∈ s.cache.live, e.From s.calls

/-- **An entry that the loop returns** is the host's and young enough. -/
theorem checkCache_eq_some {i : ℕ} {es : List DNSCacheEntry}
    (h : checkCache l i es = some e) :
    e ∈ es ∧ cstr e.hostname.bytes = l.hostname ∧ l.clock 0 - e.cachedAt < e.ttl := by
  induction es generalizing i with
  | nil => cases h
  | cons e' es ih =>
    rw [checkCache] at h
    split at h
    next hfound =>
      obtain rfl := Option.some.inj h
      rw [Bool.and_eq_true, strcmpEq_iff, cstr_eq_self l.hostname_free, decide_eq_true_eq] at hfound
      have hmono := l.clock_mono 0 i (Nat.zero_le i)
      exact ⟨List.mem_cons_self .., hfound.1, by omega⟩
    next =>
      obtain ⟨hmem, hrest⟩ := ih h
      exact ⟨List.mem_cons_of_mem _ hmem, hrest⟩

/-! ### A call -/

/-- An answer for which there is room is stored, and returned from its entry. -/
theorem dnsLookup_of_room (h : cache.count < 256) (hcheck : checkCache l 0 cache.live = none)
    (hres : l.resolver = some addr) :
    dnsLookup l cache = (cache.append h (.fill l addr),
      some (cstr ((cache.nextSlot h).fill l addr).ip.bytes)) := by
  simp only [dnsLookup, hcheck, hres, dif_pos h, lastIp, PackedTable.live_append,
    List.getLast?_concat, Option.elim_some]

/-- In place of one for which there is none the last slot is returned. -/
theorem dnsLookup_of_full (h : ¬ cache.count < 256) (hcheck : checkCache l 0 cache.live = none)
    (hres : l.resolver = some addr) : dnsLookup l cache = (cache, some (lastIp cache)) := by
  simp only [dnsLookup, hcheck, hres, dif_neg h]

/-- **What a call does**: the cache answers, or the resolver fails, or there is room for its
answer, or there is none. -/
theorem dnsLookup_cases (l : Lookup) (cache : DNSCache) :
    (∃ e, checkCache l 0 cache.live = some e ∧
      dnsLookup l cache = (cache, some (cstr e.ip.bytes))) ∨
    (checkCache l 0 cache.live = none ∧ l.resolver = none ∧ dnsLookup l cache = (cache, none)) ∨
    (∃ addr, ∃ h : cache.count < 256, checkCache l 0 cache.live = none ∧ l.resolver = some addr ∧
      dnsLookup l cache = (cache.append h (.fill l addr),
        some (cstr ((cache.nextSlot h).fill l addr).ip.bytes))) ∨
    ∃ addr, ¬ cache.count < 256 ∧ checkCache l 0 cache.live = none ∧ l.resolver = some addr ∧
      dnsLookup l cache = (cache, some (lastIp cache)) := by
  cases hcheck : checkCache l 0 cache.live with
  | some e => exact Or.inl ⟨e, rfl, by simp only [dnsLookup, hcheck]⟩
  | none =>
    cases hres : l.resolver with
    | none => exact Or.inr (Or.inl ⟨rfl, rfl, by simp only [dnsLookup, hcheck, hres]⟩)
    | some addr =>
      by_cases h : cache.count < 256
      · exact Or.inr (Or.inr (Or.inl ⟨addr, h, rfl, rfl, dnsLookup_of_room h hcheck hres⟩))
      · exact Or.inr (Or.inr (Or.inr ⟨addr, h, rfl, rfl, dnsLookup_of_full h hcheck hres⟩))

theorem DNSCacheEntry.From.cons (h : e.From calls) (c : Call) : e.From (c :: calls) := by
  obtain ⟨httl, c', hc', hrest⟩ := h
  exact ⟨httl, c', List.mem_cons_of_mem c hc', hrest⟩

/-- A call that asks the resolver has its answer. -/
theorem answer_call (hcheck : checkCache l 0 cache.live = none) :
    (l.call cache).answer = l.resolver := by
  simp only [Lookup.call, hcheck]
  rfl

theorem dns_step_eq (h : dns.step s l = some s') :
    s' = ⟨(dnsLookup l s.cache).1, l.call s.cache :: s.calls, l.stored⟩ := by
  rw [dns] at h
  dsimp only at h
  split at h
  · exact (Option.some.inj h).symm
  · cases h

theorem DNSState.Sound.live_from (hs : s.Sound) (c : Call) :
    ∀ e ∈ s.cache.live, e.From (c :: s.calls) := fun e he ↦ (hs.answered e he).cons c

/-- An answer from the cache is right: its entry stands for one that is young enough. -/
theorem DNSState.Sound.rightCall_of_cached (hs : s.Sound)
    (hcheck : checkCache l 0 s.cache.live = some e)
    (heq : dnsLookup l s.cache = (s.cache, some (cstr e.ip.bytes))) :
    RightCall (l.call s.cache) s.calls := by
  intro text htext
  rw [Lookup.call, heq] at htext
  obtain rfl := Option.some.inj htext
  obtain ⟨hmem, hhost, hyoung⟩ := checkCache_eq_some hcheck
  obtain ⟨httl, c, hc, hname, hanswer, hstored⟩ := hs.answered e hmem
  rw [httl, ← hstored] at hyoung
  exact Or.inr ⟨c, hc, hname.trans hhost, hanswer, hyoung⟩

/-- An answer that is stored keeps the invariant. -/
theorem DNSState.Sound.append (hs : s.Sound) (hroom : s.cache.count < 256)
    (hcheck : checkCache l 0 s.cache.live = none) (hres : l.resolver = some addr) (now : ℤ) :
    DNSState.Sound ⟨s.cache.append hroom (.fill l addr), l.call s.cache :: s.calls, now⟩ := by
  refine ⟨hs.terminated.append fun e he ↦ he.fill l addr, fun e he ↦ ?_⟩
  obtain ⟨hname, hip⟩ := (hs.terminated.nextSlot hroom).cstr_fill l addr
  rcases PackedTable.mem_live_append.1 he with he | rfl
  · exact hs.live_from _ e he
  · refine ⟨rfl, l.call s.cache, List.mem_cons_self .., hname.symm, ⟨addr, ?_, hip.symm⟩, rfl⟩
    rw [answer_call hcheck, hres]

/-- **A call keeps the invariant**, and it is right exactly if it is usable. -/
theorem DNSState.Sound.step (hs : s.Sound) (h : dns.step s l = some s') :
    s'.Sound ∧ s'.calls = l.call s.cache :: s.calls ∧
      (Usable s l ↔ RightCall (l.call s.cache) s.calls) := by
  obtain rfl := dns_step_eq h
  rcases dnsLookup_cases l s.cache with ⟨e, hcheck, heq⟩ | ⟨hcheck, hres, heq⟩ |
    ⟨addr, hroom, hcheck, hres, heq⟩ | ⟨addr, hfull, hcheck, hres, heq⟩
  · refine ⟨by rw [heq]; exact ⟨hs.terminated, hs.live_from _⟩, rfl, ?_⟩
    exact iff_of_true (Or.inl (by rw [hcheck]; rfl)) (hs.rightCall_of_cached hcheck heq)
  · refine ⟨by rw [heq]; exact ⟨hs.terminated, hs.live_from _⟩, rfl,
      iff_of_true (Or.inr (Or.inl hres)) ?_⟩
    intro text htext
    rw [Lookup.call, heq] at htext
    cases htext
  · refine ⟨by rw [heq]; exact hs.append hroom hcheck hres l.stored, rfl,
      iff_of_true (Or.inr (Or.inr (Or.inl hroom))) ?_⟩
    intro text htext
    rw [Lookup.call, heq, ((hs.terminated.nextSlot hroom).cstr_fill l addr).2] at htext
    obtain rfl := Option.some.inj htext
    exact Or.inl ⟨addr, (answer_call hcheck).trans hres, rfl⟩
  · refine ⟨by rw [heq]; exact ⟨hs.terminated, hs.live_from _⟩, rfl, ?_⟩
    have hresult : (l.call s.cache).result = some (lastIp s.cache) := by rw [Lookup.call, heq]
    simp only [Usable, hcheck, hres, hfull, RightCall, answer_call hcheck, hresult,
      Option.some.injEq, forall_eq', Option.isSome_none, Bool.false_eq_true, reduceCtorEq, false_or]
    rfl

theorem sound_of_init (h : dns.Init s) : s.Sound := by
  obtain ⟨hcache, -⟩ := h
  refine ⟨?_, ?_⟩
  · rw [hcache]
    exact PackedTable.allSlots_empty
      ⟨lastZero_replicate (by decide), lastZero_replicate (by decide)⟩
  · rw [hcache]
    exact List.forall_mem_nil _

/-- **The exact condition for right answers.** In every run from the start, all calls so far are
right in every state that is reached, if and only if every call is usable: the cache answers, or
the resolver fails, or fewer than 256 answers are stored, or the last slot happens to hold the
answer or one that the resolver gave to the same host less than 300 seconds before. -/
theorem right_iff (s t : DNSState) (ls : List Lookup) (hinit : dns.Init s)
    (hrun : dns.run s ls = some t) :
    dns.Guarded Usable s ls ↔ ∀ n u, dns.run s (ls.take n) = some u → Right u.calls := by
  refine Machine.guarded_iff_forall_take (J := DNSState.Sound) (I := fun u ↦ Right u.calls) ?_
    (sound_of_init hinit) ?_ hrun
  · intro u l u' hu hright hstep
    obtain ⟨hu', hcalls, hiff⟩ := hu.step hstep
    refine ⟨hu', hiff.trans ?_⟩
    rw [hcalls, Right]
    exact (and_iff_left hright).symm
  · show Right s.calls
    rw [hinit.2]
    trivial

/-! ### A table that fills up -/

theorem a_ne_zero : (97 : UInt8) ≠ 0 := by decide

theorem b_ne_zero : (98 : UInt8) ≠ 0 := by decide

theorem zero_notMem_singleton {b : UInt8} (hb : b ≠ 0) : (0 : UInt8) ∉ [b] :=
  fun h ↦ hb (List.mem_singleton.1 h).symm

/-- A lookup of a host with a name of one character, all at one time. -/
def lookupAt (b : UInt8) (hb : b ≠ 0) (addr : InAddr) (time : ℤ) : Lookup where
  hostname := [b]
  hostname_free := zero_notMem_singleton hb
  hostname_le := Nat.succ_le_succ (Nat.zero_le 254)
  clock _ := time
  clock_mono _ _ _ := le_rfl
  resolver := some addr
  stored := time
  clock_le _ := le_rfl

/-- The program as it starts. -/
def dnsStart : DNSState := ⟨dnsCache, [], 0⟩

theorem right_first_lookup :
    ∃ t, dns.run dnsStart [lookupAt 97 a_ne_zero ⟨1, 1, 1, 1⟩ 0] = some t ∧ Right t.calls := by
  obtain ⟨t, hrun⟩ : ∃ t, dns.run dnsStart [lookupAt 97 a_ne_zero ⟨1, 1, 1, 1⟩ 0] = some t :=
    ⟨_, rfl⟩
  refine ⟨t, hrun, (right_iff dnsStart t _ ⟨rfl, rfl⟩ hrun).1 ⟨?_, fun _ _ ↦ trivial⟩ 1 t hrun⟩
  exact Or.inr (Or.inr (Or.inl (by decide)))

/-- Entries that have expired, or belong to other hosts, are passed over. -/
theorem checkCache_eq_none {i : ℕ} {es : List DNSCacheEntry}
    (h : ∀ e ∈ es, cstr e.hostname.bytes ≠ l.hostname ∨ e.ttl ≤ l.clock 0 - e.cachedAt) :
    checkCache l i es = none := by
  induction es generalizing i with
  | nil => rfl
  | cons e es ih =>
    have hmono := l.clock_mono 0 i (Nat.zero_le i)
    have hnot : ¬ (strcmpEq e.hostname.bytes l.hostname &&
        decide (l.clock i - e.cachedAt < e.ttl)) = true := by
      rw [Bool.and_eq_true, strcmpEq_iff, cstr_eq_self l.hostname_free, decide_eq_true_eq]
      rintro ⟨hname, hyoung⟩
      rcases h e (List.mem_cons_self ..) with hne | hold
      · exact hne hname
      · omega
    rw [checkCache, if_neg hnot]
    exact ih fun e' he' ↦ h e' (List.mem_cons_of_mem _ he')

/-- One host, looked up every 300 seconds. -/
def everyFiveMinutes (n : ℕ) : List Lookup :=
  (List.range n).map fun k : ℕ ↦ lookupAt 97 a_ne_zero ⟨1, 1, 1, 1⟩ (300 * k)

/-- After `n` such lookups `n` entries are stored, all of them expired. -/
structure Filled (n : ℕ) (t : DNSState) : Prop where
  terminated : t.cache.AllSlots DNSCacheEntry.Terminated
  count : t.cache.count = n
  expired : ∀ e ∈ t.cache.live, e.ttl ≤ 300 * n - e.cachedAt
  ip : ∀ e ∈ t.cache.live, cstr e.ip.bytes = InAddr.text ⟨1, 1, 1, 1⟩
  calls : ∀ c ∈ t.calls, c.hostname = [97]
  now : t.now ≤ 300 * n

theorem exists_filled {n : ℕ} (hn : n ≤ 256) :
    ∃ t, dns.run dnsStart (everyFiveMinutes n) = some t ∧ Filled n t := by
  induction n with
  | zero =>
    refine ⟨dnsStart, rfl, ⟨(sound_of_init ⟨rfl, rfl⟩).terminated, rfl, ?_, ?_, ?_, le_rfl⟩⟩ <;>
      exact List.forall_mem_nil _
  | succ n ih =>
    obtain ⟨t, hrun, ht⟩ := ih (by omega)
    set l := lookupAt 97 a_ne_zero ⟨1, 1, 1, 1⟩ (300 * n)
    have hcheck : checkCache l 0 t.cache.live = none :=
      checkCache_eq_none fun e he ↦ Or.inr (ht.expired e he)
    have hroom : t.cache.count < 256 := by rw [ht.count]; omega
    obtain ⟨hname, hip⟩ := (ht.terminated.nextSlot hroom).cstr_fill l ⟨1, 1, 1, 1⟩
    refine ⟨⟨(dnsLookup l t.cache).1, l.call t.cache :: t.calls, l.stored⟩, ?_, ?_⟩
    · rw [everyFiveMinutes, List.range_succ, List.map_append, List.map_singleton]
      exact dns.run_append_singleton.2 ⟨t, hrun, if_pos ht.now⟩
    · rw [dnsLookup_of_room hroom hcheck rfl]
      refine ⟨ht.terminated.append fun e he ↦ he.fill l _, congrArg (· + 1) ht.count, ?_, ?_, ?_,
        ?_⟩
      · intro e he
        rcases PackedTable.mem_live_append.1 he with he | rfl
        · have := ht.expired e he
          push_cast
          omega
        · show (300 : ℤ) ≤ 300 * ((n + 1 : ℕ) : ℤ) - 300 * n
          push_cast
          omega
      · intro e he
        rcases PackedTable.mem_live_append.1 he with he | rfl
        · exact ht.ip e he
        · exact hip
      · intro c hc
        rcases List.mem_cons.1 hc with rfl | hc
        · rfl
        · exact ht.calls c hc
      · show (300 : ℤ) * n ≤ 300 * ((n + 1 : ℕ) : ℤ)
        push_cast
        omega

/-- After 256 lookups of one host, another host is given its address. -/
theorem not_right_full_cache :
    ¬ ∀ n u, dns.run dnsStart
        ((everyFiveMinutes 256 ++ [lookupAt 98 b_ne_zero ⟨2, 2, 2, 2⟩ 76800]).take n) = some u →
      Right u.calls := by
  intro hall
  obtain ⟨t, hrun, ht⟩ := exists_filled (n := 256) le_rfl
  set l := lookupAt 98 b_ne_zero ⟨2, 2, 2, 2⟩ 76800 with hl
  have hcheck : checkCache l 0 t.cache.live = none :=
    checkCache_eq_none fun e he ↦ Or.inr (ht.expired e he)
  have hfull : ¬ t.cache.count < 256 := by rw [ht.count]; decide
  have hlast : lastIp t.cache = InAddr.text ⟨1, 1, 1, 1⟩ := by
    have hlen := t.cache.length_live
    rw [ht.count] at hlen
    have hne : t.cache.live ≠ [] := List.ne_nil_of_length_pos (by omega)
    rw [lastIp, List.getLast?_eq_some_getLast hne]
    exact ht.ip _ (List.getLast_mem hne)
  have hstep : dns.step t l = some ⟨(dnsLookup l t.cache).1, l.call t.cache :: t.calls, 76800⟩ :=
    if_pos ht.now
  have hright := hall (everyFiveMinutes 256 ++ [l]).length _ (by
    rw [List.take_length]
    exact dns.run_append_singleton.2 ⟨t, hrun, hstep⟩)
  rcases hright.1 (InAddr.text ⟨1, 1, 1, 1⟩) (by
      rw [Lookup.call, dnsLookup_of_full hfull hcheck rfl, hlast]) with
    ⟨addr, hanswer, htext⟩ | ⟨c, hc, hname, -⟩
  · simp only [Lookup.call, hcheck] at hanswer
    obtain rfl : ⟨2, 2, 2, 2⟩ = addr := Option.some.inj hanswer
    exact absurd htext (by decide +kernel)
  · have heq : ([97] : Bytes) = [98] := (ht.calls c hc).symm.trans hname
    exact absurd heq (by decide)

end JuliusOS.Net
