import JuliusOS.Foundations.Batches
import JuliusOS.Foundations.Machine
import Mathlib.Data.List.Infix
import Mathlib.Data.Rat.Defs
import Mathlib.Logic.Function.Basic

/-!
# The network map

`src/apps/maps/maps.py` scans the addresses of a network with a thread for each, twenty at a time,
and every thread whose ping is answered adds a host to a list that it shares with the others and
with the threads of other scans: nothing keeps a scan from being started while another one runs.

* `hosts_of_run`: in every order of their steps at most twenty threads of a scan are under way, no
  thread adds its host twice, and when the last scan is over the list has all that it has found;
* `hosts_of_alone`: if no scan is started before the one before it is done, these are the hosts of
  the list, each of them once, and their number is what the app says.

The lock of a scan is left out: the orders that it allows are among those of a run here.
-/

namespace JuliusOS.Apps

namespace NetworkMap

/-- What `detect_type` tells apart. -/
inductive DeviceType
  | router
  | phone
  | computer
  | tv
  | printer
  | device
deriving DecidableEq

/-- `detect_type`; the names of hosts are ASCII. -/
def detectType (hostname : List Char) : DeviceType :=
  let hn := hostname.map Char.toLower
  let has (words : List String) : Bool := words.any fun word ↦ decide (word.toList <:+: hn)
  if has ["router", "gateway"] then .router
  else if has ["phone", "android", "iphone"] then .phone
  else if has ["laptop", "mac", "pc"] then .computer
  else if has ["tv", "smart"] then .tv
  else if has ["printer"] then .printer
  else .device

/-- What a thread finds out about a host. -/
structure Found where
  mac : List Char
  /-- `hostname[:16]`. -/
  hostname : List Char
  type : DeviceType
deriving DecidableEq

/-- A host of the list. -/
structure Host where
  /-- The number of the scan whose thread has added it. -/
  scan : ℕ
  /-- The last part of `ip`. -/
  index : ℕ
  found : Found
  /-- `angle`, in turns. -/
  angle : ℚ
  radius : ℕ
deriving DecidableEq

/-- The thread that has added it. -/
def Host.key (h : Host) : ℕ × ℕ := (h.scan, h.index)

/-- Where a host is placed when the scan is over. -/
def Host.spread (k n : ℕ) (h : Host) : Host :=
  { h with angle := k / max 1 n, radius := if h.found.type = .router then 0 else 80 + k % 3 * 20 }

/-- Where a thread of `ping` stands. -/
inductive Worker
  | pinging
  /-- The host has answered, and `arp` and the name service have been asked. -/
  | answered (f : Found)
  /-- `len(self.hosts)` was read. -/
  | measured (f : Found) (angle : ℚ)
  /-- `self.hosts` was read: the number of the list. -/
  | holds (f : Found) (angle : ℚ) (list : ℕ)
  | done (f : Option Found)
deriving DecidableEq

/-- What it has found. -/
def Worker.result : Worker → Option Found
  | .done f => f
  | _ => none

/-- What comes of `subprocess.run`, and of `get_mac` and `get_hostname`. -/
inductive Ping
  | raises
  | silent
  | answers (mac hostname : List Char)
deriving DecidableEq

/-- Where the thread of a scan stands. -/
inductive Phase
  | pinging
  /-- `self.scanning = False`. -/
  | finished
  /-- `self.status` says how many were found. -/
  | reported
  /-- The loop over a list has come to a host. -/
  | spreading (list k : ℕ)
  | done
deriving DecidableEq

/-- A scan. -/
structure Scan where
  /-- The addresses that are left, and `threads`. -/
  batches : Batches ℕ
  /-- Its threads. -/
  workers : ℕ → Option Worker
  phase : Phase

/-- `range(1, 255)`. -/
def addresses : List ℕ := List.range' 1 254

/-- A scan that is started. -/
def Scan.init : Scan := ⟨.ofJobs addresses, fun _ ↦ none, .pinging⟩

/-- A thread has ended. -/
def Scan.finished (sc : Scan) (i : ℕ) : Bool :=
  match sc.workers i with
  | some (.done _) => true
  | _ => false

end NetworkMap

open NetworkMap

/-- A `NetworkMap`. -/
structure NetworkMap where
  /-- The lists that `self.hosts` has been: one for `__init__`, and one for each scan. -/
  lists : List (List Host)
  scans : List Scan
  scanning : Bool
  progress : ℕ
  status : String

namespace NetworkMap

/-- `__init__`. -/
def init : NetworkMap := ⟨[[]], [], false, 0, "Press S to scan network"⟩

/-- The first three parts of `my_ip`. -/
def base (myIp : String) : String := ".".intercalate ((myIp.splitOn ".").take 3)

/-- What is said at the end. -/
def foundStatus (n : ℕ) : String := "Found " ++ toString n ++ " hosts"

/-- What is done next. -/
inductive Label
  /-- `scan` is called. -/
  | scan
  /-- The next thread of a scan is started. -/
  | start (j : ℕ)
  /-- A scan has joined its threads. -/
  | join (j : ℕ)
  | finish (j : ℕ)
  | report (j : ℕ)
  /-- The loop over the hosts goes on. -/
  | spread (j : ℕ)
  /-- `ping` ends in a thread. -/
  | ping (j i : ℕ) (answer : Ping)
  | measure (j i : ℕ)
  | load (j i : ℕ)
  | append (j i : ℕ)
deriving DecidableEq

variable (s : NetworkMap)

/-- `self.hosts`. -/
def hosts : List Host := s.lists[s.scans.length]?.getD []

/-- Where a thread stands. -/
def worker (j i : ℕ) : Option Worker := s.scans[j]?.bind fun sc ↦ sc.workers i

/-- What a thread has found. -/
def foundBy (j i : ℕ) : Option Found := (s.worker j i).bind Worker.result

/-- `scan`. -/
def scan (myIp : String) : NetworkMap where
  lists := s.lists ++ [[]]
  scans := s.scans ++ [.init]
  scanning := true
  progress := 0
  status := "Scanning " ++ base myIp ++ ".0/24..."

/-- A scan goes on. -/
def setScan (j : ℕ) (sc : Scan) : NetworkMap := { s with scans := s.scans.set j sc }

/-- A thread is somewhere. -/
def Scan.setWorker (sc : Scan) (i : ℕ) (w : Worker) : Scan :=
  { sc with workers := Function.update sc.workers i (some w) }

/-- One round of the loop of a scan that is still pinging. -/
def start (j : ℕ) (sc : Scan) : Option NetworkMap :=
  if sc.phase = .pinging then
    (sc.batches.start 20).map fun x ↦
      s.setScan j ({ sc with batches := x.2 }.setWorker x.1 .pinging)
  else none

/-- `th.join()` for all of `threads`. -/
def join (j : ℕ) (sc : Scan) : Option NetworkMap :=
  if sc.phase = .pinging ∧ sc.batches.batch.all sc.finished = true then
    (sc.batches.join 20).map fun b ↦ s.setScan j { sc with batches := b }
  else none

/-- `self.scanning = False`. -/
def finish (j : ℕ) (sc : Scan) : Option NetworkMap :=
  if sc.phase = .pinging ∧ sc.batches.pending = [] ∧ sc.batches.batch = [] then
    some { s.setScan j { sc with phase := .finished } with scanning := false }
  else none

/-- `self.status` is set. -/
def report (j : ℕ) (sc : Scan) : Option NetworkMap :=
  if sc.phase = .finished then
    some { s.setScan j { sc with phase := .reported } with status := foundStatus s.hosts.length }
  else none

/-- A round of the loop over the hosts. -/
def spread (j : ℕ) (sc : Scan) : Option NetworkMap :=
  match sc.phase with
  | .reported => some (s.setScan j { sc with phase := .spreading s.scans.length 0 })
  | .spreading r k =>
    if k < (s.lists[r]?.getD []).length then
      some { s.setScan j { sc with phase := .spreading r (k + 1) } with
        lists := s.lists.modify r fun l ↦ l.modify k (Host.spread k s.hosts.length) }
    else some (s.setScan j { sc with phase := .done })
  | _ => none

/-- `ping` ends. -/
def ping (j i : ℕ) (sc : Scan) (answer : Ping) : Option NetworkMap :=
  if sc.workers i = some .pinging then
    some (match answer with
      | .raises => s.setScan j (sc.setWorker i (.done none))
      | .silent => { s.setScan j (sc.setWorker i (.done none)) with progress := i }
      | .answers mac hostname =>
        { s.setScan j (sc.setWorker i
            (.answered ⟨mac, hostname.take 16, detectType hostname⟩)) with progress := i })
  else none

/-- The angle is computed. -/
def measure (j i : ℕ) (sc : Scan) : Option NetworkMap :=
  match sc.workers i with
  | some (.answered f) => some (s.setScan j (sc.setWorker i (.measured f (s.hosts.length / 8))))
  | _ => none

/-- `self.hosts` is read. -/
def load (j i : ℕ) (sc : Scan) : Option NetworkMap :=
  match sc.workers i with
  | some (.measured f angle) =>
    some (s.setScan j (sc.setWorker i (.holds f angle s.scans.length)))
  | _ => none

/-- The host that a thread adds. -/
def newHost (j i : ℕ) (f : Found) (angle : ℚ) : Host :=
  ⟨j, i, f, angle, if f.type = .router then 0 else 80⟩

/-- `append`. -/
def append (j i : ℕ) (sc : Scan) : Option NetworkMap :=
  match sc.workers i with
  | some (.holds f angle r) =>
    some { s.setScan j (sc.setWorker i (.done (some f))) with
      lists := s.lists.modify r fun l ↦ l ++ [newHost j i f angle] }
  | _ => none

/-- A step. -/
def step (myIp : String) : Label → Option NetworkMap
  | .scan => some (s.scan myIp)
  | .start j => s.scans[j]?.bind (s.start j)
  | .join j => s.scans[j]?.bind (s.join j)
  | .finish j => s.scans[j]?.bind (s.finish j)
  | .report j => s.scans[j]?.bind (s.report j)
  | .spread j => s.scans[j]?.bind (s.spread j)
  | .ping j i answer => s.scans[j]?.bind fun sc ↦ s.ping j i sc answer
  | .measure j i => s.scans[j]?.bind (s.measure j i)
  | .load j i => s.scans[j]?.bind (s.load j i)
  | .append j i => s.scans[j]?.bind (s.append j i)

/-- The network map as a machine. -/
def networkMap (myIp : String) : Machine NetworkMap Label where
  Init s := s = init
  step s := s.step myIp

variable {s} {t : NetworkMap} {sc sc' : Scan} {i j : ℕ} {myIp : String}

/-! ### What a step can do -/

/-- What a step of a scan, or of one of its threads, does to the scan, to the lists and to the
status. -/
inductive Does (s t : NetworkMap) (j : ℕ) (sc : Scan) : Scan → Prop
  | start {i : ℕ} {b : Batches ℕ} (hphase : sc.phase = .pinging)
      (hstart : sc.batches.start 20 = some (i, b)) (hlists : t.lists = s.lists) :
      Does s t j sc ({ sc with batches := b }.setWorker i .pinging)
  | join {b : Batches ℕ} (hphase : sc.phase = .pinging) (hjoin : sc.batches.join 20 = some b)
      (hall : ∀ i ∈ sc.batches.batch, sc.finished i = true) (hlists : t.lists = s.lists) :
      Does s t j sc { sc with batches := b }
  | finish (hphase : sc.phase = .pinging) (hpending : sc.batches.pending = [])
      (hbatch : sc.batches.batch = []) (hlists : t.lists = s.lists) :
      Does s t j sc { sc with phase := .finished }
  | report (hphase : sc.phase = .finished) (hlists : t.lists = s.lists)
      (hstatus : t.status = foundStatus s.hosts.length) :
      Does s t j sc { sc with phase := .reported }
  | enter (hphase : sc.phase = .reported) (hlists : t.lists = s.lists)
      (hstatus : t.status = s.status) :
      Does s t j sc { sc with phase := .spreading s.scans.length 0 }
  | place {r k : ℕ} (hphase : sc.phase = .spreading r k)
      (hlists : t.lists =
        s.lists.modify r fun l ↦ l.modify k (Host.spread k s.hosts.length))
      (hstatus : t.status = s.status) : Does s t j sc { sc with phase := .spreading r (k + 1) }
  | leave {r k : ℕ} (hphase : sc.phase = .spreading r k)
      (hle : (s.lists[r]?.getD []).length ≤ k) (hlists : t.lists = s.lists)
      (hstatus : t.status = s.status) : Does s t j sc { sc with phase := .done }
  | thread {i : ℕ} {w w' : Worker} (hw : sc.workers i = some w) (hrunning : ∀ f, w ≠ .done f)
      (hresult : w'.result = none) (hholds : ∀ f a r, w' = .holds f a r → r = s.scans.length)
      (hlists : t.lists = s.lists) : Does s t j sc (sc.setWorker i w')
  | append {i r : ℕ} {f : Found} {a : ℚ} (hw : sc.workers i = some (.holds f a r))
      (hlists : t.lists = s.lists.modify r fun l ↦ l ++ [newHost j i f a]) :
      Does s t j sc (sc.setWorker i (.done (some f)))

theorem does_ping {answer : Ping} (h : s.ping j i sc answer = some t) :
    ∃ sc', Does s t j sc sc' ∧ t.scans = s.scans.set j sc' := by
  obtain ⟨hw, ht⟩ := Option.ite_none_right_eq_some.1 h
  obtain rfl := Option.some.inj ht
  have hrunning : ∀ f, Worker.pinging ≠ .done f := fun f hf ↦ by cases hf
  cases answer with
  | raises => exact ⟨_, .thread hw hrunning rfl (fun _ _ _ hf ↦ by cases hf) rfl, rfl⟩
  | silent => exact ⟨_, .thread hw hrunning rfl (fun _ _ _ hf ↦ by cases hf) rfl, rfl⟩
  | answers mac hostname => exact ⟨_, .thread hw hrunning rfl (fun _ _ _ hf ↦ by cases hf) rfl, rfl⟩

theorem does_spread (h : s.spread j sc = some t) :
    ∃ sc', Does s t j sc sc' ∧ t.scans = s.scans.set j sc' := by
  rw [spread] at h
  split at h
  next hphase =>
    obtain rfl := Option.some.inj h
    exact ⟨_, .enter hphase rfl rfl, rfl⟩
  next r k hphase =>
    split at h
    · obtain rfl := Option.some.inj h
      exact ⟨_, .place hphase rfl rfl, rfl⟩
    next hge =>
      obtain rfl := Option.some.inj h
      exact ⟨_, .leave hphase (Nat.le_of_not_lt hge) rfl rfl, rfl⟩
  next => cases h

/-- **What a step can do.** -/
theorem step_cases {l : Label} (h : s.step myIp l = some t) :
    l = .scan ∧ t = s.scan myIp ∨
      ∃ j sc sc', s.scans[j]? = some sc ∧ Does s t j sc sc' ∧ t.scans = s.scans.set j sc' := by
  cases l with
  | scan => exact Or.inl ⟨rfl, (Option.some.inj h).symm⟩
  | start j =>
    obtain ⟨sc, hsc, h⟩ := Option.bind_eq_some_iff.1 h
    obtain ⟨hphase, h⟩ := Option.ite_none_right_eq_some.1 h
    obtain ⟨⟨i, b⟩, hstart, rfl⟩ := Option.map_eq_some_iff.1 h
    exact Or.inr ⟨j, sc, _, hsc, .start hphase hstart rfl, rfl⟩
  | join j =>
    obtain ⟨sc, hsc, h⟩ := Option.bind_eq_some_iff.1 h
    obtain ⟨⟨hphase, hall⟩, h⟩ := Option.ite_none_right_eq_some.1 h
    obtain ⟨b, hjoin, rfl⟩ := Option.map_eq_some_iff.1 h
    exact Or.inr ⟨j, sc, _, hsc, .join hphase hjoin (List.all_eq_true.1 hall) rfl, rfl⟩
  | finish j =>
    obtain ⟨sc, hsc, h⟩ := Option.bind_eq_some_iff.1 h
    obtain ⟨⟨hphase, hpending, hbatch⟩, h⟩ := Option.ite_none_right_eq_some.1 h
    obtain rfl := Option.some.inj h
    exact Or.inr ⟨j, sc, _, hsc, .finish hphase hpending hbatch rfl, rfl⟩
  | report j =>
    obtain ⟨sc, hsc, h⟩ := Option.bind_eq_some_iff.1 h
    obtain ⟨hphase, h⟩ := Option.ite_none_right_eq_some.1 h
    obtain rfl := Option.some.inj h
    exact Or.inr ⟨j, sc, _, hsc, .report hphase rfl rfl, rfl⟩
  | spread j =>
    obtain ⟨sc, hsc, h⟩ := Option.bind_eq_some_iff.1 h
    obtain ⟨sc', hdoes, hscans⟩ := does_spread h
    exact Or.inr ⟨j, sc, sc', hsc, hdoes, hscans⟩
  | ping j i answer =>
    obtain ⟨sc, hsc, h⟩ := Option.bind_eq_some_iff.1 h
    obtain ⟨sc', hdoes, hscans⟩ := does_ping h
    exact Or.inr ⟨j, sc, sc', hsc, hdoes, hscans⟩
  | measure j i =>
    obtain ⟨sc, hsc, h⟩ := Option.bind_eq_some_iff.1 h
    rw [measure] at h
    split at h
    next f hw =>
      obtain rfl := Option.some.inj h
      exact Or.inr ⟨j, sc, _, hsc,
        .thread hw (by simp) rfl (fun _ _ _ hf ↦ by cases hf) rfl, rfl⟩
    next => cases h
  | load j i =>
    obtain ⟨sc, hsc, h⟩ := Option.bind_eq_some_iff.1 h
    rw [load] at h
    split at h
    next f a hw =>
      obtain rfl := Option.some.inj h
      exact Or.inr ⟨j, sc, _, hsc,
        .thread hw (by simp) rfl (fun _ _ _ hf ↦ by cases hf; rfl) rfl, rfl⟩
    next => cases h
  | append j i =>
    obtain ⟨sc, hsc, h⟩ := Option.bind_eq_some_iff.1 h
    rw [append] at h
    split at h
    next f a r hw =>
      obtain rfl := Option.some.inj h
      exact Or.inr ⟨j, sc, _, hsc, .append hw rfl, rfl⟩
    next => cases h

/-! ### A scan -/

/-- What holds of every scan. -/
structure Scan.Inv (sc : Scan) : Prop where
  follows : sc.batches.Follows 20 addresses (fun i ↦ (sc.workers i).isSome = true)
    fun i ↦ sc.finished i = true
  /-- A scan that is over has joined all its threads. -/
  ended : sc.phase ≠ .pinging → sc.batches.pending = [] ∧ sc.batches.batch = []

namespace Scan

theorem finished_iff : sc.finished i = true ↔ ∃ f, sc.workers i = some (.done f) := by
  rw [finished]
  split
  next f hw => exact iff_of_true rfl ⟨f, hw⟩
  next hw => exact iff_of_false Bool.false_ne_true fun ⟨f, hf⟩ ↦ hw f hf

theorem workers_setWorker_self (sc : Scan) (i : ℕ) (w : Worker) :
    (sc.setWorker i w).workers i = some w := Function.update_self ..

theorem workers_setWorker_of_ne {i' : ℕ} (h : i' ≠ i) (w : Worker) :
    (sc.setWorker i w).workers i' = sc.workers i' := Function.update_of_ne h ..

theorem inv_init : Scan.init.Inv where
  follows := Batches.follows_ofJobs fun _ h ↦ Bool.false_ne_true h
  ended h := absurd rfl h

/-- A thread goes on. -/
theorem Inv.setWorker (h : sc.Inv) {w : Worker} (hw : sc.workers i = some w)
    (hrunning : ∀ f, w ≠ .done f) (w' : Worker) : (sc.setWorker i w').Inv where
  follows := by
    refine h.follows.mono (fun i' ↦ ?_) fun i' hi' ↦ ?_
    · rcases eq_or_ne i' i with rfl | hne
      · rw [workers_setWorker_self, hw]
        exact iff_of_true rfl rfl
      · rw [workers_setWorker_of_ne hne]
    · obtain ⟨f, hf⟩ := finished_iff.1 hi'
      have hne : i' ≠ i := by
        rintro rfl
        exact hrunning f (Option.some.inj (hw.symm.trans hf))
      exact finished_iff.2 ⟨f, (workers_setWorker_of_ne hne w').trans hf⟩
  ended := h.ended

/-- A thread is started that was not. -/
theorem Inv.start (h : sc.Inv) {b : Batches ℕ} (hphase : sc.phase = .pinging)
    (hstart : sc.batches.start 20 = some (i, b)) :
    sc.workers i = none ∧ ({ sc with batches := b }.setWorker i .pinging : Scan).Inv := by
  obtain ⟨hnot, hfollows⟩ := h.follows.start (List.nodup_range') hstart
  have hnone : sc.workers i = none := by simpa using hnot
  refine ⟨hnone, ?_, fun hp ↦ absurd hphase hp⟩
  refine hfollows.mono (fun i' ↦ ?_) fun i' hi' ↦ ?_
  · rcases eq_or_ne i' i with rfl | hne
    · rw [workers_setWorker_self]
      exact iff_of_true rfl (Or.inl rfl)
    · rw [workers_setWorker_of_ne hne]
      exact (or_iff_right hne).symm
  · obtain ⟨f, hf⟩ := finished_iff.1 hi'
    have hne : i' ≠ i := by
      rintro rfl
      cases hnone.symm.trans hf
    exact finished_iff.2 ⟨f, (workers_setWorker_of_ne hne _).trans hf⟩

/-- In a scan that is over, every thread has ended. -/
theorem Inv.finished (h : sc.Inv) (hphase : sc.phase ≠ .pinging) {w : Worker}
    (hw : sc.workers i = some w) : ∃ f, w = .done f := by
  obtain ⟨hpending, hbatch⟩ := h.ended hphase
  have hmem : i ∈ addresses := ((h.follows.started i).1 (by rw [hw]; rfl)).1
  obtain ⟨f, hf⟩ := finished_iff.1 (h.follows.finished_of_nil hpending hbatch hmem)
  exact ⟨f, Option.some.inj (hw.symm.trans hf)⟩

end Scan

/-- What a thread has found stays, when another goes on. -/
theorem Scan.result_setWorker {w' : Worker} (hw : (sc.workers i).bind Worker.result = none)
    (hw' : w'.result = none) (i' : ℕ) :
    ((sc.setWorker i w').workers i').bind Worker.result =
      (sc.workers i').bind Worker.result := by
  rcases eq_or_ne i' i with rfl | hne
  · rw [workers_setWorker_self, hw]
    exact hw'
  · rw [workers_setWorker_of_ne hne]

theorem Scan.eq_or_eq_of_workers_setWorker {w w' : Worker} {i' : ℕ}
    (h : (sc.setWorker i w').workers i' = some w) : sc.workers i' = some w ∨ w' = w := by
  rcases eq_or_ne i' i with rfl | hne
  · rw [workers_setWorker_self] at h
    exact Or.inr (Option.some.inj h)
  · rw [workers_setWorker_of_ne hne] at h
    exact Or.inl h

theorem Worker.result_eq_none {w : Worker} (h : ∀ f, w ≠ .done f) : w.result = none := by
  cases w with
  | done f => exact absurd rfl (h f)
  | _ => rfl

/-- The scan that a step leaves. -/
theorem Does.inv (h : Does s t j sc sc') (hinv : sc.Inv) : sc'.Inv := by
  cases h with
  | start hphase hstart _ => exact (hinv.start hphase hstart).2
  | join hphase hjoin hall _ =>
    exact ⟨hinv.follows.join hjoin hall, fun hp ↦ absurd hphase hp⟩
  | finish _ hpending hbatch _ => exact ⟨hinv.follows, fun _ ↦ ⟨hpending, hbatch⟩⟩
  | report hphase _ _ => exact ⟨hinv.follows, fun _ ↦ hinv.ended (by rw [hphase]; simp)⟩
  | enter hphase _ _ | place hphase _ _ | leave hphase _ _ _ =>
    exact ⟨hinv.follows, fun _ ↦ hinv.ended (by rw [hphase]; simp)⟩
  | thread hw hrunning _ _ _ => exact hinv.setWorker hw hrunning _
  | append hw _ => exact hinv.setWorker hw (by simp) _

/-! ### The lists -/

/-- What of a host does not change. -/
def Host.entry (h : Host) : (ℕ × ℕ) × Found := (h.key, h.found)

theorem Host.entry_spread (k n : ℕ) (h : Host) : (h.spread k n).entry = h.entry := rfl

theorem map_modify_eq {α β : Type*} {f : α → β} {g : α → α} (hg : ∀ a, f (g a) = f a) (l : List α)
    (k : ℕ) : (l.modify k g).map f = l.map f := by
  refine List.ext_getElem? fun n ↦ ?_
  rw [List.getElem?_map, List.getElem?_map, List.getElem?_modify]
  split
  · cases l[n]? with
    | none => rfl
    | some a => exact congrArg some (hg a)
  · cases l[n]? <;> rfl

/-- What holds in every state. -/
structure Inv (s : NetworkMap) : Prop where
  length : s.lists.length = s.scans.length + 1
  /-- A thread is in a list at most once, and has found what the list says. -/
  entries : ∀ (r : ℕ) (l : List Host), s.lists[r]? = some l →
    (l.map Host.key).Nodup ∧ ∀ e ∈ l.map Host.entry, s.foundBy e.1.1 e.1.2 = some e.2
  /-- What a thread has found is in a list that was made for its scan or a later one. -/
  placed : ∀ j i f, s.foundBy j i = some f →
    ∃ (r : ℕ) (l : List Host), j < r ∧ s.lists[r]? = some l ∧ ((j, i), f) ∈ l.map Host.entry
  holds : ∀ j i f a r, s.worker j i = some (.holds f a r) → j < r ∧ r < s.lists.length
  scans : ∀ (j : ℕ) (sc : Scan), s.scans[j]? = some sc → sc.Inv

theorem worker_eq (hsc : s.scans[j]? = some sc) (i : ℕ) : s.worker j i = sc.workers i := by
  rw [worker, hsc, Option.bind_some]

theorem worker_set_of_ne (hscans : t.scans = s.scans.set j sc') {j' : ℕ} (hne : j' ≠ j) (i : ℕ) :
    t.worker j' i = s.worker j' i := by
  rw [worker, worker, hscans, List.getElem?_set_ne hne.symm]

theorem getElem?_set_scan (hsc : s.scans[j]? = some sc) (hscans : t.scans = s.scans.set j sc') :
    t.scans[j]? = some sc' := by
  rw [hscans]
  exact List.getElem?_set_self (List.getElem?_eq_some_iff.1 hsc).1

theorem scans_inv_set (h : s.Inv) (hscans : t.scans = s.scans.set j sc') (hinv : sc'.Inv) :
    ∀ (j' : ℕ) (sc : Scan), t.scans[j']? = some sc → sc.Inv := by
  intro j' sc hsc
  rw [hscans, List.getElem?_set] at hsc
  split at hsc
  · split at hsc
    · exact Option.some.inj hsc ▸ hinv
    · cases hsc
  · exact h.scans j' sc hsc

theorem inv_init : Inv init where
  length := rfl
  entries r l hl := by
    obtain rfl : l = [] := by
      have hmem := List.mem_of_getElem? hl
      exact List.mem_singleton.1 hmem
    exact ⟨List.nodup_nil, fun e he ↦ absurd he List.not_mem_nil⟩
  placed _ _ _ hf := by cases hf
  holds _ _ _ _ _ hw := by cases hw
  scans _ _ hsc := by cases hsc

theorem lists_scan {r : ℕ} {l : List Host} (hl : (s.scan myIp).lists[r]? = some l) :
    s.lists[r]? = some l ∨ l = [] := by
  have hl' : (s.lists ++ [[]])[r]? = some l := hl
  rcases Nat.lt_or_ge r s.lists.length with hlt | hge
  · rw [List.getElem?_append_left hlt] at hl'
    exact Or.inl hl'
  · rw [List.getElem?_append_right hge] at hl'
    exact Or.inr (List.mem_singleton.1 (List.mem_of_getElem? hl'))

/-- A scan is started. -/
theorem Inv.scan (h : s.Inv) (myIp : String) : (s.scan myIp).Inv := by
  have hworker (j i : ℕ) : (s.scan myIp).worker j i = s.worker j i := by
    show ((s.scans ++ [Scan.init])[j]?).bind _ = s.scans[j]?.bind _
    rcases Nat.lt_or_ge j s.scans.length with hlt | hge
    · rw [List.getElem?_append_left hlt]
    · rw [List.getElem?_append_right hge, List.getElem?_eq_none hge, Option.bind_none]
      cases hget : [Scan.init][j - s.scans.length]? with
      | none => rfl
      | some sc =>
        obtain rfl := List.mem_singleton.1 (List.mem_of_getElem? hget)
        rfl
  have hfound (j i : ℕ) : (s.scan myIp).foundBy j i = s.foundBy j i :=
    congrArg (Option.bind · Worker.result) (hworker j i)
  refine ⟨?_, fun r l hl ↦ ?_, fun j i f hf ↦ ?_, fun j i f a r hw ↦ ?_, fun j sc hsc ↦ ?_⟩
  · show (s.lists ++ [[]]).length = (s.scans ++ [Scan.init]).length + 1
    rw [List.length_append, List.length_append, h.length]
    rfl
  · rcases lists_scan hl with hl | rfl
    · simp only [hfound]
      exact h.entries r l hl
    · exact ⟨List.nodup_nil, fun e he ↦ absurd he List.not_mem_nil⟩
  · rw [hfound] at hf
    obtain ⟨r, l, hlt, hl, hmem⟩ := h.placed j i f hf
    refine ⟨r, l, hlt, ?_, hmem⟩
    show (s.lists ++ [[]])[r]? = some l
    rw [List.getElem?_append_left (List.getElem?_eq_some_iff.1 hl).1, hl]
  · rw [hworker] at hw
    obtain ⟨hlt, hle⟩ := h.holds j i f a r hw
    refine ⟨hlt, hle.trans ?_⟩
    show _ < (s.lists ++ [[]]).length
    rw [List.length_append]
    exact Nat.lt_succ_self _
  · rcases List.mem_append.1 (List.mem_of_getElem? hsc) with hmem | hmem
    · obtain ⟨j', hj'⟩ := List.mem_iff_getElem?.1 hmem
      exact h.scans j' sc hj'
    · exact List.mem_singleton.1 hmem ▸ Scan.inv_init

/-- A scan goes on, and its threads find and add nothing. -/
theorem Inv.set (h : s.Inv) (hsc : s.scans[j]? = some sc) (hscans : t.scans = s.scans.set j sc')
    (hinv : sc'.Inv)
    (hlists : t.lists.map (List.map Host.entry) = s.lists.map (List.map Host.entry))
    (hresult : ∀ i, (sc'.workers i).bind Worker.result = (sc.workers i).bind Worker.result)
    (hholds : ∀ i f a r, sc'.workers i = some (.holds f a r) →
      sc.workers i = some (.holds f a r) ∨ r = s.scans.length) : t.Inv := by
  have hlength : t.lists.length = s.lists.length := by
    simpa only [List.length_map] using congrArg List.length hlists
  have hget (r : ℕ) : t.lists[r]?.map (List.map Host.entry) =
      s.lists[r]?.map (List.map Host.entry) := by
    rw [← List.getElem?_map, ← List.getElem?_map, hlists]
  have hworker (i : ℕ) : t.worker j i = sc'.workers i := worker_eq (getElem?_set_scan hsc hscans) i
  have hfound (j' i : ℕ) : t.foundBy j' i = s.foundBy j' i := by
    rcases eq_or_ne j' j with rfl | hne
    · rw [foundBy, foundBy, hworker, worker_eq hsc, hresult]
    · rw [foundBy, foundBy, worker_set_of_ne hscans hne]
  refine ⟨?_, fun r l hl ↦ ?_, fun j' i f hf ↦ ?_, fun j' i f a r hw ↦ ?_,
    scans_inv_set h hscans hinv⟩
  · rw [hlength, h.length, hscans, List.length_set]
  · have hmap := hget r
    rw [hl, Option.map_some] at hmap
    obtain ⟨l', hl', hentry⟩ := Option.map_eq_some_iff.1 hmap.symm
    obtain ⟨hnodup, hmem⟩ := h.entries r l' hl'
    have hkey (l : List Host) : l.map Host.key = (l.map Host.entry).map Prod.fst := by
      rw [List.map_map]
      rfl
    rw [hkey, ← hentry, ← hkey]
    simp only [hfound]
    exact ⟨hnodup, hmem⟩
  · rw [hfound] at hf
    obtain ⟨r, l, hlt, hl, hmem⟩ := h.placed j' i f hf
    have hmap := hget r
    rw [hl, Option.map_some] at hmap
    obtain ⟨l', hl', hentry⟩ := Option.map_eq_some_iff.1 hmap
    exact ⟨r, l', hlt, hl', hentry ▸ hmem⟩
  · rw [hlength]
    rcases eq_or_ne j' j with rfl | hne
    · rw [hworker] at hw
      rcases hholds i f a r hw with hw | rfl
      · exact h.holds j' i f a r ((worker_eq hsc i).trans hw)
      · have hlt := (List.getElem?_eq_some_iff.1 hsc).1
        rw [h.length]
        exact ⟨hlt, Nat.lt_succ_self _⟩
    · rw [worker_set_of_ne hscans hne] at hw
      exact h.holds j' i f a r hw

/-- A thread adds its host. -/
theorem Inv.append (h : s.Inv) (hsc : s.scans[j]? = some sc) {r : ℕ} {f : Found} {a : ℚ}
    (hw : sc.workers i = some (.holds f a r))
    (hscans : t.scans = s.scans.set j (sc.setWorker i (.done (some f))))
    (hinv : (sc.setWorker i (.done (some f))).Inv)
    (hlists : t.lists = s.lists.modify r fun l ↦ l ++ [newHost j i f a]) : t.Inv := by
  have hlength : t.lists.length = s.lists.length := by rw [hlists, List.length_modify]
  have hsc' := getElem?_set_scan hsc hscans
  have hself : t.worker j i = some (.done (some f)) :=
    (worker_eq hsc' i).trans (sc.workers_setWorker_self i _)
  have hother (j' i' : ℕ) (hne : (j', i') ≠ (j, i)) : t.worker j' i' = s.worker j' i' := by
    rcases eq_or_ne j' j with rfl | hj
    · have hi : i' ≠ i := fun hi ↦ hne (by rw [hi])
      rw [worker_eq hsc', worker_eq hsc, Scan.workers_setWorker_of_ne hi]
    · exact worker_set_of_ne hscans hj i'
  have hold : s.foundBy j i = none := by
    rw [foundBy, worker_eq hsc, hw]
    rfl
  -- what was in a list before was not added by this thread
  have hfound {l : List Host} {r' : ℕ} (hl : s.lists[r']? = some l) {e : (ℕ × ℕ) × Found}
      (he : e ∈ l.map Host.entry) : e.1 ≠ (j, i) ∧ t.foundBy e.1.1 e.1.2 = some e.2 := by
    have hbefore := (h.entries r' l hl).2 e he
    have hne : e.1 ≠ (j, i) := by
      intro heq
      rw [heq, hold] at hbefore
      cases hbefore
    refine ⟨hne, ?_⟩
    rw [foundBy, hother _ _ hne]
    exact hbefore
  have hget (r' : ℕ) : t.lists[r']? =
      if r = r' then s.lists[r']?.map (fun l ↦ l ++ [newHost j i f a]) else s.lists[r']? := by
    rw [hlists, List.getElem?_modify]
    split <;> simp
  refine ⟨?_, fun r' l hl ↦ ?_, fun j' i' f' hf ↦ ?_, fun j' i' f' a' r' hw' ↦ ?_,
    scans_inv_set h hscans hinv⟩
  · rw [hlength, h.length, hscans, List.length_set]
  · rw [hget] at hl
    split at hl
    · obtain ⟨l', hl', rfl⟩ := Option.map_eq_some_iff.1 hl
      refine ⟨?_, ?_⟩
      · rw [List.map_append, List.nodup_append]
        refine ⟨(h.entries r' l' hl').1, List.nodup_singleton _, fun k hk k' hk' heq ↦ ?_⟩
        obtain ⟨host, hhost, rfl⟩ := List.mem_map.1 hk
        obtain rfl := List.mem_singleton.1 hk'
        exact (hfound hl' (List.mem_map_of_mem hhost)).1 heq
      · rw [List.map_append, List.forall_mem_append]
        refine ⟨fun e he ↦ (hfound hl' he).2, List.forall_mem_singleton.2 ?_⟩
        show t.foundBy j i = some f
        rw [foundBy, hself]
        rfl
    · exact ⟨(h.entries r' l hl).1, fun e he ↦ (hfound hl he).2⟩
  · obtain ⟨hlt, hle⟩ := h.holds j i f a r ((worker_eq hsc i).trans hw)
    rcases eq_or_ne (j', i') (j, i) with heq | hne
    · obtain ⟨rfl, rfl⟩ := Prod.ext_iff.1 heq
      obtain rfl : f = f' := by
        rw [foundBy, hself] at hf
        exact Option.some.inj hf
      refine ⟨r, s.lists[r] ++ [newHost j' i' f a], hlt, ?_, ?_⟩
      · rw [hget, if_pos rfl, List.getElem?_eq_getElem hle, Option.map_some]
      · rw [List.map_append]
        exact List.mem_append_right _ List.mem_cons_self
    · rw [foundBy, hother _ _ hne] at hf
      obtain ⟨r', l, hlt', hl, hmem⟩ := h.placed j' i' f' hf
      by_cases hr : r = r'
      · refine ⟨r', l ++ [newHost j i f a], hlt', ?_, ?_⟩
        · rw [hget, if_pos hr, hl, Option.map_some]
        · rw [List.map_append]
          exact List.mem_append_left _ hmem
      · exact ⟨r', l, hlt', by rw [hget, if_neg hr, hl], hmem⟩
  · rw [hlength]
    have hne : (j', i') ≠ (j, i) := by
      intro heq
      obtain ⟨rfl, rfl⟩ := Prod.ext_iff.1 heq
      cases hself.symm.trans hw'
    exact h.holds j' i' f' a' r' ((hother _ _ hne).symm.trans hw')

/-- **A step of a scan, or of one of its threads.** -/
theorem Inv.does (h : s.Inv) (hsc : s.scans[j]? = some sc) (hdoes : Does s t j sc sc')
    (hscans : t.scans = s.scans.set j sc') : t.Inv := by
  have hinv := hdoes.inv (h.scans j sc hsc)
  cases hdoes with
  | start hphase hstart hlists =>
    obtain ⟨hnone, -⟩ := (h.scans j sc hsc).start hphase hstart
    refine h.set hsc hscans hinv (by rw [hlists]) (fun i' ↦ ?_) fun i' f a r hw ↦ ?_
    · exact sc.result_setWorker (by rw [hnone]; rfl) rfl i'
    · exact (Scan.eq_or_eq_of_workers_setWorker hw).imp_right fun heq ↦ by cases heq
  | join _ _ _ hlists | finish _ _ _ hlists | report _ hlists _ | enter _ hlists _
  | leave _ _ hlists _ =>
    exact h.set hsc hscans hinv (by rw [hlists]) (fun _ ↦ rfl) fun _ _ _ _ hw ↦ Or.inl hw
  | place _ hlists _ =>
    refine h.set hsc hscans hinv ?_ (fun _ ↦ rfl) fun _ _ _ _ hw ↦ Or.inl hw
    rw [hlists]
    exact map_modify_eq (fun l ↦ map_modify_eq (Host.entry_spread _ _) l _) _ _
  | thread hw hrunning hresult hholds hlists =>
    refine h.set hsc hscans hinv (by rw [hlists]) (fun i' ↦ ?_) fun i' f a r hw' ↦ ?_
    · exact Scan.result_setWorker (by rw [hw]; exact Worker.result_eq_none hrunning) hresult i'
    · exact (Scan.eq_or_eq_of_workers_setWorker hw').imp_right (hholds f a r)
  | append hw hlists => exact h.append hsc hw hscans hinv hlists

theorem Inv.step (h : s.Inv) {l : Label} (hstep : s.step myIp l = some t) : t.Inv := by
  rcases step_cases hstep with ⟨-, rfl⟩ | ⟨j, sc, sc', hsc, hdoes, hscans⟩
  · exact h.scan myIp
  · exact h.does hsc hdoes hscans

theorem Inv.of_run {ls : List Label} (hrun : (networkMap myIp).run init ls = some t) : t.Inv :=
  Machine.invariant_of_run (I := NetworkMap.Inv) (fun _ _ _ hs hstep ↦ hs.step hstep) inv_init hrun

/-- The last list is the list of hosts. -/
theorem Inv.getElem?_lists (h : s.Inv) : s.lists[s.scans.length]? = some s.hosts := by
  have hlt : s.scans.length < s.lists.length := by
    rw [h.length]
    exact Nat.lt_succ_self _
  rw [hosts, List.getElem?_eq_getElem hlt]
  rfl

/-- When the last scan is over, all its threads have ended, and what they have found is listed. -/
theorem Inv.over (h : s.Inv) (hj : j + 1 = s.scans.length) (hsc : s.scans[j]? = some sc)
    (hphase : sc.phase ≠ .pinging) (hi : i ∈ addresses) :
    ∃ f, s.worker j i = some (.done f) ∧
      ∀ g, f = some g → ((j, i), g) ∈ s.hosts.map Host.entry := by
  have hinv := h.scans j sc hsc
  obtain ⟨hpending, hbatch⟩ := hinv.ended hphase
  obtain ⟨f, hf⟩ := Scan.finished_iff.1 (hinv.follows.finished_of_nil hpending hbatch hi)
  have hworker : s.worker j i = some (.done f) := (worker_eq hsc i).trans hf
  refine ⟨f, hworker, ?_⟩
  rintro g rfl
  obtain ⟨r, l, hlt, hl, hmem⟩ := h.placed j i g (by rw [foundBy, hworker]; rfl)
  have hle := (List.getElem?_eq_some_iff.1 hl).1
  rw [h.length] at hle
  obtain rfl : r = s.scans.length := by omega
  rw [h.getElem?_lists] at hl
  exact Option.some.inj hl ▸ hmem

/-- What has found something is the thread of an address. -/
theorem Inv.mem_addresses (h : s.Inv) (hsc : s.scans[j]? = some sc) {f : Found}
    (hf : s.foundBy j i = some f) : i ∈ addresses := by
  obtain ⟨w, hw, -⟩ := Option.bind_eq_some_iff.1 hf
  rw [worker_eq hsc] at hw
  exact (((h.scans j sc hsc).follows.started i).1 (by rw [hw]; rfl)).1

/-- A thread was started and has not ended. -/
def Running (s : NetworkMap) (j i : ℕ) : Prop := ∃ w, s.worker j i = some w ∧ ∀ f, w ≠ .done f

theorem Inv.length_le (h : s.Inv) (j : ℕ) {is : List ℕ} (hnodup : is.Nodup)
    (hrunning : ∀ i ∈ is, s.Running j i) : is.length ≤ 20 := by
  cases hsc : s.scans[j]? with
  | none =>
    cases is with
    | nil => exact Nat.zero_le _
    | cons i is =>
      obtain ⟨w, hw, -⟩ := hrunning i List.mem_cons_self
      rw [worker, hsc] at hw
      cases hw
  | some sc =>
    refine (h.scans j sc hsc).follows.length_le hnodup fun i hi ↦ ?_
    obtain ⟨w, hw, hw'⟩ := hrunning i hi
    rw [worker_eq hsc] at hw
    refine ⟨by rw [hw]; rfl, fun hf ↦ ?_⟩
    obtain ⟨f, hf⟩ := Scan.finished_iff.1 hf
    exact hw' f (Option.some.inj (hw.symm.trans hf))

/-- **The hosts of a network map.** In every order of the steps of its scans and of their threads,
at most twenty threads of a scan are under way; a host of the list was found by the thread that has
added it, which has added no other; and when the last scan is over, each of its threads has ended,
and what it has found is in the list. -/
theorem hosts_of_run {ls : List Label} (hrun : (networkMap myIp).run init ls = some t) :
    (∀ j (is : List ℕ), is.Nodup → (∀ i ∈ is, t.Running j i) → is.length ≤ 20) ∧
      (t.hosts.map Host.key).Nodup ∧
      (∀ h ∈ t.hosts, t.foundBy h.scan h.index = some h.found) ∧
      ∀ j sc, j + 1 = t.scans.length → t.scans[j]? = some sc → sc.phase ≠ .pinging →
        ∀ i ∈ addresses, ∃ f, t.worker j i = some (.done f) ∧
          ∀ g, f = some g → ∃ h ∈ t.hosts, h.key = (j, i) ∧ h.found = g := by
  have h := Inv.of_run hrun
  obtain ⟨hnodup, hentries⟩ := h.entries _ _ h.getElem?_lists
  refine ⟨fun j is ↦ h.length_le j, hnodup, fun host hhost ↦ ?_, ?_⟩
  · exact hentries host.entry (List.mem_map_of_mem hhost)
  · intro j sc hj hsc hphase i hi
    obtain ⟨f, hf, hlisted⟩ := h.over hj hsc hphase hi
    refine ⟨f, hf, fun g hg ↦ ?_⟩
    obtain ⟨host, hhost, hentry⟩ := List.mem_map.1 (hlisted g hg)
    exact ⟨host, hhost, congrArg Prod.fst hentry, congrArg Prod.snd hentry⟩

/-- A thread's host answers, and it adds it. -/
def answer (j i : ℕ) : List Label :=
  [.ping j i (.answers "02:00:00:00:00:01".toList "router".toList), .measure j i, .load j i,
    .append j i]

/-- A scan is started while another one runs, and both find the same host. -/
def overlap : List Label := [.scan, .start 0, .scan, .start 1] ++ answer 0 1 ++ answer 1 1

theorem hosts_of_run_overlap :
    ∃ t, (networkMap "192.168.1.7").run init overlap = some t ∧
      t.hosts.map Host.index = [1, 1] ∧
      (∀ j (is : List ℕ), is.Nodup → (∀ i ∈ is, t.Running j i) → is.length ≤ 20) ∧
      (t.hosts.map Host.key).Nodup ∧
      (∀ h ∈ t.hosts, t.foundBy h.scan h.index = some h.found) ∧
      ∀ j sc, j + 1 = t.scans.length → t.scans[j]? = some sc → sc.phase ≠ .pinging →
        ∀ i ∈ addresses, ∃ f, t.worker j i = some (.done f) ∧
          ∀ g, f = some g → ∃ h ∈ t.hosts, h.key = (j, i) ∧ h.found = g := by
  have hboth : ((networkMap "192.168.1.7").run init overlap).map
      (fun t ↦ t.hosts.map Host.index) = some [1, 1] := by decide
  obtain ⟨t, ht, hhosts⟩ := Option.map_eq_some_iff.1 hboth
  exact ⟨t, ht, hhosts, hosts_of_run ht⟩

/-! ### One scan at a time -/

/-- No scan is started before the others are done. -/
def OneScan (s : NetworkMap) (l : Label) : Prop :=
  l = .scan → ∀ sc ∈ s.scans, sc.phase = .done

instance (s : NetworkMap) (l : Label) : Decidable (OneScan s l) :=
  inferInstanceAs (Decidable (_ → _))

/-- The hosts before the `k`-th are placed. -/
def Spread (hosts : List Host) (k : ℕ) : Prop :=
  ∀ m < k, ∀ h, hosts[m]? = some h → h.spread m hosts.length = h

/-- What is known when the last scan is over. -/
def Told (s : NetworkMap) : Phase → Prop
  | .pinging | .finished => True
  | .reported => s.status = foundStatus s.hosts.length
  | .spreading r k =>
    s.status = foundStatus s.hosts.length ∧ r = s.scans.length ∧ Spread s.hosts k
  | .done => s.status = foundStatus s.hosts.length ∧ Spread s.hosts s.hosts.length

/-- What holds when scans are alone. -/
structure Apart (s : NetworkMap) : Prop where
  inv : s.Inv
  older : ∀ (j : ℕ) (sc : Scan), s.scans[j]? = some sc → j + 1 < s.scans.length → sc.phase = .done
  own : ∀ (r : ℕ) (l : List Host), s.lists[r]? = some l → ∀ h ∈ l, h.scan + 1 = r
  told : ∀ (j : ℕ) (sc : Scan), s.scans[j]? = some sc → j + 1 = s.scans.length → s.Told sc.phase

/-- Only the last scan goes on. -/
theorem Apart.last (h : s.Apart) (hsc : s.scans[j]? = some sc) (hdoes : Does s t j sc sc') :
    j + 1 = s.scans.length := by
  by_contra hne
  have hlt := (List.getElem?_eq_some_iff.1 hsc).1
  have hdone : sc.phase = .done := h.older j sc hsc (by omega)
  have hinv := h.inv.scans j sc hsc
  have hended {i : ℕ} {w : Worker} (hw : sc.workers i = some w) : ∃ f, w = .done f :=
    hinv.finished (by rw [hdone]; simp) hw
  cases hdoes with
  | start hphase _ _ | join hphase _ _ _ | finish hphase _ _ _ | report hphase _ _
  | enter hphase _ _ | place hphase _ _ | leave hphase _ _ _ => cases hdone.symm.trans hphase
  | thread hw hrunning _ _ _ =>
    obtain ⟨f, hf⟩ := hended hw
    exact hrunning f hf
  | append hw _ =>
    obtain ⟨f, hf⟩ := hended hw
    cases hf

theorem spread_zero (l : List Host) : Spread l 0 := fun _ hm ↦ absurd hm (Nat.not_lt_zero _)

/-- The next host is placed. -/
theorem Spread.place {l : List Host} {k : ℕ} (h : Spread l k) :
    Spread (l.modify k (Host.spread k l.length)) (k + 1) := by
  intro m hm host hhost
  rw [List.getElem?_modify] at hhost
  rw [List.length_modify]
  split at hhost
  next heq =>
    subst heq
    obtain ⟨host', -, rfl⟩ := Option.map_eq_some_iff.1 hhost
    rfl
  next hne =>
    have hlt : m < k := by omega
    obtain ⟨host', hhost', rfl⟩ := Option.map_eq_some_iff.1 hhost
    exact h m hlt host' hhost'

theorem apart_init : Apart init where
  inv := inv_init
  older _ _ hsc := by cases hsc
  own r l hl h hh := by
    obtain rfl : l = [] := List.mem_singleton.1 (List.mem_of_getElem? hl)
    cases hh
  told _ _ hsc := by cases hsc

theorem Apart.scan (h : s.Apart) (hdone : ∀ sc ∈ s.scans, sc.phase = .done) (myIp : String) :
    (s.scan myIp).Apart where
  inv := h.inv.scan myIp
  older j sc hsc hlt := by
    have hlt' : j + 1 < (s.scans ++ [Scan.init]).length := hlt
    rw [List.length_append, List.length_singleton, Nat.add_lt_add_iff_right] at hlt'
    have hsc' : (s.scans ++ [Scan.init])[j]? = some sc := hsc
    rw [List.getElem?_append_left hlt'] at hsc'
    exact hdone sc (List.mem_of_getElem? hsc')
  own r l hl := by
    rcases lists_scan hl with hl | rfl
    · exact h.own r l hl
    · exact fun host hhost ↦ absurd hhost List.not_mem_nil
  told j sc hsc hj := by
    have hsc' : (s.scans ++ [Scan.init])[j]? = some sc := hsc
    have hj' : j + 1 = (s.scans ++ [Scan.init]).length := hj
    rw [List.length_append, List.length_singleton, Nat.add_right_cancel_iff] at hj'
    rw [hj', List.getElem?_concat_length] at hsc'
    obtain rfl := Option.some.inj hsc'
    trivial

theorem hosts_eq (hlength : t.scans.length = s.scans.length) (hlists : t.lists = s.lists) :
    t.hosts = s.hosts := by
  rw [hosts, hosts, hlength, hlists]

/-- What a step does to what is known. -/
theorem Apart.told_does (h : s.Apart) (hsc : s.scans[j]? = some sc) (hdoes : Does s t j sc sc')
    (hscans : t.scans = s.scans.set j sc') : t.Told sc'.phase := by
  have hlength : t.scans.length = s.scans.length := by rw [hscans, List.length_set]
  have htold := h.told j sc hsc (h.last hsc hdoes)
  have hinv := h.inv.scans j sc hsc
  -- a thread that goes on belongs to a scan that is not over
  have hpinging {i : ℕ} {w : Worker} (hw : sc.workers i = some w) (hrunning : ∀ f, w ≠ .done f) :
      sc.phase = .pinging := by
    by_contra hphase
    obtain ⟨f, hf⟩ := hinv.finished hphase hw
    exact hrunning f hf
  cases hdoes with
  | start hphase _ _ | join hphase _ _ _ =>
    show t.Told sc.phase
    rw [hphase]
    trivial
  | finish _ _ _ _ => trivial
  | report _ hlists hstatus =>
    show t.status = _
    rw [hstatus, hosts_eq hlength hlists]
  | enter hphase hlists hstatus =>
    rw [hphase] at htold
    refine ⟨?_, hlength.symm, spread_zero _⟩
    rw [hstatus, hosts_eq hlength hlists]
    exact htold
  | @place r k hphase hlists hstatus =>
    rw [hphase] at htold
    obtain ⟨hsaid, rfl, hspread⟩ := htold
    have hhosts : t.hosts = s.hosts.modify k (Host.spread k s.hosts.length) := by
      rw [hosts, hlength, hlists, List.getElem?_modify_eq, h.inv.getElem?_lists]
      rfl
    refine ⟨?_, hlength.symm, ?_⟩
    · rw [hstatus, hhosts, List.length_modify]
      exact hsaid
    · rw [hhosts]
      exact hspread.place
  | @leave r k hphase hle hlists hstatus =>
    rw [hphase] at htold
    obtain ⟨hsaid, rfl, hspread⟩ := htold
    have hle' : s.hosts.length ≤ k := hle
    refine ⟨?_, ?_⟩
    · rw [hstatus, hosts_eq hlength hlists]
      exact hsaid
    · rw [hosts_eq hlength hlists]
      exact fun m hm ↦ hspread m (Nat.lt_of_lt_of_le hm hle')
  | thread hw hrunning _ _ _ =>
    show t.Told sc.phase
    rw [hpinging hw hrunning]
    trivial
  | append hw _ =>
    show t.Told sc.phase
    rw [hpinging hw (by simp)]
    trivial

/-- Every list has the hosts of its own scan. -/
theorem Apart.own_does (h : s.Apart) (hsc : s.scans[j]? = some sc) (hdoes : Does s t j sc sc') :
    ∀ (r : ℕ) (l : List Host), t.lists[r]? = some l → ∀ h ∈ l, h.scan + 1 = r := by
  have hlast := h.last hsc hdoes
  intro r l hl host hhost
  cases hdoes with
  | start _ _ hlists | join _ _ _ hlists | finish _ _ _ hlists | report _ hlists _
  | enter _ hlists _ | leave _ _ hlists _ | thread _ _ _ _ hlists =>
    rw [hlists] at hl
    exact h.own r l hl host hhost
  | @place r' k _ hlists _ =>
    rw [hlists, List.getElem?_modify] at hl
    obtain ⟨l', hl', rfl⟩ := Option.map_eq_some_iff.1 hl
    split at hhost
    · obtain ⟨m, hm⟩ := List.mem_iff_getElem?.1 hhost
      rw [List.getElem?_modify] at hm
      obtain ⟨host', hhost', rfl⟩ := Option.map_eq_some_iff.1 hm
      have hown := h.own r l' hl' host' (List.mem_of_getElem? hhost')
      split <;> exact hown
    · exact h.own r l' hl' host hhost
  | @append i r' f a hw hlists =>
    rw [hlists, List.getElem?_modify] at hl
    obtain ⟨l', hl', rfl⟩ := Option.map_eq_some_iff.1 hl
    split at hhost
    next heq =>
      rcases List.mem_append.1 hhost with hmem | hmem
      · exact h.own r l' hl' host hmem
      · obtain rfl := List.mem_singleton.1 hmem
        obtain ⟨hlt, hle⟩ := h.inv.holds j i f a r' ((worker_eq hsc i).trans hw)
        rw [h.inv.length] at hle
        show j + 1 = r
        omega
    · exact h.own r l' hl' host hhost

theorem Apart.step (h : s.Apart) {l : Label} (hok : s.OneScan l)
    (hstep : s.step myIp l = some t) : t.Apart := by
  have hinv := h.inv.step hstep
  rcases step_cases hstep with ⟨hl, rfl⟩ | ⟨j, sc, sc', hsc, hdoes, hscans⟩
  · exact h.scan (hok hl) myIp
  · have hlast := h.last hsc hdoes
    have hlength : t.scans.length = s.scans.length := by rw [hscans, List.length_set]
    refine ⟨hinv, fun j' sc'' hsc'' hlt ↦ ?_, h.own_does hsc hdoes, fun j' sc'' hsc'' hj' ↦ ?_⟩
    · have hne : j ≠ j' := by omega
      rw [hscans, List.getElem?_set_ne hne] at hsc''
      exact h.older j' sc'' hsc'' (hlength ▸ hlt)
    · obtain rfl : j = j' := by omega
      rw [getElem?_set_scan hsc hscans] at hsc''
      obtain rfl := Option.some.inj hsc''
      exact h.told_does hsc hdoes hscans

theorem Apart.of_run {ls : List Label} (hok : (networkMap myIp).Guarded OneScan init ls)
    (hrun : (networkMap myIp).run init ls = some t) : t.Apart :=
  Machine.invariant_of_guarded (fun _ _ _ hs hok hstep ↦ hs.step hok hstep) apart_init hok hrun

/-- **One scan at a time.** In every run in which no scan is started before the others are done, all
hosts of the list were found by the last scan. When it is over they are those that have answered
it, each of them once; then the status says how many, and in the end each host is at its own angle
of the circle. -/
theorem hosts_of_alone {ls : List Label} (hok : (networkMap myIp).Guarded OneScan init ls)
    (hrun : (networkMap myIp).run init ls = some t) :
    (t.hosts.map Host.index).Nodup ∧
      ∀ j sc, j + 1 = t.scans.length → t.scans[j]? = some sc →
        (∀ h ∈ t.hosts, h.scan = j) ∧
        (sc.phase ≠ .pinging → (t.hosts.map Host.index).Perm
          (addresses.filter fun i ↦ (t.foundBy j i).isSome)) ∧
        (sc.phase ≠ .pinging ∧ sc.phase ≠ .finished → t.status = foundStatus t.hosts.length) ∧
        (sc.phase = .done → ∀ (k : ℕ) (h : Host), t.hosts[k]? = some h →
          h.angle = (k : ℚ) / t.hosts.length ∧
            h.radius = if h.found.type = .router then 0 else 80 + k % 3 * 20) := by
  have h := Apart.of_run hok hrun
  have hscan : ∀ host ∈ t.hosts, host.scan + 1 = t.scans.length := h.own _ _ h.inv.getElem?_lists
  obtain ⟨hnodup, hentries⟩ := h.inv.entries _ _ h.inv.getElem?_lists
  have hindex : (t.hosts.map Host.index).Nodup := by
    refine List.Nodup.map_on ?_ hnodup.of_map
    intro x hx y hy hxy
    refine List.inj_on_of_nodup_map hnodup hx hy (Prod.ext ?_ hxy)
    exact Nat.succ_injective ((hscan x hx).trans (hscan y hy).symm)
  refine ⟨hindex, fun j sc hj hsc ↦ ?_⟩
  have hown : ∀ host ∈ t.hosts, host.scan = j := fun host hhost ↦
    Nat.succ_injective ((hscan host hhost).trans hj.symm)
  have htold := h.told j sc hsc hj
  refine ⟨hown, fun hphase ↦ ?_, fun ⟨hpinging, hfinished⟩ ↦ ?_, fun hdone k host hhost ↦ ?_⟩
  · have hall : addresses.Nodup := List.nodup_range'
    refine (List.perm_ext_iff_of_nodup hindex (hall.filter _)).2 fun i ↦ ?_
    rw [List.mem_filter, List.mem_map]
    constructor
    · rintro ⟨host, hhost, rfl⟩
      have hfound : t.foundBy host.scan host.index = some host.found :=
        hentries host.entry (List.mem_map_of_mem hhost)
      rw [hown host hhost] at hfound
      exact ⟨h.inv.mem_addresses hsc hfound, by rw [hfound]; rfl⟩
    · rintro ⟨hi, hfound⟩
      obtain ⟨f, hf, hlisted⟩ := h.inv.over hj hsc hphase hi
      obtain ⟨g, hg⟩ := Option.isSome_iff_exists.1 hfound
      rw [foundBy, hf] at hg
      obtain ⟨host, hhost, hentry⟩ := List.mem_map.1 (hlisted g hg)
      exact ⟨host, hhost, congrArg (fun e ↦ e.1.2) hentry⟩
  · cases hphase : sc.phase with
    | pinging => exact absurd hphase hpinging
    | finished => exact absurd hphase hfinished
    | reported =>
      rw [hphase] at htold
      exact htold
    | spreading r k =>
      rw [hphase] at htold
      exact htold.1
    | done =>
      rw [hphase] at htold
      exact htold.1
  · rw [hdone] at htold
    have hlt := (List.getElem?_eq_some_iff.1 hhost).1
    have hone : 1 ≤ t.hosts.length := by omega
    rw [← htold.2 k hlt host hhost]
    refine ⟨?_, rfl⟩
    show (k : ℚ) / (max 1 t.hosts.length : ℕ) = k / t.hosts.length
    rw [Nat.max_eq_right hone]

/-- A thread is started, and only the router answers. -/
def onlyRouter (i : ℕ) : List Label :=
  .start 0 :: if i = 1 then answer 0 i else [.ping 0 i .silent]

/-- A whole scan. -/
def wholeScan : List Label :=
  .scan :: ((List.range 13).flatMap fun b ↦
    ((List.range' (20 * b + 1) 20).filter (· ≤ 254)).flatMap onlyRouter ++ [.join 0]) ++
  [.finish 0, .report 0, .spread 0, .spread 0, .spread 0]

theorem hosts_of_alone_wholeScan :
    ∃ t, (networkMap "192.168.1.7").run init wholeScan = some t ∧
      t.scans.map Scan.phase = [.done] ∧ t.hosts.map Host.index = [1] ∧
      (t.hosts.map Host.index).Nodup ∧
      ∀ j sc, j + 1 = t.scans.length → t.scans[j]? = some sc →
        (∀ h ∈ t.hosts, h.scan = j) ∧
        (sc.phase ≠ .pinging → (t.hosts.map Host.index).Perm
          (addresses.filter fun i ↦ (t.foundBy j i).isSome)) ∧
        (sc.phase ≠ .pinging ∧ sc.phase ≠ .finished → t.status = foundStatus t.hosts.length) ∧
        (sc.phase = .done → ∀ (k : ℕ) (h : Host), t.hosts[k]? = some h →
          h.angle = (k : ℚ) / t.hosts.length ∧
            h.radius = if h.found.type = .router then 0 else 80 + k % 3 * 20) := by
  have hok : (networkMap "192.168.1.7").Guarded OneScan init wholeScan := by decide +kernel
  have hdone : ((networkMap "192.168.1.7").run init wholeScan).map
      (fun t ↦ (t.scans.map Scan.phase, t.hosts.map Host.index)) = some ([.done], [1]) := by
    decide +kernel
  obtain ⟨t, ht, hpair⟩ := Option.map_eq_some_iff.1 hdone
  exact ⟨t, ht, congrArg Prod.fst hpair, congrArg Prod.snd hpair, hosts_of_alone hok ht⟩

end NetworkMap

end JuliusOS.Apps
