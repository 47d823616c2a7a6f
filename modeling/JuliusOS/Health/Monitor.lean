import JuliusOS.Boot.Sequence
import JuliusOS.Foundations.Threshold

/-!
# The health monitor

`services/julius_health/julius_health.c`: rounds in which every service is probed, a socket by
`connect` and a file by `access`. A service that fails three times in a row is restarted and counted
anew. `Boot.Sequence` follows the same program statement by statement, among the processes it
starts; here a round is one step, with all that it writes.

The results of the probes are the environment's, so `monitor_spec` is about every sequence of them.
No text is longer than its buffer: a name has at most 63 bytes.
-/

open Threshold

namespace JuliusOS.Health

open Boot (HealthCheck healthChecks)

/-! ### A round -/

/-- What the environment decides in a round. -/
structure World where
  /-- Whether a `connect` to the socket at a path succeeds. -/
  connects : String → Bool
  /-- Whether `access` finds a file at a path. -/
  accessible : String → Bool
  /-- Whether `fopen(HEALTH_STATE, "w")` succeeds. -/
  fopenState : Bool

/-- `strstr(path, ".sock")` finds something. -/
def isSocket (path : String) : Bool := path.toList.tails.any ".sock".toList.isPrefixOf

/-- What `check_service` or `check_file` returns. -/
def probe (w : World) (h : HealthCheck) : Bool :=
  if isSocket h.socketPath then w.connects h.socketPath else w.accessible h.socketPath

/-- What `save_health_state` writes. -/
structure HealthState where
  /-- `total`. -/
  total : ℕ
  /-- `healthy`. -/
  healthy : ℕ
  /-- `score`. -/
  score : ℕ
  /-- The services, and which of them are up. -/
  services : List (String × Bool)
deriving DecidableEq

/-- The lines of the file. -/
def HealthState.lines (s : HealthState) : List String :=
  ["total=" ++ toString s.total, "healthy=" ++ toString s.healthy, "score=" ++ toString s.score] ++
    s.services.map fun up ↦ up.1 ++ "=" ++ if up.2 then "up" else "down"

/-- What the monitor does outside its memory. -/
inductive Output
  /-- A line of the log. -/
  | log (level msg : String)
  /-- `system(cmd)`. -/
  | system (cmd : String)
  /-- The state file is written. -/
  | state (lines : List String)
deriving DecidableEq

/-- The command of `restart_service`. -/
def restartCommand (name : String) : String := "julius_pm restart " ++ name

/-- `restart_service`. -/
def restartService (name : String) : List Output :=
  [.system (restartCommand name), .log "WARN" ("Restarted: " ++ name)]

/-- One service in a round. -/
def checkOne (w : World) (h : HealthCheck) : HealthCheck × List Output :=
  let up := probe w h
  let checked := h.record up
  let changed :=
    if h.healthy = up then []
    else [.log (if up then "INFO" else "ERROR") (h.name ++ " -> " ++ if up then "UP" else "DOWN")]
  if up then (checked, changed)
  else
    let down := .log "WARN"
      ("Service down: " ++ h.name ++ " (fails: " ++ toString checked.failCount ++ ")")
    if 3 ≤ checked.failCount then
      ({ checked with failCount := 0 }, down :: restartService h.name ++ changed)
    else (checked, down :: changed)

/-- The loop over the services, and `total_healthy` at its end. -/
def checkLoop (w : World) : List HealthCheck → List HealthCheck × List Output × ℕ
  | [] => ([], [], 0)
  | h :: hs =>
    let one := checkOne w h
    let rest := checkLoop w hs
    (one.1 :: rest.1, one.2 ++ rest.2.1, (if probe w h then 1 else 0) + rest.2.2)

/-- `save_health_state`. -/
def saveHealthState (checks : List HealthCheck) : HealthState where
  total := checks.length
  healthy := checks.countP HealthCheck.healthy
  score := checks.countP HealthCheck.healthy * 100 / checks.length
  services := checks.map fun h ↦ (h.name, h.healthy)

/-- The body of the loop of `main`. -/
def round (w : World) (checks : List HealthCheck) : List HealthCheck × List Output :=
  let (checks, outs, totalHealthy) := checkLoop w checks
  let summary := "Health: " ++ toString totalHealthy ++ "/" ++ toString checks.length ++
    " services up (" ++ toString (totalHealthy * 100 / checks.length) ++ "%)"
  (checks, outs ++ (if w.fopenState then [.state (saveHealthState checks).lines] else []) ++
    [.log "INFO" summary])

/-- The monitor as a machine whose steps are rounds. -/
def monitor : Machine (List HealthCheck) World where
  Init checks := checks = healthChecks
  step checks w := some (round w checks).1

/-- What a round puts out. -/
def roundOutputs (checks : List HealthCheck) (w : World) : List Output := (round w checks).2

/-- How often a service is restarted. -/
def restarts (name : String) (outs : List Output) : ℕ := outs.count (.system (restartCommand name))

/-- What is written to the state file. -/
def written (outs : List Output) : List (List String) :=
  outs.filterMap fun
    | .state lines => some lines
    | _ => none

/-! ### One service in one round -/

variable {w : World} {h : HealthCheck} {checks checks' : List HealthCheck} {name : String}

theorem restartCommand_inj {a b : String} (h : restartCommand a = restartCommand b) : a = b :=
  (String.append_right_inj _).1 h

theorem restarts_append (outs outs' : List Output) :
    restarts name (outs ++ outs') = restarts name outs + restarts name outs' :=
  List.count_append

/-- The log has no part in it. -/
theorem restarts_log (level msg : String) (outs : List Output) :
    restarts name (.log level msg :: outs) = restarts name outs :=
  List.count_cons_of_ne (by simp)

/-- What a check leaves of the counter, and what it reports, is what the threshold says. -/
theorem checkOne_fst : (checkOne w h).1 =
    { h with healthy := probe w h, failCount := (step 3 h.failCount (probe w h)).1 } := by
  cases hup : probe w h with
  | true => simp [checkOne, hup, HealthCheck.record, step_true]
  | false =>
    rcases Nat.lt_or_ge (h.failCount + 1) 3 with hlt | hge
    · simp [checkOne, hup, HealthCheck.record, step_false_of_lt hlt, Nat.not_le.2 hlt]
    · simp [checkOne, hup, HealthCheck.record, step_false_of_le hge, hge]

theorem restarts_restartService (name' : String) :
    restarts name (restartService name') = if name' = name then 1 else 0 := by
  rw [restartService, restarts, List.count_cons, List.count_singleton]
  by_cases hname : name' = name
  · rw [if_pos hname, hname]
    simp
  · have hne : restartCommand name' ≠ restartCommand name := fun heq ↦
      hname (restartCommand_inj heq)
    rw [if_neg hname]
    simp [hne]

/-- **A service is restarted in its own check** and only where the counter fires. -/
theorem restarts_checkOne : restarts name (checkOne w h).2 =
    if h.name = name ∧ (step 3 h.failCount (probe w h)).2 then 1 else 0 := by
  have hchanged : ∀ level msg, restarts name
      (if h.healthy = probe w h then [] else [.log level msg]) = 0 := by
    intro level msg
    split
    · rfl
    · exact restarts_log level msg []
  cases hup : probe w h with
  | true =>
    rw [hup] at hchanged
    simp only [checkOne, hup, step_true, Bool.false_eq_true, and_false, if_false]
    exact hchanged _ _
  | false =>
    rw [hup] at hchanged
    have hcount : (h.record false).failCount = h.failCount + 1 := rfl
    simp only [checkOne, hup, Bool.false_eq_true, if_false, hcount]
    rcases Nat.lt_or_ge (h.failCount + 1) 3 with hlt | hge
    · rw [if_neg (Nat.not_le.2 hlt), restarts_log, hchanged, step_false_of_lt hlt]
      simp
    · rw [if_pos hge, step_false_of_le hge, List.cons_append, restarts_log, restarts_append,
        hchanged, restarts_restartService]
      simp

/-! ### A round -/

theorem checkLoop_fst : (checkLoop w checks).1 = checks.map fun h ↦ (checkOne w h).1 := by
  induction checks with
  | nil => rfl
  | cons h hs ih => exact congrArg _ ih

theorem checkLoop_outputs :
    (checkLoop w checks).2.1 = checks.flatMap fun h ↦ (checkOne w h).2 := by
  induction checks with
  | nil => rfl
  | cons h hs ih => exact congrArg _ ih

theorem round_fst : (round w checks).1 = checks.map fun h ↦ (checkOne w h).1 := checkLoop_fst

/-- The log and the state file follow the checks. -/
theorem restarts_round : restarts name (roundOutputs checks w) =
    restarts name (checks.flatMap fun h ↦ (checkOne w h).2) := by
  have hend : ∀ lines msg, restarts name
      ((if w.fopenState then [.state lines] else []) ++ [.log "INFO" msg]) = 0 := by
    intro lines msg
    cases w.fopenState <;> simp [restarts]
  show restarts name ((checkLoop w checks).2.1 ++ _ ++ _) = _
  rw [checkLoop_outputs, List.append_assoc, restarts_append, hend, Nat.add_zero]

/-- Checks of other services do not restart a service. -/
theorem restarts_flatMap_of_notMem (hname : name ∉ checks.map HealthCheck.name) :
    restarts name (checks.flatMap fun h ↦ (checkOne w h).2) = 0 := by
  induction checks with
  | nil => rfl
  | cons h hs ih =>
    rw [List.map_cons, List.mem_cons, not_or] at hname
    rw [List.flatMap_cons, restarts_append, ih hname.2, restarts_checkOne,
      if_neg fun hboth ↦ hname.1 hboth.1.symm]

/-- Among services with different names a restart is that of the service with the name. -/
theorem restarts_flatMap (hnd : (checks.map HealthCheck.name).Nodup) (hh : h ∈ checks) :
    restarts h.name (checks.flatMap fun h' ↦ (checkOne w h').2) =
      if (step 3 h.failCount (probe w h)).2 then 1 else 0 := by
  induction checks with
  | nil => cases hh
  | cons h' hs ih =>
    rw [List.map_cons, List.nodup_cons] at hnd
    rw [List.flatMap_cons, restarts_append, restarts_checkOne]
    rcases List.mem_cons.1 hh with rfl | hmem
    · rw [restarts_flatMap_of_notMem hnd.1, Nat.add_zero]
      simp
    · have hne : h'.name ≠ h.name := fun heq ↦ hnd.1 (heq ▸ List.mem_map_of_mem hmem)
      rw [ih hnd.2 hmem, if_neg fun hboth ↦ hne hboth.1, Nat.zero_add]

/-! ### All rounds -/

/-- A round changes only whether a service is healthy and its counter. -/
theorem map_round {β : Type*} {f : HealthCheck → β}
    (hf : ∀ (h : HealthCheck) up c, f { h with healthy := up, failCount := c } = f h) :
    (round w checks).1.map f = checks.map f := by
  rw [round_fst, List.map_map]
  refine List.map_congr_left fun h _ ↦ ?_
  rw [Function.comp_apply, checkOne_fst, hf]

/-- **Over some rounds** the counter of a service goes through the results of its probes, and the
service is restarted as often as the counter fires. -/
theorem run_check {ws : List World} (hrun : monitor.run checks ws = some checks')
    (hnd : (checks.map HealthCheck.name).Nodup) {i : ℕ} (hi : checks[i]? = some h) :
    ∃ h', checks'[i]? = some h' ∧ h'.failCount = count 3 h.failCount (ws.map (probe · h)) ∧
      restarts h.name (monitor.outputs roundOutputs checks ws) =
        fires 3 h.failCount (ws.map (probe · h)) := by
  induction ws generalizing checks h with
  | nil =>
    rw [Machine.run_nil, Option.some.injEq] at hrun
    exact ⟨h, hrun ▸ hi, rfl, rfl⟩
  | cons w ws ih =>
    rw [Machine.run_cons, monitor, Option.bind_some] at hrun
    have hnext : (round w checks).1[i]? = some (checkOne w h).1 := by
      rw [round_fst, List.getElem?_map, hi, Option.map_some]
    -- the check keeps the name and the path, so its probes are those of `h`
    have hprobe : (probe · (checkOne w h).1) = (probe · h) := by
      rw [checkOne_fst]
      rfl
    have hname : (checkOne w h).1.name = h.name := by rw [checkOne_fst]
    have hcount : (checkOne w h).1.failCount = (step 3 h.failCount (probe w h)).1 := by
      rw [checkOne_fst]
    obtain ⟨h', hh', hfail, hrestarts⟩ := ih hrun
      (by rwa [map_round fun _ _ _ ↦ rfl]) hnext
    rw [hprobe, hcount] at hfail hrestarts
    rw [hname] at hrestarts
    refine ⟨h', hh', hfail, ?_⟩
    rw [Machine.outputs, restarts_append, restarts_round,
      restarts_flatMap hnd (List.mem_of_getElem? hi)]
    exact congrArg (_ + ·) hrestarts

/-! ### The state file -/

theorem written_append (outs outs' : List Output) :
    written (outs ++ outs') = written outs ++ written outs' :=
  List.filterMap_append

/-- A check does not write the file. -/
theorem written_checkOne : written (checkOne w h).2 = [] := by
  refine List.filterMap_eq_nil_iff.2 fun out hout ↦ ?_
  rw [checkOne] at hout
  cases out with
  | log level msg => rfl
  | system cmd => rfl
  | state lines =>
    exfalso
    revert hout
    cases probe w h <;> cases h.healthy <;> rcases Nat.lt_or_ge (h.failCount + 1) 3 with hlt | hge
    all_goals simp_all [HealthCheck.record, restartService, Nat.not_le.2]

/-- A round writes the file once, if it can be opened. -/
theorem written_round : written (roundOutputs checks w) =
    if w.fopenState then [(saveHealthState (round w checks).1).lines] else [] := by
  have hchecks : written (checkLoop w checks).2.1 = [] := by
    rw [checkLoop_outputs, written, List.filterMap_flatMap, List.flatMap_eq_nil_iff]
    exact fun h _ ↦ written_checkOne
  show written ((checkLoop w checks).2.1 ++ _ ++ _) = _
  rw [written_append, written_append, hchecks]
  cases w.fopenState <;> rfl

/-- The services counted as healthy are those whose probes succeeded. -/
theorem healthy_saveHealthState :
    (saveHealthState (round w checks).1).healthy = checks.countP (probe w) := by
  show (round w checks).1.countP HealthCheck.healthy = _
  rw [round_fst, List.countP_map]
  refine List.countP_congr fun h _ ↦ ?_
  rw [Function.comp_apply, checkOne_fst]

/-- **A score** is a percentage. -/
theorem score_le : (saveHealthState checks).score ≤ 100 := by
  refine Nat.div_le_of_le_mul ?_
  exact Nat.mul_le_mul_right 100 List.countP_le_length

/-! ### The monitor -/

/-- What holds of a service `h` of the table after the rounds `ws`, when the table is `checks` and
`outs` was put out. -/
structure Counted (h : HealthCheck) (i : ℕ) (ws : List World) (checks : List HealthCheck)
    (outs : List Output) : Prop where
  /-- A restart for every three failures in a row. -/
  restarts : restarts h.name outs = ((failingRuns (ws.map (probe · h))).map (· / 3)).sum
  /-- The counter. -/
  failCount : ∃ h', checks[i]? = some h' ∧ h'.failCount = currentRun (ws.map (probe · h)) % 3
  /-- No restart in a round whose probe succeeds. -/
  quiet : ∀ w, probe w h = true → Health.restarts h.name (roundOutputs checks w) = 0

/-- What is written in a round that finds the services up which the probes say. -/
structure Scored (w : World) (s : HealthState) : Prop where
  /-- All services. -/
  total : s.total = healthChecks.length
  /-- Those that are up. -/
  healthy : s.healthy = healthChecks.countP (probe w)
  /-- The percentage, cut. -/
  score : s.score = 100 * s.healthy / s.total
  /-- It is one. -/
  le : s.score ≤ 100

theorem nodup_names : (healthChecks.map HealthCheck.name).Nodup := by decide

/-- The table keeps its names and paths. -/
theorem kept_of_run {ws : List World} (hrun : monitor.run healthChecks ws = some checks) :
    checks.map HealthCheck.name = healthChecks.map HealthCheck.name ∧
      checks.map HealthCheck.socketPath = healthChecks.map HealthCheck.socketPath := by
  refine Machine.invariant_of_run
    (I := fun cs ↦ cs.map HealthCheck.name = healthChecks.map HealthCheck.name ∧
      cs.map HealthCheck.socketPath = healthChecks.map HealthCheck.socketPath)
    ?_ ⟨rfl, rfl⟩ hrun
  rintro cs w cs' ⟨hname, hpath⟩ hstep
  obtain rfl := Option.some.inj hstep
  exact ⟨(map_round fun _ _ _ ↦ rfl).trans hname, (map_round fun _ _ _ ↦ rfl).trans hpath⟩

/-- A row of the table is about the same service as at the start. -/
theorem eq_of_map_eq {β : Type*} {f : HealthCheck → β} (hmap : checks.map f = checks'.map f) {i : ℕ}
    {h h' : HealthCheck} (hi : checks[i]? = some h) (hi' : checks'[i]? = some h') : f h = f h' := by
  have hrow := congrArg (·[i]?) hmap
  simpa [List.getElem?_map, hi, hi'] using hrow

theorem failCount_of_mem (hh : h ∈ healthChecks) : h.failCount = 0 := by
  have hall : ∀ c ∈ healthChecks, c.failCount = 0 := by decide
  exact hall h hh

/-- Restarts and counter of a service after some rounds. -/
theorem counted_of_run {ws : List World} (hrun : monitor.run healthChecks ws = some checks) {i : ℕ}
    (hi : healthChecks[i]? = some h) :
    Counted h i ws checks (monitor.outputs roundOutputs healthChecks ws) := by
  obtain ⟨hnames, hpaths⟩ := kept_of_run hrun
  obtain ⟨h', hh', hfail, hrestarts⟩ := run_check hrun nodup_names hi
  rw [failCount_of_mem (List.mem_of_getElem? hi)] at hfail hrestarts
  refine ⟨hrestarts.trans (fires_eq (by decide) _), ⟨h', hh', hfail.trans (count_eq (by decide) _)⟩,
    fun w hup ↦ ?_⟩
  have hup' : probe w h' = true := by rwa [probe, eq_of_map_eq hpaths hh' hi]
  rw [restarts_round, ← eq_of_map_eq hnames hh' hi, restarts_flatMap (hnames ▸ nodup_names)
    (List.mem_of_getElem? hh'), hup', step_true]
  rfl

/-- What a round writes after some rounds. -/
theorem scored_of_run {ws : List World} (hrun : monitor.run healthChecks ws = some checks)
    (w : World) : Scored w (saveHealthState (round w checks).1) := by
  obtain ⟨hnames, hpaths⟩ := kept_of_run hrun
  have htotal : (round w checks).1.length = healthChecks.length := by
    rw [round_fst, List.length_map]
    simpa using congrArg List.length hnames
  have hprobe : ∀ cs : List HealthCheck, cs.countP (probe w) =
      (cs.map HealthCheck.socketPath).countP
        fun path ↦ if isSocket path then w.connects path else w.accessible path := by
    intro cs
    rw [List.countP_map]
    rfl
  refine ⟨htotal, ?_, congrArg (· / _) (Nat.mul_comm _ _), score_le⟩
  rw [healthy_saveHealthState, hprobe, hpaths, ← hprobe]

/-- **The health monitor** restarts a service once for every three failures in a row and never
after a success, and writes the share of the services that are up: after any number of rounds,
whatever the probes find. -/
theorem monitor_spec (ws : List World) :
    ∃ checks, monitor.run healthChecks ws = some checks ∧
      (∀ i h, healthChecks[i]? = some h →
        Counted h i ws checks (monitor.outputs roundOutputs healthChecks ws)) ∧
      ∀ w, ∃ s, written (roundOutputs checks w) = (if w.fopenState then [s.lines] else []) ∧
        Scored w s := by
  obtain ⟨checks, hrun⟩ := monitor.exists_run_of_total (fun s w ↦ ⟨_, rfl⟩) healthChecks ws
  exact ⟨checks, hrun, fun i h hi ↦ counted_of_run hrun hi,
    fun w ↦ ⟨_, written_round, scored_of_run hrun w⟩⟩

/-- When no probe succeeds, a service is restarted in every third round. -/
theorem monitor_spec_down :
    restarts "julius_core" (monitor.outputs roundOutputs healthChecks
      (List.replicate 7 ⟨fun _ ↦ false, fun _ ↦ false, true⟩)) = 2 := by
  obtain ⟨checks, -, hcounted, -⟩ :=
    monitor_spec (List.replicate 7 ⟨fun _ ↦ false, fun _ ↦ false, true⟩)
  have hdown : ∀ h, probe ⟨fun _ ↦ false, fun _ ↦ false, true⟩ h = false := fun h ↦ ite_self _
  refine (hcounted 0 _ rfl).restarts.trans ?_
  rw [List.map_replicate, hdown]
  decide

end JuliusOS.Health
