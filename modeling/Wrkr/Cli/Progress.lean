import Wrkr.Cli.Ndjson
import Wrkr.Core.Books
import Wrkr.Core.PacerLoop
import Wrkr.Core.RunSummary
import Wrkr.Core.ScenarioSummary
import Wrkr.Core.StageSnapshot
import Wrkr.Lib.Machine
import Wrkr.Lua.CallWork
import Wrkr.Metrics.RunningStats

/-!
# The progress task

Once a second the progress task asks the registry for the totals of every scenario, compares them
with those of the last tick and reports an update. Meanwhile the VUs go on: they register metrics,
intern strings and record, one step at a time, also between two queries of one update. A query is
one step here, and the floating-point numbers are rationals. `progress_updates_consistent` says what
the updates nevertheless add up to.
-/
namespace Wrkr.Cli.Progress

open Wrkr.Lib Wrkr.Core Wrkr.Metrics Wrkr.Core.Accounting Wrkr.Cli.Ndjson
open Wrkr.Lua.Group (Call)

variable {ι H : Type} (hdr : HdrHistogram H ℚ) (sqrt : ℚ → ℚ)

/-! ### One update -/

/-- The totals that the next update compares with. -/
structure ScenarioSnapshot where
  requestsTotal : UInt64 := 0
  bytesReceivedTotal : UInt64 := 0
  bytesSentTotal : UInt64 := 0
  failedRequestsTotal : UInt64 := 0
  checksFailedTotal : UInt64 := 0
  iterationsTotal : UInt64 := 0
  deriving DecidableEq, Repr

/-- `u64::saturating_sub`. -/
def saturatingSub (a b : UInt64) : UInt64 := UInt64.ofNat (a.toNat - b.toNat)

/-- The cast `x as u64`. -/
def toU64 (x : ℚ) : UInt64 := UInt64.ofNat (PacerLoop.wholePart x)

/-- `f64::round`: halves away from zero. -/
def round (x : ℚ) : ℚ := if 0 ≤ x then ⌊x + 1 / 2⌋ else -⌊-x + 1 / 2⌋

/-- The registry as each query finds it. -/
structure Seen (H : Type) where
  requests : Registry H
  bytesReceived : Registry H
  bytesSent : Registry H
  failed : Registry H
  iterations : Registry H
  checks : Registry H
  latency : Registry H

/-- The totals are returned twice: in what is reported and for the next update. Besides, there
are the failed checks by name and the statistics of the rates. -/
def computeLiveMetrics (computer : MetricComputer) (seen : Seen H) (scenarioValue : KeyId)
    (prev : Option ScenarioSnapshot) (dtSecs : ℚ) (rpsStats : RunningStats) :
    LiveMetrics ℚ × HashTable String UInt64 × ScenarioSnapshot × RunningStats :=
  let total (r : Registry H) (metric : MetricId) : UInt64 :=
    computer.counterTotal r metric scenarioValue
  let requestsTotal := total seen.requests computer.requestIds.requestsTotal
  let bytesReceivedTotal := total seen.bytesReceived computer.requestIds.bytesReceivedTotal
  let bytesSentTotal := total seen.bytesSent computer.requestIds.bytesSentTotal
  let failedRequestsTotal := total seen.failed computer.requestIds.errorsTotal
  let iterationsTotal := total seen.iterations computer.iterationIds.iterationsTotal
  let (checksFailedTotal, checksFailed) :=
    computeChecksFailed seen.checks computer.checksMetric computer.keys scenarioValue
  -- the series without a protocol, as the others would count every request twice
  let latency := ((seen.latency.query computer.requestIds.latency).whereEq computer.keys.scenario
    scenarioValue).whereMissing computer.keys.protocol |>.mergeHistogramSummarySingle hdr
  let snapshot : ScenarioSnapshot := ⟨requestsTotal, bytesReceivedTotal, bytesSentTotal,
    failedRequestsTotal, checksFailedTotal, iterationsTotal⟩
  -- `dt_secs.max(1e-9)`
  let dt := max dtSecs (1 / 10 ^ 9)
  let prev := prev.getD {}
  let reqDelta := saturatingSub snapshot.requestsTotal prev.requestsTotal
  let bytesInDelta := saturatingSub snapshot.bytesReceivedTotal prev.bytesReceivedTotal
  let bytesOutDelta := saturatingSub snapshot.bytesSentTotal prev.bytesSentTotal
  let rpsNow := reqDelta.toNat / dt
  -- the statistics are over the rates of the updates, not over time
  let rpsStats := rpsStats.push rpsNow
  let orZero (value : HistogramSummary ℚ → Option ℚ) : ℚ := (latency.bind value).getD 0
  let latencyMean := orZero HistogramSummary.mean
  let latencyStdev := orZero HistogramSummary.stdev
  ({ rpsNow
     bytesReceivedPerSecNow := toU64 (round (bytesInDelta.toNat / dt))
     bytesSentPerSecNow := toU64 (round (bytesOutDelta.toNat / dt))
     requestsTotal
     bytesReceivedTotal
     bytesSentTotal
     failedRequestsTotal
     checksFailedTotal
     reqPerSecAvg := rpsStats.mean
     reqPerSecStdev := rpsStats.stdev sqrt
     reqPerSecMax := rpsStats.max
     reqPerSecStdevPct := rpsStats.stdevPct sqrt
     latencyMean
     latencyStdev
     latencyMax := toU64 (orZero HistogramSummary.max)
     latencyP50 := toU64 (orZero HistogramSummary.p50)
     latencyP75 := toU64 (orZero HistogramSummary.p75)
     latencyP90 := toU64 (orZero HistogramSummary.p90)
     latencyP99 := toU64 (orZero HistogramSummary.p99)
     latencyStdevPct := if latencyMean > 0 then latencyStdev / latencyMean * 100 else 0
     iterationsTotal },
    checksFailed, snapshot, rpsStats)

/-! ### The loop -/

/-- What the task needs of the executor. -/
inductive ScenarioProgressInfo
  | constantVus (vus : UInt64)
  | rampingVus (schedule : RampingU64Schedule)
  | rampingArrivalRate (schedule : RampingU64Schedule) (maxVus : UInt64)

/-- A scenario as the task knows it. -/
structure ProgressScenario where
  name : String
  exec : String
  progress : ScenarioProgressInfo

/-- The last snapshot, if there is one, and the statistics of the rates. -/
structure ScenarioLiveState where
  prev : ScenarioSnapshot
  hasPrev : Bool
  rpsStats : RunningStats

/-- The derived `Default`. -/
def ScenarioLiveState.default : ScenarioLiveState := ⟨{}, false, .default⟩

/-- One tick of the interval, with the two readings of the clock. -/
structure Tick where
  id : UInt64
  interval : Duration
  elapsed : Duration

/-- An update, with the failed checks by name. -/
structure Emitted where
  update : ProgressUpdate ℚ
  checksFailed : HashTable String UInt64
  /-- Ghost: how much had been recorded when the first query was made. -/
  began : Nat
  /-- Ghost: and when the last one was. -/
  ended : Nat

/-- What `stage_snapshot_at` panics on is `none`. `active_vus` and `dropped_total` are loads from
the pacer. -/
def ScenarioProgressInfo.at (search : BinarySearch Duration) (elapsed : Duration)
    (activeVus droppedTotal : UInt64) : ScenarioProgressInfo → Option ScenarioProgress
  | .constantVus vus => some (.constantVus vus)
  | .rampingVus schedule => do
    let stage ← schedule.stageSnapshotAt search elapsed
    some (.rampingVus (stage.map fun st => ⟨st.currentTarget⟩))
  | .rampingArrivalRate schedule maxVus => do
    let _ ← schedule.stageSnapshotAt search elapsed
    some (.rampingArrivalRate activeVus maxVus droppedTotal)

/-- The average is set to the requests by the time since the start, and the deviation in percent
to that of this average. -/
def overall (metrics : LiveMetrics ℚ) (snapshot : ScenarioSnapshot) (elapsed : Duration) :
    LiveMetrics ℚ :=
  let reqPerSecAvg := snapshot.requestsTotal.toNat / max (PacerLoop.asSecs elapsed) (1 / 10 ^ 9)
  { metrics with
    reqPerSecAvg
    reqPerSecStdevPct := if reqPerSecAvg > 0 then metrics.reqPerSecStdev / reqPerSecAvg * 100 else 0 }

/-- The task: the start, `interval.tick()`, the second clock reading, the loop over the scenarios,
and the queries of `compute_live_metrics` on one of them. -/
inductive Pc (H : Type)
  | starting
  | waiting
  | ticked (interval : Duration)
  | reporting (tick : Tick) (left : List ProgressScenario)
  | querying (tick : Tick) (current : ProgressScenario) (left : List ProgressScenario)
    (scenarioValue : KeyId) (began : Nat) (seen : List (Registry H))

structure State (ι H : Type) where
  workers : Workers ι H
  /-- The time since the start. -/
  clock : Duration
  pc : Pc H
  computer : Option MetricComputer
  lastAt : Duration
  tickId : UInt64
  stateByScenario : HashTable String ScenarioLiveState
  emitted : List Emitted

/-- What the VUs have added to the cells. -/
def State.log (s : State ι H) : List Recording := s.workers.log.map Prod.snd

/-- The steps of the VUs, of the clock, and of the task with its two loads. A VU begins a call, and
goes on with what it is recording. -/
inductive Action (ι : Type)
  | call (vu : ι) (currentGroup : Option String) (call : Call)
  | proceed (vu : ι)
  | intern (key : String)
  | advance (clock : Duration)
  | task (activeVus droppedTotal : UInt64)

section Code

variable (search : BinarySearch Duration) (scenarios : List ProgressScenario)

/-- The end of an update, when the queries have been made. -/
def emit (s : State ι H) (tick : Tick) (current : ProgressScenario) (left : List ProgressScenario)
    (scenarioValue : KeyId) (began : Nat) (computer : MetricComputer) (seen : Seen H)
    (activeVus droppedTotal : UInt64) : Option (State ι H) := do
  let st := (s.stateByScenario.get? current.name).getD .default
  -- without an earlier update the differences are from zero
  let prev := if st.hasPrev then some st.prev else none
  let (metrics, checksFailed, snapshot, rpsStats) := computeLiveMetrics hdr sqrt computer seen
    scenarioValue prev (PacerLoop.asSecs tick.interval) st.rpsStats
  let progress ← current.progress.at search tick.elapsed activeVus droppedTotal
  let update : ProgressUpdate ℚ :=
    { tick := tick.id
      interval := tick.interval
      elapsed := tick.elapsed
      scenario := current.name
      exec := current.exec
      metrics := overall metrics snapshot tick.elapsed
      progress }
  some { s with
    pc := .reporting tick left
    stateByScenario := s.stateByScenario.insert current.name ⟨snapshot, true, rpsStats⟩
    emitted := s.emitted ++ [⟨update, checksFailed, began, s.log.length⟩] }

/-- One step of the task: everything up to its next await or query. -/
def taskStep (s : State ι H) (activeVus droppedTotal : UInt64) : Option (State ι H) :=
  match s.pc with
  | .starting =>
    let (registry, computer) := MetricComputer.new s.workers.registry metricIds.request
      metricIds.iteration metricIds.checks
    some { s with
      workers := { s.workers with registry }
      computer := some computer
      lastAt := s.clock
      pc := .waiting }
  | .waiting => some { s with
      tickId := Metrics.saturatingAdd s.tickId 1
      lastAt := s.clock
      pc := .ticked (s.clock.saturatingSub s.lastAt) }
  | .ticked interval => some { s with pc := .reporting ⟨s.tickId, interval, s.clock⟩ scenarios }
  | .reporting _ [] => some { s with pc := .waiting }
  | .reporting tick (current :: left) =>
    let (registry, value) := s.workers.registry.resolveKey current.name
    some { s with
      workers := { s.workers with registry }
      pc := .querying tick current left value s.log.length [] }
  | .querying tick current left value began seen => do
    let computer ← s.computer
    -- each query sees the registry of its own moment, the seventh is the last one
    match seen ++ [s.workers.registry] with
    | [requests, bytesReceived, bytesSent, failed, iterations, checks, latency] =>
      emit hdr sqrt search s tick current left value began computer
        ⟨requests, bytesReceived, bytesSent, failed, iterations, checks, latency⟩ activeVus
        droppedTotal
    | seen => some { s with pc := .querying tick current left value began seen }

variable [DecidableEq ι] (text : Lua.CustomMetrics.ToText) (metricsCtx : ι → MetricsContext)

/-- One step of a VU, of the clock or of the task. -/
def step (s : State ι H) : Action ι → Option (State ι H)
  | .call vu currentGroup call =>
    -- one call after the other on a VU
    if (s.workers.doing vu).idle then
      let work := call.work hdr text (metricsCtx vu) currentGroup .done
      some { s with workers := s.workers.begin vu work }
    else none
  | .proceed vu => (s.workers.proceed hdr vu).map fun workers => { s with workers }
  | .intern key =>
    some { s with
      workers := { s.workers with registry := (s.workers.registry.resolveKey key).1 } }
  | .advance clock => if s.clock.nanos ≤ clock.nanos then some { s with clock } else none
  | .task activeVus droppedTotal => taskStep hdr sqrt search scenarios s activeVus droppedTotal

/-- VUs, clock and task in any order, from the registrations of the run on. -/
def machine : Machine (State ι H) (Action ι) where
  init s := s = ⟨.init registered, .zero, .starting, none, .zero, 0, HashTable.empty, []⟩
  step := step hdr sqrt search scenarios text metricsCtx

end Code

/-- A custom metric that is recorded on is none of the run's, and an insert of `get_handle` still
finds its series absent. -/
def State.Allows (s : State ι H) : Action ι → Prop
  | .call _ _ call => call.OwnMetric
  | .proceed vu => (s.workers.doing vu).InsertsFresh s.workers.registry
  | .intern _ | .advance _ | .task _ _ => True

instance (s : State ι H) (a : Action ι) : Decidable (s.Allows a) :=
  match a with
  | .call _ _ call => inferInstanceAs (Decidable call.OwnMetric)
  | .proceed vu => inferInstanceAs (Decidable ((s.workers.doing vu).InsertsFresh _))
  | .intern _ | .advance _ | .task _ _ => .isTrue trivial

/-! ### The registry between the steps -/

/-- The counters that are asked for. -/
def counters : List MetricId :=
  [metricIds.request.requestsTotal, metricIds.request.bytesReceivedTotal,
    metricIds.request.bytesSentTotal, metricIds.request.errorsTotal,
    metricIds.iteration.iterationsTotal, metricIds.checks]

variable {hdr} {r : Registry H} {log : List Recording}

variable (hdr) in
/-- The counters hold what has been recorded. -/
def Current (r : Registry H) (log : List Recording) : Prop :=
  ∀ metric ∈ counters, ∀ predicate, Registry.recorded hdr metric predicate log < 2 ^ 64 →
    total predicate (weight hdr .counter) (r.visitSeries metric) =
      Registry.recorded hdr metric predicate log

/-- The counters are metrics of the run. -/
theorem counters_on_run {metric : MetricId} (member : metric ∈ counters) :
    ∃ i name, runMetrics[i]? = some (name, .counter) ∧ metric = UInt32.ofNat i := by
  simp only [counters, List.mem_cons, List.not_mem_nil, or_false] at member
  rcases member with rfl | rfl | rfl | rfl | rfl | rfl
  · exact ⟨0, _, rfl, rfl⟩
  · exact ⟨1, _, rfl, rfl⟩
  · exact ⟨2, _, rfl, rfl⟩
  · exact ⟨3, _, rfl, rfl⟩
  · exact ⟨6, _, rfl, rfl⟩
  · exact ⟨8, _, rfl, rfl⟩

/-- They are so at any moment, also with VUs in the middle of their recordings. -/
theorem current_of_sound {workers : Workers ι H} (sound : Sound hdr workers) :
    Current hdr workers.registry (workers.log.map Prod.snd) := by
  intro metric member
  obtain ⟨i, name, here, rfl⟩ := counters_on_run member
  exact (sound.held i name .counter here).totals

/-! ### Readings -/

/-- The filter of the failed checks of a scenario. -/
def failedIn (n : Interner) (scenario : String) (tags : TagSet) : Bool :=
  ofScenario n scenario tags && tags.get (n.idOf "status") = some (n.idOf "fail")

/-- The strings that the queries for a scenario filter by are interned. -/
structure Tagged (n : Interner) (scenario : String) : Prop where
  scenarioKey : n.Knows "scenario"
  statusKey : n.Knows "status"
  fail : n.Knows "fail"
  scenario : n.Knows scenario

theorem Tagged.later {n n' : Interner} {scenario : String} (tagged : Tagged n scenario)
    (ext : Interner.Extends n n') : Tagged n' scenario ∧
      ofScenario n' scenario = ofScenario n scenario ∧ failedIn n' scenario = failedIn n scenario := by
  have same : ofScenario n' scenario = ofScenario n scenario := by
    funext tags
    rw [ofScenario, ofScenario, ext.idOf_eq tagged.scenarioKey, ext.idOf_eq tagged.scenario]
  refine ⟨⟨ext.knows tagged.scenarioKey, ext.knows tagged.statusKey, ext.knows tagged.fail,
    ext.knows tagged.scenario⟩, same, ?_⟩
  funext tags
  rw [failedIn, failedIn, same, ext.idOf_eq tagged.statusKey, ext.idOf_eq tagged.fail]

/-- The counter, the filter and the total of each query. -/
def ScenarioSnapshot.readings (snapshot : ScenarioSnapshot) (n : Interner) (scenario : String) :
    List (MetricId × (TagSet → Bool) × UInt64) :=
  [(metricIds.request.requestsTotal, ofScenario n scenario, snapshot.requestsTotal),
    (metricIds.request.bytesReceivedTotal, ofScenario n scenario, snapshot.bytesReceivedTotal),
    (metricIds.request.bytesSentTotal, ofScenario n scenario, snapshot.bytesSentTotal),
    (metricIds.request.errorsTotal, ofScenario n scenario, snapshot.failedRequestsTotal),
    (metricIds.iteration.iterationsTotal, ofScenario n scenario, snapshot.iterationsTotal),
    (metricIds.checks, failedIn n scenario, snapshot.checksFailedTotal)]

variable (hdr) in
/-- The value is what the counter held at some moment between the two. -/
def ReadBetween (log : List Recording) (began ended : Nat)
    (reading : MetricId × (TagSet → Bool) × UInt64) : Prop :=
  ∃ k, began ≤ k ∧ k ≤ ended ∧
    (Registry.recorded hdr reading.1 reading.2.1 (log.take k) < 2 ^ 64 →
      reading.2.2.toNat = Registry.recorded hdr reading.1 reading.2.1 (log.take k))

/-- The keys of the computer are the interned ones. -/
structure Resolved (n : Interner) (computer : MetricComputer) : Prop where
  requestIds : computer.requestIds = metricIds.request
  iterationIds : computer.iterationIds = metricIds.iteration
  checksMetric : computer.checksMetric = metricIds.checks
  scenario : computer.keys.scenario = n.idOf "scenario" ∧ n.Knows "scenario"
  status : computer.keys.status = n.idOf "status" ∧ n.Knows "status"
  fail : computer.keys.fail = n.idOf "fail" ∧ n.Knows "fail"

theorem Resolved.later {n n' : Interner} {computer : MetricComputer}
    (resolved : Resolved n computer) (ext : Interner.Extends n n') : Resolved n' computer where
  requestIds := resolved.requestIds
  iterationIds := resolved.iterationIds
  checksMetric := resolved.checksMetric
  scenario := ⟨resolved.scenario.1.trans (ext.idOf_eq resolved.scenario.2).symm,
    ext.knows resolved.scenario.2⟩
  status := ⟨resolved.status.1.trans (ext.idOf_eq resolved.status.2).symm,
    ext.knows resolved.status.2⟩
  fail := ⟨resolved.fail.1.trans (ext.idOf_eq resolved.fail.2).symm, ext.knows resolved.fail.2⟩

theorem resolved_new (r : Registry H) :
    Resolved (TagKeys.new r).1.interner (MetricComputer.new r metricIds.request
      metricIds.iteration metricIds.checks).2 := by
  obtain ⟨scenario, -, status, -, fail⟩ := tagKeys_spec r (Interner.Extends.refl _)
  exact ⟨rfl, rfl, rfl, scenario, status, fail⟩

section Queries

variable {n : Interner} {computer : MetricComputer} (resolved : Resolved n computer)
  {scenario : String}

include resolved

theorem counterTotal_toNat (metric : MetricId) :
    (computer.counterTotal r metric (n.idOf scenario)).toNat =
      min (total (ofScenario n scenario) (weight hdr .counter) (r.visitSeries metric))
        (2 ^ 64 - 1) := by
  rw [MetricComputer.counterTotal, Query.sumCounterTotal_toNat rfl, resolved.scenario.1]
  congr 2
  funext tags
  simp [Query.matchesTags, Query.whereEq, Registry.query, TagFilter.matchesTags, ofScenario]

/-- The total of the failed checks, whatever their names resolve to. -/
theorem checksFailed_toNat
    (fits : total (failedIn n scenario) (weight hdr .counter) (r.visitSeries metricIds.checks) <
      2 ^ 64) :
    (computeChecksFailed r metricIds.checks computer.keys (n.idOf scenario)).1.toNat =
      total (failedIn n scenario) (weight hdr .counter) (r.visitSeries metricIds.checks) := by
  have filter : failedOf computer.keys (n.idOf scenario) = failedIn n scenario := by
    funext tags
    simp [failedOf, failedIn, ofScenario, resolved.scenario.1, resolved.status.1, resolved.fail.1]
  have groups := Query.countSum_sumCounter
    (failedQuery r computer.keys (n.idOf scenario) metricIds.checks)
  rw [funext (matchesTags_failedQuery r computer.keys (n.idOf scenario) metricIds.checks),
    filter] at groups
  -- the saturating sum over the groups is the sum, by induction on them
  have loop (entries : List (TagSet × UInt64)) (acc : UInt64 × HashTable String UInt64)
      (bounded : acc.1.toNat + (entries.map fun group => group.2.toNat).sum < 2 ^ 64) :
      (entries.foldl (addFailed r computer.keys) acc).1.toNat =
        acc.1.toNat + (entries.map fun group => group.2.toNat).sum := by
    induction entries generalizing acc with
    | nil => rfl
    | cons group rest ih =>
      rw [List.map_cons, List.sum_cons] at bounded ⊢
      have added : (addFailed r computer.keys acc group).1.toNat =
          acc.1.toNat + group.2.toNat := by
        rw [addFailed, saturatingAdd_toNat]
        omega
      rw [List.foldl_cons, ih _ (by omega), added]
      omega
  have sum := groups fits
  rw [computeChecksFailed_eq, loop _ _ (by
    change 0 + Query.countSum _ < 2 ^ 64
    rw [Nat.zero_add, sum]
    exact fits)]
  exact (Nat.zero_add _).trans sum

end Queries

/-- The totals of an update. -/
def snapshotOf (metrics : LiveMetrics ℚ) : ScenarioSnapshot :=
  ⟨metrics.requestsTotal, metrics.bytesReceivedTotal, metrics.bytesSentTotal,
    metrics.failedRequestsTotal, metrics.checksFailedTotal, metrics.iterationsTotal⟩

/-- What a result of `compute_live_metrics` says about its inputs. -/
structure Computes (prev : Option ScenarioSnapshot) (dtSecs : ℚ) (rpsStats : RunningStats)
    (metrics : LiveMetrics ℚ) (snapshot : ScenarioSnapshot) (rpsStats' : RunningStats) : Prop where
  totals : snapshotOf metrics = snapshot
  rate : metrics.rpsNow = (saturatingSub snapshot.requestsTotal (prev.getD {}).requestsTotal).toNat /
    max dtSecs (1 / 10 ^ 9)
  pushed : rpsStats' = rpsStats.push metrics.rpsNow
  max : metrics.reqPerSecMax = rpsStats'.max
  stdev : metrics.reqPerSecStdev = rpsStats'.stdev sqrt

section Update

variable (hdr) in
/-- The registry of some moment since `began`. -/
def SeenSince (log : List Recording) (began : Nat) (r : Registry H) : Prop :=
  ∃ k, began ≤ k ∧ k ≤ log.length ∧ Current hdr r (log.take k)

def Seen.list (seen : Seen H) : List (Registry H) :=
  [seen.requests, seen.bytesReceived, seen.bytesSent, seen.failed, seen.iterations, seen.checks,
    seen.latency]

/-- Every total is what its counter held at some moment of the update. -/
theorem computeLiveMetrics_spec {n : Interner} {computer : MetricComputer}
    (resolved : Resolved n computer) (scenario : String) {seen : Seen H} {began : Nat}
    (since : ∀ r ∈ seen.list, SeenSince hdr log began r) (prev : Option ScenarioSnapshot)
    (dtSecs : ℚ) (rpsStats : RunningStats) :
    ∃ metrics checksFailed snapshot rpsStats',
      computeLiveMetrics hdr sqrt computer seen (n.idOf scenario) prev dtSecs rpsStats =
        (metrics, checksFailed, snapshot, rpsStats') ∧
      Computes sqrt prev dtSecs rpsStats metrics snapshot rpsStats' ∧
      ∀ reading ∈ snapshot.readings n scenario, ReadBetween hdr log began log.length reading := by
  have counter {r : Registry H} (member : r ∈ seen.list) {metric : MetricId}
      (asked : metric ∈ counters) : ReadBetween hdr log began log.length
        (metric, ofScenario n scenario, computer.counterTotal r metric (n.idOf scenario)) := by
    obtain ⟨k, after, within, current⟩ := since r member
    refine ⟨k, after, within, fun fits => ?_⟩
    rw [counterTotal_toNat resolved, current metric asked _ fits]
    exact Nat.min_eq_left (Nat.le_sub_one_of_lt fits)
  refine ⟨_, _, _, _, rfl, ⟨rfl, rfl, rfl, rfl, rfl⟩, ?_⟩
  simp only [ScenarioSnapshot.readings, List.mem_cons, List.not_mem_nil, or_false,
    resolved.requestIds, resolved.iterationIds, resolved.checksMetric]
  rintro reading (rfl | rfl | rfl | rfl | rfl | rfl)
  · exact counter (by simp [Seen.list]) (by simp [counters])
  · exact counter (by simp [Seen.list]) (by simp [counters])
  · exact counter (by simp [Seen.list]) (by simp [counters])
  · exact counter (by simp [Seen.list]) (by simp [counters])
  · exact counter (by simp [Seen.list]) (by simp [counters])
  -- the failed checks are summed over their names, the other five are one counter each
  · obtain ⟨k, after, within, current⟩ := since seen.checks (by simp [Seen.list])
    refine ⟨k, after, within, fun fits => ?_⟩
    have held := current metricIds.checks (by simp [counters]) _ fits
    exact (checksFailed_toNat resolved (held ▸ fits)).trans held

end Update

/-! ### What the updates add up to -/

/-- The totals that an update reports. -/
def Emitted.snapshot (e : Emitted) : ScenarioSnapshot := snapshotOf e.update.metrics

/-- The seconds that the rates of the update are about. -/
def Emitted.seconds (e : Emitted) : ℚ := max (PacerLoop.asSecs e.update.interval) (1 / 10 ^ 9)

/-- The updates of one scenario. -/
def updatesOf (emitted : List Emitted) (scenario : String) : List Emitted :=
  emitted.filter fun e => e.update.scenario = scenario

def rates (updates : List Emitted) : List ℚ := updates.map fun e => e.update.metrics.rpsNow

variable (hdr) in
/-- What an update has said is still true: of the moments of its queries. -/
structure Reported (n : Interner) (log : List Recording) (e : Emitted) : Prop where
  within : e.began ≤ e.ended ∧ e.ended ≤ log.length
  tagged : Tagged n e.update.scenario
  readings : ∀ reading ∈ e.snapshot.readings n e.update.scenario,
    ReadBetween hdr log e.began e.ended reading

theorem ReadBetween.later {log' : List Recording} {began ended : Nat}
    {reading : MetricId × (TagSet → Bool) × UInt64}
    (read : ReadBetween hdr log began ended reading) (within : ended ≤ log.length)
    (longer : log <+: log') : ReadBetween hdr log' began ended reading := by
  obtain ⟨k, after, before, held⟩ := read
  obtain ⟨rest, rfl⟩ := longer
  refine ⟨k, after, before, ?_⟩
  rwa [List.take_append_of_le_length (before.trans within)]

theorem SeenSince.later {log' : List Recording} {began : Nat}
    (since : SeenSince hdr log began r) (longer : log <+: log') :
    SeenSince hdr log' began r := by
  obtain ⟨k, after, within, current⟩ := since
  refine ⟨k, after, within.trans longer.length_le, ?_⟩
  obtain ⟨rest, rfl⟩ := longer
  rwa [List.take_append_of_le_length within]

theorem Reported.later {n n' : Interner} {log' : List Recording} {e : Emitted}
    (reported : Reported hdr n log e) (ext : Interner.Extends n n') (longer : log <+: log') :
    Reported hdr n' log' e := by
  obtain ⟨within, tagged, readings⟩ := reported
  obtain ⟨tagged', same, failed⟩ := tagged.later ext
  refine ⟨⟨within.1, within.2.trans longer.length_le⟩, tagged', fun reading member => ?_⟩
  rw [ScenarioSnapshot.readings, same, failed] at member
  exact (readings reading member).later within.2 longer

/-- What the task remembers of a scenario is about its updates so far. -/
structure Remembers (state : Option ScenarioLiveState) (updates : List Emitted) : Prop where
  prev : (if (state.getD .default).hasPrev then some (state.getD .default).prev else none) =
    updates.getLast?.map Emitted.snapshot
  rpsStats : (state.getD .default).rpsStats = RunningStats.pushAll (rates updates)

/-- The statistics that the last update reports. -/
def Summarized (updates : List Emitted) : Prop :=
  ∀ e, updates.getLast? = some e →
    e.update.metrics.reqPerSecMax = (RunningStats.pushAll (rates updates)).max ∧
    e.update.metrics.reqPerSecStdev = (RunningStats.pushAll (rates updates)).stdev sqrt ∧
    e.update.metrics.reqPerSecAvg = e.update.metrics.requestsTotal.toNat /
      max (PacerLoop.asSecs e.update.elapsed) (1 / 10 ^ 9)

/-- The rates over their intervals add up to the requests of the last update. -/
def Integrates (updates : List Emitted) : Prop :=
  (updates.map fun e => e.update.metrics.rpsNow * e.seconds).sum =
    ((updates.getLast?.map fun e => e.update.metrics.requestsTotal.toNat).getD 0 : ℕ)

variable (hdr) in
/-- During an update: the queries made so far have seen registries since it began, and all earlier
updates have ended before. -/
def Pc.Ok (n : Interner) (log : List Recording) (emitted : List Emitted) : Pc H → Prop
  | .querying _ current _ scenarioValue began seen =>
    began ≤ log.length ∧ (∀ e ∈ emitted, e.ended ≤ began) ∧
      (scenarioValue = n.idOf current.name ∧ n.Knows current.name) ∧
      ∀ r ∈ seen, SeenSince hdr log began r
  | .starting | .waiting | .ticked _ | .reporting _ _ => True

variable (hdr) in
/-- All that holds between two steps: the books of the VUs, the keys of the task, and what the
updates so far add up to. -/
structure Inv (s : State ι H) : Prop where
  sound : Sound hdr s.workers
  computer : ∀ computer, s.computer = some computer →
    Resolved s.workers.registry.interner computer
  pc : s.pc.Ok hdr s.workers.registry.interner s.log s.emitted
  reported : ∀ e ∈ s.emitted, Reported hdr s.workers.registry.interner s.log e
  ordered : s.emitted.Pairwise fun earlier later => earlier.ended ≤ later.began
  remembers : ∀ scenario,
    Remembers (s.stateByScenario.get? scenario) (updatesOf s.emitted scenario)
  summarized : ∀ scenario, Summarized sqrt (updatesOf s.emitted scenario)
  integrates : ∀ scenario, Registry.recorded hdr metricIds.request.requestsTotal
      (ofScenario s.workers.registry.interner scenario) s.log < 2 ^ 64 →
    Integrates (updatesOf s.emitted scenario)

variable {sqrt} {s s' : State ι H}

/-- The VUs go on, in the registry and with what they record. -/
theorem Inv.later (inv : Inv hdr sqrt s) {workers : Workers ι H} (sound : Sound hdr workers)
    (ext : Interner.Extends s.workers.registry.interner workers.registry.interner)
    (longer : s.log <+: workers.log.map Prod.snd) : Inv hdr sqrt { s with workers } where
  sound := sound
  computer computer is := (inv.computer computer is).later ext
  pc := by
    have ok := inv.pc
    cases here : s.pc with
    | querying tick current left scenarioValue began seen =>
      rw [here] at ok
      obtain ⟨before, after, ⟨value, known⟩, since⟩ := ok
      exact ⟨before.trans longer.length_le, after,
        ⟨value.trans (ext.idOf_eq known).symm, ext.knows known⟩,
        fun r member => (since r member).later longer⟩
    | _ => trivial
  reported e member := (inv.reported e member).later ext longer
  ordered := inv.ordered
  remembers := inv.remembers
  summarized := inv.summarized
  integrates scenario fits := by
    cases updates : updatesOf s.emitted scenario with
    | nil => simp [Integrates]
    | cons e rest =>
      -- it has been reported, so its tag has not changed
      have member : e ∈ updatesOf s.emitted scenario := by rw [updates]; exact List.mem_cons_self
      obtain ⟨inEmitted, isScenario⟩ := List.mem_filter.mp member
      have name := of_decide_eq_true isScenario
      have same := ((inv.reported e inEmitted).tagged.later ext).2.1
      rw [name] at same
      rw [← updates]
      refine inv.integrates scenario ?_
      dsimp only [State.log] at fits
      rw [same] at fits
      obtain ⟨rest', isLog⟩ := longer
      rw [← isLog, Registry.recorded_append] at fits
      omega

/-! ### The steps of the task -/

variable (hdr log) in
theorem recorded_take_mono (metric : MetricId) (predicate : TagSet → Bool) {k k' : Nat}
    (le : k ≤ k') : Registry.recorded hdr metric predicate (log.take k) ≤
      Registry.recorded hdr metric predicate (log.take k') := by
  obtain ⟨rest, split⟩ := List.take_prefix_take_left (l := log) le
  rw [← split, Registry.recorded_append]
  exact Nat.le_add_right _ _

/-- Of two readings of one total the later one is no smaller. -/
theorem ReadBetween.le {began ended began' ended' : Nat} {metric : MetricId}
    {predicate : TagSet → Bool} {earlier later : UInt64}
    (read : ReadBetween hdr log began ended (metric, predicate, earlier))
    (read' : ReadBetween hdr log began' ended' (metric, predicate, later)) (before : ended ≤ began')
    (fits : Registry.recorded hdr metric predicate log < 2 ^ 64) :
    earlier.toNat ≤ later.toNat := by
  obtain ⟨k, -, within, held⟩ := read
  obtain ⟨k', after, -, held'⟩ := read'
  -- a part of the log has recorded no more than all of it
  have all (k : Nat) : Registry.recorded hdr metric predicate (log.take k) < 2 ^ 64 := by
    refine lt_of_le_of_lt ?_ fits
    have whole := recorded_take_mono hdr log metric predicate
      (Nat.le_max_left k log.length)
    rwa [List.take_of_length_le (Nat.le_max_right k log.length)] at whole
  rw [held (all k), held' (all k')]
  exact recorded_take_mono hdr log metric predicate (within.trans (before.trans after))

theorem updatesOf_concat (emitted : List Emitted) (e : Emitted) (scenario : String) :
    updatesOf (emitted ++ [e]) scenario =
      if e.update.scenario = scenario then updatesOf emitted scenario ++ [e]
      else updatesOf emitted scenario := by
  rw [updatesOf, List.filter_append]
  split_ifs with same
  · simp [updatesOf, same]
  · simp [updatesOf, same]

theorem saturatingSub_toNat (a b : UInt64) : (saturatingSub a b).toNat = a.toNat - b.toNat := by
  rw [saturatingSub, UInt64.toNat_ofNat']
  have := a.toNat_lt
  omega

/-- One more update adds the difference of the totals, as a rate over its interval. -/
theorem Integrates.concat {updates : List Emitted} (integrates : Integrates updates) {e : Emitted}
    (rate : e.update.metrics.rpsNow = (saturatingSub e.update.metrics.requestsTotal
      ((updates.getLast?.map Emitted.snapshot).getD {}).requestsTotal).toNat / e.seconds)
    (rises : ∀ last, updates.getLast? = some last →
      last.update.metrics.requestsTotal.toNat ≤ e.update.metrics.requestsTotal.toNat) :
    Integrates (updates ++ [e]) := by
  -- an interval counts as a nanosecond at least
  have positive : e.seconds ≠ 0 := by
    have : (0 : ℚ) < 1 / 10 ^ 9 := by norm_num
    exact (lt_of_lt_of_le this (le_max_right _ _)).ne'
  rw [Integrates] at integrates ⊢
  rw [List.map_append, List.sum_append, integrates, List.map_singleton, List.sum_singleton, rate,
    saturatingSub_toNat, div_mul_cancel₀ _ positive, List.getLast?_concat]
  cases before : updates.getLast? with
  | none => simp
  | some last =>
    -- the totals rise, so the difference does not saturate
    have le := rises last before
    simp only [Option.map_some, Option.getD_some, Emitted.snapshot, snapshotOf]
    rw [Nat.cast_sub le]
    ring

/-- The end of an update. -/
theorem Inv.emit (inv : Inv hdr sqrt s) {tick : Tick} {current : ProgressScenario}
    {left : List ProgressScenario} {scenarioValue : KeyId} {began : Nat}
    {waited : List (Registry H)}
    (querying : s.pc = .querying tick current left scenarioValue began waited)
    {computer : MetricComputer} (resolved : Resolved s.workers.registry.interner computer)
    (seen : Seen H) (since : ∀ r ∈ seen.list, SeenSince hdr s.log began r)
    {search : BinarySearch Duration} {activeVus droppedTotal : UInt64}
    (taken : emit hdr sqrt search s tick current left scenarioValue began computer seen activeVus
      droppedTotal = some s') : Inv hdr sqrt s' := by
  -- what the queries have seen is from between the first one and the last one
  have ok := inv.pc
  rw [querying] at ok
  obtain ⟨within, after, ⟨rfl, known⟩, -⟩ := ok
  obtain ⟨prev, rpsStats⟩ := inv.remembers current.name
  rw [Progress.emit] at taken
  generalize (s.stateByScenario.get? current.name).getD .default = st at taken prev rpsStats
  obtain ⟨metrics, checksFailed, snapshot, rpsStats', isResult, computes, readings⟩ :=
    computeLiveMetrics_spec sqrt resolved current.name since
      (if st.hasPrev then some st.prev else none) (PacerLoop.asSecs tick.interval) st.rpsStats
  rw [isResult] at taken
  obtain ⟨progress, -, rest⟩ := Option.bind_eq_some_iff.mp taken
  cases rest
  rw [prev] at computes
  -- the state of the scenario keeps the statistics of all its rates, this one included
  have stats (e : Emitted) (rate : e.update.metrics.rpsNow = metrics.rpsNow) :
      rpsStats' = RunningStats.pushAll (rates (updatesOf s.emitted current.name ++ [e])) := by
    rw [rates, List.map_append, List.map_singleton, RunningStats.pushAll_concat, rate]
    rw [rates] at rpsStats
    rw [← rpsStats]
    exact computes.pushed
  refine ⟨inv.sound, inv.computer, trivial, ?_, ?_, ?_, ?_, ?_⟩
  · intro e member
    rcases List.mem_append.mp member with old | new
    · exact inv.reported e old
    · cases List.mem_singleton.mp new
      refine ⟨⟨within, le_rfl⟩, ⟨resolved.scenario.2, resolved.status.2, resolved.fail.2, known⟩, ?_⟩
      rw [← computes.totals] at readings
      exact readings
  -- the earlier updates had ended when the first query was made
  · refine List.pairwise_append.mpr ⟨inv.ordered, List.pairwise_singleton _ _, ?_⟩
    intro earlier old later new
    cases List.mem_singleton.mp new
    exact after earlier old
  · intro scenario
    rw [updatesOf_concat, HashTable.get?_insert]
    by_cases same : current.name = scenario
    · subst same
      rw [if_pos rfl, if_pos rfl]
      refine ⟨?_, ?_⟩
      · rw [List.getLast?_concat]
        exact congrArg some computes.totals.symm
      · exact stats _ rfl
    · rw [if_neg same, if_neg (Ne.symm same)]
      exact inv.remembers scenario
  · intro scenario
    rw [updatesOf_concat]
    split_ifs with same
    · cases same
      intro e last
      rw [List.getLast?_concat] at last
      cases last
      rw [← stats _ rfl]
      refine ⟨computes.max, computes.stdev, ?_⟩
      rw [← computes.totals]
      rfl
    · exact inv.summarized scenario
  · intro scenario fits
    rw [updatesOf_concat]
    split_ifs with same
    · cases same
      -- the sum telescopes because the total of this update is not below that of the last one
      refine (inv.integrates _ fits).concat ?_ ?_
      · rw [← computes.totals] at computes
        exact computes.rate
      · intro last isLast
        have member := List.mem_of_getLast? isLast
        obtain ⟨old, isName⟩ := List.mem_filter.mp member
        have name : last.update.scenario = current.name := of_decide_eq_true isName
        have read := (inv.reported last old).readings
          (metricIds.request.requestsTotal,
            ofScenario s.workers.registry.interner last.update.scenario,
            last.snapshot.requestsTotal) List.mem_cons_self
        have read' := readings (metricIds.request.requestsTotal,
          ofScenario s.workers.registry.interner current.name, snapshot.requestsTotal)
          List.mem_cons_self
        rw [name] at read
        have le := read.le read' (after last old) fits
        rw [← computes.totals] at le
        exact le
    · exact inv.integrates scenario fits

/-- A step that only moves the task, or the clock. -/
theorem Inv.goto (inv : Inv hdr sqrt s) (pc : Pc H) (clock lastAt : Duration) (tickId : UInt64)
    (ok : pc.Ok hdr s.workers.registry.interner s.log s.emitted) :
    Inv hdr sqrt { s with pc, clock, lastAt, tickId } :=
  ⟨inv.sound, inv.computer, ok, inv.reported, inv.ordered, inv.remembers, inv.summarized,
    inv.integrates⟩

/-- The first step interns the keys of the filters. -/
theorem inv_start (inv : Inv hdr sqrt s) : Inv hdr sqrt { s with
    workers := { s.workers with registry := (TagKeys.new s.workers.registry).1 }
    computer := some (MetricComputer.new s.workers.registry metricIds.request metricIds.iteration
      metricIds.checks).2
    lastAt := s.clock
    pc := .waiting } := by
  have evolves := (evolves_tagKeys hdr s.workers.registry).interner
  -- only strings are interned, so the books of the VUs stay as they are
  have same : s.workers.registry.withInterner (TagKeys.new s.workers.registry).1.interner =
      (TagKeys.new s.workers.registry).1 := by
    rw [tagKeys_registry]
    rfl
  have sound := inv.sound.withInterner (evolves.2 inv.sound.interner) evolves.1
  rw [same] at sound
  have later := inv.later sound evolves.1 (List.prefix_refl _)
  refine ⟨later.sound, ?_, trivial, later.reported, later.ordered, later.remembers,
    later.summarized, later.integrates⟩
  rintro computer is
  cases is
  exact resolved_new s.workers.registry

/-- Every step of the task keeps the invariant; only the end of an update has something to prove. -/
theorem inv_taskStep {search : BinarySearch Duration} {scenarios : List ProgressScenario}
    {activeVus droppedTotal : UInt64} (inv : Inv hdr sqrt s)
    (taken : taskStep hdr sqrt search scenarios s activeVus droppedTotal = some s') :
    Inv hdr sqrt s' := by
  have ok := inv.pc
  rw [taskStep] at taken
  split at taken
  next =>
    cases taken
    exact inv_start inv
  next =>
    cases taken
    exact inv.goto _ _ _ _ trivial
  next =>
    cases taken
    exact inv.goto _ _ _ _ trivial
  next =>
    cases taken
    exact inv.goto _ _ _ _ trivial
  next tick current left _ =>
    cases taken
    have ext := Interner.getOrIntern_extends s.workers.registry.interner current.name
    have sound := inv.sound.withInterner (inv.sound.interner.getOrIntern current.name) ext
    have later := inv.later sound ext (List.prefix_refl _)
    refine later.goto _ s.clock s.lastAt s.tickId ?_
    refine ⟨le_rfl, fun e member => (inv.reported e member).within.2, ?_, by simp⟩
    exact Registry.resolveKey_spec (r := s.workers.registry) current.name (Interner.Extends.refl _)
  next tick current left scenarioValue began waited querying =>
    rw [querying] at ok
    obtain ⟨computer, isComputer, rest⟩ := Option.bind_eq_some_iff.mp taken
    obtain ⟨within, after, value, since⟩ := ok
    -- one more query, of what the registry holds now
    have all : ∀ r ∈ waited ++ [s.workers.registry], SeenSince hdr s.log began r := by
      intro r member
      rcases List.mem_append.mp member with old | new
      · exact since r old
      · cases List.mem_singleton.mp new
        exact ⟨s.log.length, within, le_rfl, by
          rw [List.take_length]
          exact current_of_sound inv.sound⟩
    split at rest
    next requests bytesReceived bytesSent failed iterations checks latency seen =>
      rw [seen] at all
      exact inv.emit querying (inv.computer computer isComputer)
        ⟨requests, bytesReceived, bytesSent, failed, iterations, checks, latency⟩ all rest
    next =>
      cases rest
      exact inv.goto _ s.clock s.lastAt s.tickId ⟨within, after, value, all⟩

section Steps

variable [DecidableEq ι] {search : BinarySearch Duration} {scenarios : List ProgressScenario}
  {text : Lua.CustomMetrics.ToText} {metricsCtx : ι → MetricsContext}

/-- Every step keeps the invariant. What the VUs do makes the log longer and the interner larger,
and nothing else of it matters here. -/
theorem inv_step (lawful : hdr.Lawful) {a : Action ι} (inv : Inv hdr sqrt s) (allowed : s.Allows a)
    (taken : step hdr sqrt search scenarios text metricsCtx s a = some s') :
    Inv hdr sqrt s' := by
  cases a with
  | call vu currentGroup call =>
    rw [step] at taken
    split at taken
    next idle =>
      cases taken
      have proper : Proper (call.work hdr text (metricsCtx vu) currentGroup .done) :=
        (Call.writes allowed text .done).proper trivial
      exact inv.later (inv.sound.begin idle proper) (Interner.Extends.refl _) (List.prefix_refl _)
    next => cases taken
  | proceed vu =>
    obtain ⟨workers, next, rfl⟩ := Option.map_eq_some_iff.mp taken
    obtain ⟨sound, lasts⟩ := inv.sound.proceed lawful allowed next
    refine inv.later sound lasts.interner ?_
    obtain ⟨⟨registry, worker⟩, -, rfl⟩ := Option.map_eq_some_iff.mp next
    rw [List.map_append]
    -- the log only becomes longer
    exact List.prefix_append _ _
  | intern key =>
    cases taken
    have ext := Interner.getOrIntern_extends s.workers.registry.interner key
    exact inv.later (inv.sound.withInterner (inv.sound.interner.getOrIntern key) ext) ext
      (List.prefix_refl _)
  | advance clock =>
    rw [step] at taken
    split at taken
    · cases taken
      exact inv.goto s.pc clock s.lastAt s.tickId inv.pc
    · cases taken
  -- the reading task has its own lemma
  | task activeVus droppedTotal => exact inv_taskStep inv taken

theorem inv_reachable (lawful : hdr.Lawful)
    (run : (machine hdr sqrt search scenarios text metricsCtx).ReachableBy State.Allows s) :
    Inv hdr sqrt s := by
  refine run.invariant (Inv hdr sqrt) ?_
    fun s a s' inv allowed taken => inv_step lawful inv allowed taken
  intro s start
  change s = ⟨.init registered, _, _, _, _, _, _, _⟩ at start
  have sound : Sound hdr (.init registered : Workers ι H) := sound_init hdr
  -- only that it holds nothing matters of the first registry
  generalize (Workers.init registered : Workers ι H) = workers at start sound
  subst start
  refine ⟨sound, ?_, trivial, ?_, List.Pairwise.nil, ?_, ?_, ?_⟩
  · rintro computer ⟨⟩
  · simp
  · exact fun scenario => ⟨rfl, rfl⟩
  · intro scenario e last
    cases last
  · intro scenario _
    simp [Integrates, updatesOf]

end Steps

/-- The totals of a snapshot. -/
def ScenarioSnapshot.fields : List (ScenarioSnapshot → UInt64) :=
  [requestsTotal, bytesReceivedTotal, bytesSentTotal, failedRequestsTotal, iterationsTotal,
    checksFailedTotal]

end Wrkr.Cli.Progress
