import Wrkr.Cli.Output
import Wrkr.Core.Config
import Wrkr.Core.EvaluateThresholds
import Wrkr.Lib.JsonText

/-!
# The lines of the JSON output

One line for every progress update and one for the summary of the run. The types of the lines are
those that the source derives `Serialize` for, and their fields are written under the names of the
source in camel case. A float that is no number is written as `null`.
-/
namespace Wrkr.Cli.Ndjson

open Wrkr.Lib Wrkr.Core Wrkr.Metrics

variable {F : Type}

/-! ### Progress updates -/

/-- The fields that the lines are made of. -/
structure LiveMetrics (F : Type) where
  rpsNow : F
  bytesReceivedPerSecNow : UInt64
  bytesSentPerSecNow : UInt64
  requestsTotal : UInt64
  bytesReceivedTotal : UInt64
  bytesSentTotal : UInt64
  failedRequestsTotal : UInt64
  checksFailedTotal : UInt64
  reqPerSecAvg : F
  reqPerSecStdev : F
  reqPerSecMax : F
  reqPerSecStdevPct : F
  latencyMean : F
  latencyStdev : F
  latencyMax : UInt64
  latencyP50 : UInt64
  latencyP75 : UInt64
  latencyP90 : UInt64
  latencyP99 : UInt64
  latencyStdevPct : F
  iterationsTotal : UInt64
  deriving DecidableEq, Repr

/-- Of a stage only the target that holds now. -/
structure StageProgress where
  currentTarget : UInt64
  deriving DecidableEq, Repr

/-- What an update says of the executor. -/
inductive ScenarioProgress
  | constantVus (vus : UInt64)
  | rampingVus (stage : Option StageProgress)
  | rampingArrivalRate (activeVus maxVus droppedIterationsTotal : UInt64)
  deriving DecidableEq, Repr

/-- One update of the progress task for one scenario. -/
structure ProgressUpdate (F : Type) where
  tick : UInt64
  interval : Duration
  elapsed : Duration
  scenario : String
  exec : String
  metrics : LiveMetrics F
  progress : ScenarioProgress
  deriving DecidableEq, Repr

/-! ### Numbers -/

/-- What the lines need of `f64`. The duration of a run in seconds is a number. -/
structure Floats (F : Type) extends Json.FloatText F where
  asSecsF64 : Duration → F
  ofU64 : UInt64 → F
  ofBits : UInt64 → F
  /-- A number of microseconds in seconds. -/
  perMillion : F → F
  finite_asSecsF64 (d : Duration) : finite (asSecsF64 d) = true

/-- `serde_json` writes `null` for a number that is not finite. -/
def f64 (floats : Floats F) (x : F) : Json F := if floats.finite x then .float x else .null

def u64 (n : UInt64) : Json F := .int n.toNat

/-- `None` is written as `null`. -/
def option {α : Type} (json : α → Json F) : Option α → Json F
  | some x => json x
  | none => .null

/-- A `BTreeMap` of strings. -/
def stringMap (m : Std.TreeMap String String) : Json F :=
  .object (m.toList.map fun (k, v) => (k, .string v))

/-- The version that every line carries. -/
def NDJSON_SCHEMA : String := "wrkr.ndjson.v1"

/-! ### Progress lines -/

structure JsonProgressExecutor where
  kind : String
  vusActive : UInt64
  vusMax : Option UInt64
  droppedIterationsTotal : Option UInt64

structure JsonProgressLatencySeconds (F : Type) where
  mean : F
  stdev : F
  max : F
  p50 : F
  p75 : F
  p90 : F
  p99 : F
  stdevPct : F

structure JsonProgressMetrics (F : Type) where
  requestsPerSec : F
  bytesReceivedPerSec : UInt64
  bytesSentPerSec : UInt64
  totalRequests : UInt64
  totalFailedRequests : UInt64
  totalIterations : UInt64
  totalBytesReceived : UInt64
  totalBytesSent : UInt64
  checksFailedTotal : UInt64
  latencySeconds : JsonProgressLatencySeconds F
  reqPerSecAvg : F
  reqPerSecStdev : F
  reqPerSecMax : F
  reqPerSecStdevPct : F

structure JsonProgressLine (F : Type) where
  schema : String
  kind : String
  tick : UInt64
  elapsedSeconds : F
  intervalSeconds : F
  scenario : String
  exec : String
  executor : JsonProgressExecutor
  metrics : JsonProgressMetrics F

/-- The VUs now, their maximum and the dropped iterations, as far as the executor has them. -/
def scenarioProgressVus : ScenarioProgress → UInt64 × Option UInt64 × Option UInt64
  | .constantVus vus => (vus, some vus, none)
  | .rampingVus stage => ((stage.map StageProgress.currentTarget).getD 0, none, none)
  | .rampingArrivalRate activeVus maxVus dropped => (activeVus, some maxVus, some dropped)

/-- The name of the executor in the lines. -/
def scenarioProgressKind : ScenarioProgress → String
  | .constantVus .. => "constant-vus"
  | .rampingVus .. => "ramping-vus"
  | .rampingArrivalRate .. => "ramping-arrival-rate"

section Lines

variable (floats : Floats F)

/-- The times go from microseconds to seconds, everything else is copied. -/
def buildProgressLine (u : ProgressUpdate F) : JsonProgressLine F :=
  let (currentVus, maxVus, droppedIterationsTotal) := scenarioProgressVus u.progress
  -- latencies are measured in microseconds
  let usToSecs := floats.perMillion
  let u64UsToSecs (us : UInt64) := floats.perMillion (floats.ofU64 us)
  { schema := NDJSON_SCHEMA
    kind := "progress"
    tick := u.tick
    elapsedSeconds := floats.asSecsF64 u.elapsed
    intervalSeconds := floats.asSecsF64 u.interval
    scenario := u.scenario
    exec := u.exec
    executor :=
      { kind := scenarioProgressKind u.progress
        vusActive := currentVus
        vusMax := maxVus
        droppedIterationsTotal := droppedIterationsTotal }
    metrics :=
      { requestsPerSec := u.metrics.rpsNow
        bytesReceivedPerSec := u.metrics.bytesReceivedPerSecNow
        bytesSentPerSec := u.metrics.bytesSentPerSecNow
        totalRequests := u.metrics.requestsTotal
        totalFailedRequests := u.metrics.failedRequestsTotal
        totalIterations := u.metrics.iterationsTotal
        totalBytesReceived := u.metrics.bytesReceivedTotal
        totalBytesSent := u.metrics.bytesSentTotal
        checksFailedTotal := u.metrics.checksFailedTotal
        latencySeconds :=
          { mean := usToSecs u.metrics.latencyMean
            stdev := usToSecs u.metrics.latencyStdev
            max := u64UsToSecs u.metrics.latencyMax
            p50 := u64UsToSecs u.metrics.latencyP50
            p75 := u64UsToSecs u.metrics.latencyP75
            p90 := u64UsToSecs u.metrics.latencyP90
            p99 := u64UsToSecs u.metrics.latencyP99
            stdevPct := u.metrics.latencyStdevPct }
        reqPerSecAvg := u.metrics.reqPerSecAvg
        reqPerSecStdev := u.metrics.reqPerSecStdev
        reqPerSecMax := u.metrics.reqPerSecMax
        reqPerSecStdevPct := u.metrics.reqPerSecStdevPct } }

def JsonProgressExecutor.toJson (executor : JsonProgressExecutor) : Json F :=
  .object
    [("kind", .string executor.kind),
      ("vusActive", u64 executor.vusActive),
      ("vusMax", option u64 executor.vusMax),
      ("droppedIterationsTotal", option u64 executor.droppedIterationsTotal)]

def JsonProgressLatencySeconds.toJson (latency : JsonProgressLatencySeconds F) : Json F :=
  .object
    [("mean", f64 floats latency.mean),
      ("stdev", f64 floats latency.stdev),
      ("max", f64 floats latency.max),
      ("p50", f64 floats latency.p50),
      ("p75", f64 floats latency.p75),
      ("p90", f64 floats latency.p90),
      ("p99", f64 floats latency.p99),
      ("stdevPct", f64 floats latency.stdevPct)]

/-- The fields of the object, in the order in which they are written. -/
def JsonProgressMetrics.fields (metrics : JsonProgressMetrics F) : List (String × Json F) :=
  [("requestsPerSec", f64 floats metrics.requestsPerSec),
    ("bytesReceivedPerSec", u64 metrics.bytesReceivedPerSec),
    ("bytesSentPerSec", u64 metrics.bytesSentPerSec),
    ("totalRequests", u64 metrics.totalRequests),
    ("totalFailedRequests", u64 metrics.totalFailedRequests),
    ("totalIterations", u64 metrics.totalIterations),
    ("totalBytesReceived", u64 metrics.totalBytesReceived),
    ("totalBytesSent", u64 metrics.totalBytesSent),
    ("checksFailedTotal", u64 metrics.checksFailedTotal),
    ("latencySeconds", metrics.latencySeconds.toJson floats),
    ("reqPerSecAvg", f64 floats metrics.reqPerSecAvg),
    ("reqPerSecStdev", f64 floats metrics.reqPerSecStdev),
    ("reqPerSecMax", f64 floats metrics.reqPerSecMax),
    ("reqPerSecStdevPct", f64 floats metrics.reqPerSecStdevPct)]

/-- The metrics are flattened into an object of their own. -/
def JsonProgressLine.fields (line : JsonProgressLine F) : List (String × Json F) :=
  [("schema", .string line.schema),
    ("kind", .string line.kind),
    ("tick", u64 line.tick),
    ("elapsedSeconds", f64 floats line.elapsedSeconds),
    ("intervalSeconds", f64 floats line.intervalSeconds),
    ("scenario", .string line.scenario),
    ("exec", .string line.exec),
    ("executor", line.executor.toJson),
    ("metrics", .object (line.metrics.fields floats))]

/-! ### The summary line -/

structure JsonStage (F : Type) where
  durationSeconds : F
  target : UInt64

structure JsonScenarioExecutorConfig (F : Type) where
  kind : String
  vus : Option UInt64
  startVus : Option UInt64
  stages : Option (List (JsonStage F))
  startRate : Option UInt64
  timeUnitSeconds : Option F
  preAllocatedVus : Option UInt64
  maxVus : Option UInt64

structure JsonLatencySummarySeconds (F : Type) where
  p50 : Option F
  p75 : Option F
  p90 : Option F
  p95 : Option F
  p99 : Option F
  min : Option F
  max : Option F
  mean : Option F
  stdev : Option F
  count : UInt64

/-- The counts of a scenario with its configuration and its latencies. -/
structure JsonScenarioSummary (F : Type) extends Cli.JsonScenarioSummary where
  exec : Option String
  executor : Option (JsonScenarioExecutorConfig F)
  latencySeconds : Option (JsonLatencySummarySeconds F)

structure JsonThresholdViolation (F : Type) where
  metric : String
  tags : Std.TreeMap String String
  expression : String
  observed : Option F

structure JsonSummaryLine (F : Type) where
  schema : String
  kind : String
  scenarios : List (JsonScenarioSummary F)
  totals : JsonTotals
  violations : List (JsonThresholdViolation F)

def jsonStage (s : Stage) : JsonStage F := ⟨floats.asSecsF64 s.duration, s.target⟩

/-- Only the fields of the executor at hand are set. -/
def executorConfig (cfg : ScenarioConfig) : JsonScenarioExecutorConfig F :=
  match cfg.executor with
  | .constantVus vus =>
    { kind := "constant-vus"
      vus := some vus
      startVus := none
      stages := none
      startRate := none
      timeUnitSeconds := none
      preAllocatedVus := none
      maxVus := none }
  | .rampingVus startVus stages =>
    { kind := "ramping-vus"
      vus := none
      startVus := some startVus
      stages := some (stages.map (jsonStage floats))
      startRate := none
      timeUnitSeconds := none
      preAllocatedVus := none
      maxVus := none }
  | .rampingArrivalRate startRate timeUnit preAllocatedVus maxVus stages =>
    { kind := "ramping-arrival-rate"
      vus := none
      startVus := none
      stages := some (stages.map (jsonStage floats))
      startRate := some startRate
      timeUnitSeconds := some (floats.asSecsF64 timeUnit)
      preAllocatedVus := some preAllocatedVus
      maxVus := some maxVus }

/-- The microseconds of the histogram in seconds. -/
def latencySummarySeconds (l : HistogramSummary F) : JsonLatencySummarySeconds F :=
  let usToSecsOpt := Option.map floats.perMillion
  { p50 := usToSecsOpt l.p50
    p75 := usToSecsOpt l.p75
    p90 := usToSecsOpt l.p90
    p95 := usToSecsOpt l.p95
    p99 := usToSecsOpt l.p99
    min := usToSecsOpt l.min
    max := usToSecsOpt l.max
    mean := usToSecsOpt l.mean
    stdev := usToSecsOpt l.stdev
    count := l.count }

/-- The totals are those of `Cli.buildSummaryLine`. -/
def buildSummaryLine (summary : RunSummary F) (thresholdViolations : List ThresholdViolation)
    (scenarios : Option (List ScenarioConfig)) : JsonSummaryLine F :=
  let checksByScenario := parseChecksFromMetricSeries summary.metrics
  { schema := NDJSON_SCHEMA
    kind := "summary"
    scenarios := summary.scenarios.map fun s =>
      -- the first configuration with the name
      let cfg := scenarios.bind fun cfgs =>
        cfgs.find? fun (c : ScenarioConfig) => c.metricsCtx.scenario == s.scenario
      { scenario := s.scenario
        exec := cfg.map ScenarioConfig.exec
        executor := cfg.map (executorConfig floats)
        requestsTotal := s.requestsTotal
        failedRequestsTotal := s.failedRequestsTotal
        bytesReceivedTotal := s.bytesReceivedTotal
        bytesSentTotal := s.bytesSentTotal
        iterationsTotal := s.iterationsTotal
        checks := checksByScenario[s.scenario]?
        latencySeconds := s.latency.map (latencySummarySeconds floats) }
    totals := (Cli.buildSummaryLine summary).totals
    violations := thresholdViolations.map fun v =>
      { metric := v.metric
        tags := collect v.tags
        expression := v.expression
        observed := v.observed.map floats.ofBits } }

def JsonStage.toJson (stage : JsonStage F) : Json F :=
  .object [("durationSeconds", f64 floats stage.durationSeconds), ("target", u64 stage.target)]

def JsonScenarioExecutorConfig.toJson (executor : JsonScenarioExecutorConfig F) : Json F :=
  .object
    [("kind", .string executor.kind),
      ("vus", option u64 executor.vus),
      ("startVus", option u64 executor.startVus),
      ("stages", option (fun stages => .array (stages.map (JsonStage.toJson floats)))
        executor.stages),
      ("startRate", option u64 executor.startRate),
      ("timeUnitSeconds", option (f64 floats) executor.timeUnitSeconds),
      ("preAllocatedVus", option u64 executor.preAllocatedVus),
      ("maxVus", option u64 executor.maxVus)]

def JsonCheckSeriesSummary.toJson (series : JsonCheckSeriesSummary) : Json F :=
  .object
    [("name", .string series.name),
      ("group", option .string series.group),
      ("tags", stringMap series.tags),
      ("passed", u64 series.passed),
      ("failed", u64 series.failed)]

def JsonChecksSummary.toJson (checks : JsonChecksSummary) : Json F :=
  .object
    [("total", u64 checks.total),
      ("passed", u64 checks.passed),
      ("failed", u64 checks.failed),
      ("bySeries", .array (checks.bySeries.map JsonCheckSeriesSummary.toJson))]

def JsonLatencySummarySeconds.fields (latency : JsonLatencySummarySeconds F) :
    List (String × Json F) :=
  [("p50", option (f64 floats) latency.p50),
    ("p75", option (f64 floats) latency.p75),
    ("p90", option (f64 floats) latency.p90),
    ("p95", option (f64 floats) latency.p95),
    ("p99", option (f64 floats) latency.p99),
    ("min", option (f64 floats) latency.min),
    ("max", option (f64 floats) latency.max),
    ("mean", option (f64 floats) latency.mean),
    ("stdev", option (f64 floats) latency.stdev),
    ("count", u64 latency.count)]

def JsonScenarioSummary.fields (s : JsonScenarioSummary F) : List (String × Json F) :=
  [("scenario", .string s.scenario),
    ("exec", option .string s.exec),
    ("executor", option (JsonScenarioExecutorConfig.toJson floats) s.executor),
    ("requestsTotal", u64 s.requestsTotal),
    ("failedRequestsTotal", u64 s.failedRequestsTotal),
    ("bytesReceivedTotal", u64 s.bytesReceivedTotal),
    ("bytesSentTotal", u64 s.bytesSentTotal),
    ("iterationsTotal", u64 s.iterationsTotal),
    ("checks", option JsonChecksSummary.toJson s.checks),
    ("latencySeconds", option (fun latency => .object (latency.fields floats)) s.latencySeconds)]

def jsonTotalsFields (totals : JsonTotals) : List (String × Json F) :=
  [("requestsTotal", u64 totals.requestsTotal),
    ("failedRequestsTotal", u64 totals.failedRequestsTotal),
    ("bytesReceivedTotal", u64 totals.bytesReceivedTotal),
    ("bytesSentTotal", u64 totals.bytesSentTotal),
    ("iterationsTotal", u64 totals.iterationsTotal),
    ("checksFailedTotal", u64 totals.checksFailedTotal)]

def JsonThresholdViolation.toJson (violation : JsonThresholdViolation F) : Json F :=
  .object
    [("metric", .string violation.metric),
      ("tags", stringMap violation.tags),
      ("expression", .string violation.expression),
      ("observed", option (f64 floats) violation.observed)]

/-- The violations stand inside of an object `thresholds`. -/
def JsonSummaryLine.fields (line : JsonSummaryLine F) : List (String × Json F) :=
  [("schema", .string line.schema),
    ("kind", .string line.kind),
    ("scenarios", .array (line.scenarios.map fun s => .object (s.fields floats))),
    ("totals", .object (jsonTotalsFields line.totals)),
    ("thresholds", .object
      [("violations", .array (line.violations.map (JsonThresholdViolation.toJson floats)))])]

/-- The text that goes to the standard output. -/
def emitJsonLine (fields : List (String × Json F)) : List Char :=
  Json.dumps floats.text (.object fields) ++ ['\n']

/-! ### The numbers of a line -/

/-- Every float of the value is a number. -/
def Finite (v : Json F) : Prop := ∀ x ∈ v.floats, floats.finite x = true

variable {floats}

theorem finite_array {items : List (Json F)} :
    Finite floats (.array items) ↔ ∀ v ∈ items, Finite floats v := by
  unfold Finite
  rw [Json.floats]
  induction items with
  | nil => simp [Json.floatsOfItems]
  | cons v rest ih => simp [Json.floatsOfItems, or_imp, forall_and, ih]

theorem finite_object {fields : List (String × Json F)} :
    Finite floats (.object fields) ↔ ∀ field ∈ fields, Finite floats field.2 := by
  unfold Finite
  rw [Json.floats]
  induction fields with
  | nil => simp [Json.floatsOfFields]
  | cons field rest ih => simp [Json.floatsOfFields, or_imp, forall_and, ih]

@[simp] theorem finite_f64 (x : F) : Finite floats (f64 floats x) := by
  unfold f64
  split
  next number =>
    intro y member
    rw [List.mem_singleton.mp member]
    exact number
  next => exact nofun

@[simp] theorem finite_u64 (n : UInt64) : Finite floats (u64 n) := nofun

@[simp] theorem finite_string (s : String) : Finite floats (.string s) := nofun

theorem finite_option {α : Type} {json : α → Json F} (finite : ∀ x, Finite floats (json x))
    (x : Option α) : Finite floats (option json x) := by
  cases x with
  | none => exact nofun
  | some x => exact finite x

@[simp] theorem finite_stringMap (m : Std.TreeMap String String) :
    Finite floats (stringMap m) := by
  rw [stringMap, finite_object]
  intro field member
  obtain ⟨entry, -, rfl⟩ := List.mem_map.mp member
  exact finite_string entry.2

theorem finite_progress (line : JsonProgressLine F) :
    Finite floats (.object (line.fields floats)) := by
  simp [finite_object, JsonProgressLine.fields, JsonProgressExecutor.toJson,
    JsonProgressMetrics.fields, JsonProgressLatencySeconds.toJson, finite_option]

theorem finite_executor (executor : JsonScenarioExecutorConfig F) :
    Finite floats (executor.toJson floats) := by
  have stages (stages : List (JsonStage F)) :
      Finite floats (.array (stages.map (JsonStage.toJson floats))) := by
    simp [finite_array, finite_object, JsonStage.toJson]
  simp [finite_object, JsonScenarioExecutorConfig.toJson, finite_option, stages]

theorem finite_checks (checks : JsonChecksSummary) :
    Finite floats (JsonChecksSummary.toJson checks) := by
  simp [finite_object, finite_array, JsonChecksSummary.toJson, JsonCheckSeriesSummary.toJson,
    finite_option]

theorem finite_scenario (s : JsonScenarioSummary F) :
    Finite floats (.object (s.fields floats)) := by
  have latency (latency : JsonLatencySummarySeconds F) :
      Finite floats (.object (latency.fields floats)) := by
    simp [finite_object, JsonLatencySummarySeconds.fields, finite_option]
  simp [finite_object, JsonScenarioSummary.fields, finite_option, finite_executor, finite_checks,
    latency]

/-- A summary holds no number that is not finite: those have become `null`. -/
theorem finite_summary (line : JsonSummaryLine F) :
    Finite floats (.object (line.fields floats)) := by
  have scenarios : Finite floats (.array (line.scenarios.map fun s => .object (s.fields floats))) := by
    rw [finite_array]
    intro v member
    obtain ⟨s, -, rfl⟩ := List.mem_map.mp member
    exact finite_scenario s
  -- the observed values are the only floats of a violation
  have violations :
      Finite floats (.array (line.violations.map (JsonThresholdViolation.toJson floats))) := by
    simp [finite_array, finite_object, JsonThresholdViolation.toJson, finite_option]
  have totals : Finite floats (.object (jsonTotalsFields line.totals)) := by
    simp [finite_object, jsonTotalsFields]
  have thresholds : Finite floats (.object [("violations",
      .array (line.violations.map (JsonThresholdViolation.toJson floats)))]) := by
    simp [finite_object, violations]
  simp [finite_object, JsonSummaryLine.fields, scenarios, totals, thresholds]

end Lines

end Wrkr.Cli.Ndjson
