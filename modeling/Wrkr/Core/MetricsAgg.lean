import Wrkr.Core.RequestMetrics
import Wrkr.Metrics.Agg

/-!
# Scenario summaries

`MetricComputer` answers for one scenario by queries on the registry. All of them filter by the
`scenario` tag; the latency also asks for series without a `protocol`, since every request is
recorded in one series with and in one without it.
-/
namespace Wrkr.Core

open Wrkr.Lib Wrkr.Metrics

variable {H F : Type} (hdr : HdrHistogram H F)

/-- The ids of the keys and values that the queries filter by. -/
structure TagKeys where
  scenario : KeyId
  protocol : KeyId
  status : KeyId
  name : KeyId
  fail : KeyId
  deriving DecidableEq, Repr

/-- They are interned once, before the first query. -/
def TagKeys.new (r : Registry H) : Registry H × TagKeys :=
  let (r, scenario) := r.resolveKey "scenario"
  let (r, protocol) := r.resolveKey "protocol"
  let (r, status) := r.resolveKey "status"
  let (r, name) := r.resolveKey "name"
  let (r, fail) := r.resolveKey "fail"
  (r, ⟨scenario, protocol, status, name, fail⟩)

/-- Failed checks in total and by the name of the check. -/
def computeChecksFailed (r : Registry H) (checksMetric : MetricId) (keys : TagKeys)
    (scenarioValue : KeyId) : UInt64 × HashTable String UInt64 :=
  let grouped := (((r.query checksMetric).whereEq keys.scenario scenarioValue).whereEq keys.status
    keys.fail).groupBy [keys.name] |>.sumCounter
  grouped.entries.foldl (fun (total, byName) (tags, v) =>
    let total := Metrics.saturatingAdd total v
    match (tags.get keys.name).bind r.resolveKeyId with
    | none => (total, byName)
    | some name =>
      let count := match byName.get? name with
        | some cur => Metrics.saturatingAdd cur v
        | none => v
      (total, byName.insert name count)) (0, HashTable.empty)

/-- The totals of a scenario and the summary of its latencies. -/
structure ScenarioSummary (F : Type) where
  scenario : String
  requestsTotal : UInt64
  failedRequestsTotal : UInt64
  bytesReceivedTotal : UInt64
  bytesSentTotal : UInt64
  iterationsTotal : UInt64
  checksFailedTotal : UInt64
  checksFailed : HashTable String UInt64
  latency : Option (HistogramSummary F)

/-- The metrics of the run together with the keys. -/
structure MetricComputer where
  requestIds : RequestMetricIds
  iterationIds : IterationMetricIds
  checksMetric : MetricId
  keys : TagKeys
  deriving DecidableEq, Repr

namespace MetricComputer

def new (r : Registry H) (requestIds : RequestMetricIds) (iterationIds : IterationMetricIds)
    (checksMetric : MetricId) : Registry H × MetricComputer :=
  let (r, keys) := TagKeys.new r
  (r, ⟨requestIds, iterationIds, checksMetric, keys⟩)

/-- The queries of the summary, for the interned name of the scenario. -/
def counterTotal (computer : MetricComputer) (r : Registry H) (metric : MetricId)
    (scenarioValue : KeyId) : UInt64 :=
  ((r.query metric).whereEq computer.keys.scenario scenarioValue).sumCounterTotal

/-- One query for each total. The latency is that without a protocol, since each request is in
both. -/
def computeScenarioSummary (computer : MetricComputer) (r : Registry H) (scenario : String) :
    Registry H × ScenarioSummary F :=
  let (r, scenarioValue) := r.resolveKey scenario
  let total (metric : MetricId) : UInt64 := computer.counterTotal r metric scenarioValue
  let (checksFailedTotal, checksFailed) :=
    computeChecksFailed r computer.checksMetric computer.keys scenarioValue
  let latency := ((r.query computer.requestIds.latency).whereEq computer.keys.scenario
    scenarioValue).whereMissing computer.keys.protocol |>.mergeHistogramSummarySingle hdr
  (r,
    { scenario
      requestsTotal := total computer.requestIds.requestsTotal
      failedRequestsTotal := total computer.requestIds.errorsTotal
      bytesReceivedTotal := total computer.requestIds.bytesReceivedTotal
      bytesSentTotal := total computer.requestIds.bytesSentTotal
      iterationsTotal := total computer.iterationIds.iterationsTotal
      checksFailedTotal
      checksFailed
      latency })

end MetricComputer

end Wrkr.Core
