import Wrkr.Metrics.Registry

/-!
# Request and iteration metrics

What a run records for each request and each iteration. A request goes to the protocol-scoped
counters, to the error counters when it failed, and to the latency histogram twice: once without
and once with the protocol. Tags given by the script come after the base tags, without those that
carry a reserved name.
-/
namespace Wrkr.Core

open Wrkr.Metrics

variable {H F : Type} (hdr : HdrHistogram H F)

inductive Protocol
  | http
  | grpc
  deriving DecidableEq, Repr

def Protocol.asStr : Protocol → String
  | .http => "http"
  | .grpc => "grpc"

/-- `duration.as_micros().try_into().unwrap_or(u64::MAX)`, of a duration in nanoseconds. -/
def micros (nanos : Nat) : UInt64 := UInt64.ofNat (min (nanos / 1000) (2 ^ 64 - 1))

/-- What is recorded of a duration: at least one microsecond. -/
def recordedMicros (nanos : Nat) : UInt64 := max (micros nanos) 1

/-- The `resolve` closure: base tags, then the extra tags that are not reserved. -/
def resolveWith (r : Registry H) (reserved : List String) (extraTags base : List (String × String)) :
    Registry H × TagSet :=
  if extraTags.isEmpty then r.resolveTags base
  else r.resolveTags (base ++ extraTags.filter fun tag => tag.1 ∉ reserved)

/-! ### Requests -/

/-- The metrics of requests, of all protocols. -/
structure RequestMetricIds where
  requestsTotal : MetricId
  bytesReceivedTotal : MetricId
  bytesSentTotal : MetricId
  errorsTotal : MetricId
  errorsByKindTotal : MetricId
  latency : MetricId
  deriving DecidableEq, Repr

/-- What is known of a request when it is over. -/
structure RequestSample where
  scenario : String
  protocol : Protocol
  ok : Bool
  latency : Nat
  bytesReceived : UInt64
  bytesSent : UInt64
  errorKind : Option String
  deriving DecidableEq, Repr

namespace RequestMetricIds

/-- Six metrics, in this order. -/
def register (r : Registry H) : Registry H × RequestMetricIds :=
  let (r, requestsTotal) := r.register "requests_total" .counter
  let (r, bytesReceivedTotal) := r.register "bytes_received_total" .counter
  let (r, bytesSentTotal) := r.register "bytes_sent_total" .counter
  let (r, errorsTotal) := r.register "request_errors_total" .counter
  let (r, errorsByKindTotal) := r.register "request_errors_by_kind_total" .counter
  let (r, latency) := r.register "request_latency" .histogram
  (r, ⟨requestsTotal, bytesReceivedTotal, bytesSentTotal, errorsTotal, errorsByKindTotal, latency⟩)

def reserved : List String := ["scenario", "protocol", "error_kind"]

/-- The counters of a failed request: in total, and by kind when there is one. -/
def recordErrors (ids : RequestMetricIds) (r : Registry H) (sample : RequestSample)
    (extraTags : List (String × String)) (tagsProtocol : TagSet) : Registry H :=
  if sample.ok then r
  else
    let r := r.touch hdr ids.errorsTotal tagsProtocol (Cell.fetchAdd 1)
    match sample.errorKind with
    | none => r
    | some kind =>
      let (r, tags) := resolveWith r reserved extraTags
        [("scenario", sample.scenario), ("protocol", sample.protocol.asStr), ("error_kind", kind)]
      r.touch hdr ids.errorsByKindTotal tags (Cell.fetchAdd 1)

/-- Two series of the latency, with and without the protocol, then the counters, and the errors if
there are any. -/
def recordRequest (ids : RequestMetricIds) (r : Registry H) (sample : RequestSample)
    (extraTags : List (String × String)) : Registry H :=
  let (r, tagsProtocol) := resolveWith r reserved extraTags
    [("scenario", sample.scenario), ("protocol", sample.protocol.asStr)]
  let r := r.touch hdr ids.requestsTotal tagsProtocol (Cell.fetchAdd 1)
  let r := r.touch hdr ids.bytesReceivedTotal tagsProtocol (Cell.fetchAdd sample.bytesReceived)
  let r := r.touch hdr ids.bytesSentTotal tagsProtocol (Cell.fetchAdd sample.bytesSent)
  let r := ids.recordErrors hdr r sample extraTags tagsProtocol
  -- the latency goes to the overall and to the protocol-scoped series
  let (r, overallTags) := resolveWith r reserved extraTags [("scenario", sample.scenario)]
  let r := r.touch hdr ids.latency overallTags (Cell.record hdr (recordedMicros sample.latency))
  r.touch hdr ids.latency tagsProtocol (Cell.record hdr (recordedMicros sample.latency))

end RequestMetricIds

/-! ### Iterations -/

structure IterationMetricIds where
  iterationsTotal : MetricId
  iterationDuration : MetricId
  deriving DecidableEq, Repr

structure IterationSample where
  scenario : String
  success : Bool
  duration : Nat
  deriving DecidableEq, Repr

namespace IterationMetricIds

def register (r : Registry H) : Registry H × IterationMetricIds :=
  let (r, iterationsTotal) := r.register "iterations_total" .counter
  let (r, iterationDuration) := r.register "iteration_duration" .histogram
  (r, ⟨iterationsTotal, iterationDuration⟩)

def reserved : List String := ["scenario", "status"]

/-- A count and a duration, both with the status. -/
def recordIteration (ids : IterationMetricIds) (r : Registry H) (sample : IterationSample)
    (extraTags : List (String × String)) : Registry H :=
  let status := if sample.success then "success" else "failure"
  let (r, tags) := resolveWith r reserved extraTags
    [("scenario", sample.scenario), ("status", status)]
  let r := r.touch hdr ids.iterationsTotal tags (Cell.fetchAdd 1)
  r.touch hdr ids.iterationDuration tags (Cell.record hdr (recordedMicros sample.duration))

end IterationMetricIds

end Wrkr.Core
