import Wrkr.Lib.Machine
import Wrkr.Lib.Sync
import Wrkr.Lib.Tasks
import Wrkr.Lib.Scopes
import Wrkr.Lib.HighWater
import Wrkr.Lib.WaitGraph
import Wrkr.Lib.HashTable
import Wrkr.Lib.OrderedMap
import Wrkr.Lib.ByteLoop
import Wrkr.Lib.Fallible
import Wrkr.Lib.Agree
import Wrkr.Lib.Outcome
import Wrkr.Lib.BinarySearch
import Wrkr.Lib.Saturating
import Wrkr.Lib.Text
import Wrkr.Lib.Tokens
import Wrkr.Lib.Ieee
import Wrkr.Lib.Paths
import Wrkr.Lib.PyText
import Wrkr.Lib.Json
import Wrkr.Lib.JsonText
import Wrkr.Lib.JsonQuotes
import Wrkr.Lib.JsonCut
import Wrkr.Value
import Wrkr.Core.StartSignal
import Wrkr.Core.Gate
import Wrkr.Core.Pacer
import Wrkr.Core.ArrivalLoop
import Wrkr.Core.RunScenarios
import Wrkr.Metrics.Key
import Wrkr.Metrics.Tags
import Wrkr.Metrics.Storage
import Wrkr.Metrics.Registry
import Wrkr.Metrics.Totals
import Wrkr.Metrics.SeriesRace
import Wrkr.Metrics.LockOrder
import Wrkr.Metrics.Interning
import Wrkr.Metrics.InternerRace
import Wrkr.Metrics.Recordings
import Wrkr.Metrics.Definitions
import Wrkr.Metrics.Catalog
import Wrkr.Lib.Welford
import Wrkr.Metrics.Agg
import Wrkr.Metrics.RunningStats
import Wrkr.Metrics.Summary
import Wrkr.Metrics.Grouping
import Wrkr.Core.TagSelector
import Wrkr.Core.RequestMetrics
import Wrkr.Core.MetricsAgg
import Wrkr.Core.Accounting
import Wrkr.Core.ActiveVus
import Wrkr.Core.ScenarioSummary
import Wrkr.Core.ThresholdsEval
import Wrkr.Core.RunSummary
import Wrkr.Core.MetricsContext
import Wrkr.Core.Config
import Wrkr.Core.Scenarios
import Wrkr.Core.Schedule
import Wrkr.Core.RampingLoop
import Wrkr.Core.Instants
import Wrkr.Core.StageSnapshot
import Wrkr.Core.PacerLoop
import Wrkr.Core.Thresholds
import Wrkr.Core.ThresholdExpr
import Wrkr.Core.KeyText
import Wrkr.Core.EvaluateThresholds
import Wrkr.Core.Outputs
import Wrkr.Lua.Options
import Wrkr.Lua.Http
import Wrkr.Lua.Check
import Wrkr.Lua.LuaValue
import Wrkr.Lua.CustomMetrics
import Wrkr.Lua.RequestTags
import Wrkr.Lua.DurationOptions
import Wrkr.Lua.ValueUtil
import Wrkr.Lua.TablePass
import Wrkr.Lua.TableResult
import Wrkr.Lua.ValueRoundTrip
import Wrkr.Cli.ScenarioYaml
import Wrkr.Cli.Durations
import Wrkr.Cli.ThresholdsYaml
import Wrkr.Cli.Output
import Wrkr.Cli.ChecksGate
import Wrkr.Cli.Ndjson
import Wrkr.Cli.Progress
import Wrkr.Compare.Parse
import Wrkr.Compare.Lines
import Wrkr.Compare.Stream
import Wrkr.Shared.Store
import Wrkr.Shared.Counter
import Wrkr.Shared.Barriers
import Wrkr.Http.Estimate
import Wrkr.Grpc.Proto
import Wrkr.Grpc.Build
import Wrkr.Grpc.Shared
import Wrkr.Grpc.SharedCalls
import Wrkr.Grpc.Wire.Primitives
import Wrkr.Grpc.Wire.Coerce
import Wrkr.Grpc.Wire.Encode
import Wrkr.Grpc.Wire.Decode
import Wrkr.Grpc.Wire.RoundTrip
import Wrkr.Grpc.Wire.Agreement
import Wrkr.Grpc.Wire.Parsers
import Wrkr.Grpc.Wire.Packed
import Wrkr.Grpc.Wire.MapEntry
import Wrkr.Grpc.Wire.Safety
import Wrkr.Grpc.Wire.Concat
import Wrkr.Grpc.Wire.Typing
import Wrkr.Grpc.Wire.Reencode
import Wrkr.Grpc.Wire.Sendable
import Wrkr.Grpc.Wire.FieldNumbers
import Wrkr.Grpc.Wire.EntryRecords
import Wrkr.Grpc.Wire.Integers
import Wrkr.Grpc.Wire.Varint
import Wrkr.Lua.GrpcEcho
import Wrkr.Core.Ledger
import Wrkr.Grpc.Client
import Wrkr.Lua.GrpcInvoke
import Wrkr.Lua.Group
import Wrkr.Lua.GroupTotals
import Wrkr.Lua.ProtocolTotals
import Wrkr.Lua.GrpcRuns
import Wrkr.Http.Client
import Wrkr.Lua.HttpCalls
import Wrkr.Lua.HttpRuns
