import Wrkr.Core.Recording
import Wrkr.Lua.Group

/-!
# The work of a call

What a call of a script does to the metrics, step by step: the VU resolves the tags of each
recording string by string, gets the handle of each series and updates its cell, while other VUs do
the same. `work_alone` says that for a VU that nobody disturbs this is `Call.record`, and
`Call.writes` which entries a call makes on the metrics of the run.
-/
namespace Wrkr.Lua

open Wrkr.Lib Wrkr.Metrics Wrkr.Core Wrkr.Core.Accounting

variable {H F : Type} (hdr : HdrHistogram H F)

/-- `CheckRecorder::record`. -/
def CheckRecorder.work (recorder : CheckRecorder) (name : String) (passed : Bool)
    (next : Work H) : Work H :=
  .resolveTags (recorder.tags name passed) fun tags => addWork recorder.metricChecks tags 1 next

/-- The loop of `run_checks`. -/
def checksWork (recorder : CheckRecorder) (checks : List (Option (String × Option Bool)))
    (next : Work H) : Work H :=
  checks.foldr (fun pair next =>
    match pair with
    | none => next
    | some (name, result) => recorder.work name (result.getD false) next) next

/-- `add` of a metric table: a sample that is refused is so with the handle in hand. -/
def CustomMetrics.MetricHandleTable.work (text : CustomMetrics.ToText)
    (table : CustomMetrics.MetricHandleTable) (currentGroup : Option String) (value : LuaValue)
    (tags : Option (List (LuaValue × LuaValue))) (next : Work H) : Work H :=
  let args := CustomMetrics.MetricAddLuaArgs.parse text currentGroup table.metricsCtx value tags
  .resolveTags args.tags fun tags =>
    .access ⟨table.metric, tags,
      .custom ((CustomMetrics.operation hdr table.kind args.value).toOption.getD id)⟩ next

/-- `Trend`, `Counter`, `Gauge` and `Rate`. -/
def makeWork (kind : MetricKind) (name : String) (next : Work H) : Work H :=
  if Text.trim name.toList = [] then next else .register name kind next

namespace Group

def Call.work (text : CustomMetrics.ToText) (metricsCtx : MetricsContext)
    (currentGroup : Option String) (call : Call) (next : Work H) : Work H :=
  match call with
  | .check checks => checksWork ⟨metricIds.checks, currentGroup, metricsCtx⟩ checks next
  | .http method opts latency outcome =>
    requestWork metricIds.request (requestSample metricsCtx latency outcome)
      (requestTags metricsCtx currentGroup method opts) next
  | .grpc tags latency sent outcome =>
    requestWork metricIds.request (grpcSample metricsCtx latency sent outcome)
      (GrpcInvoke.invokeTags metricsCtx currentGroup tags) next
  | .make kind name => makeWork kind name next
  | .add table value tags => table.work hdr text currentGroup value tags next
  | .iteration duration success =>
    iterationWork metricIds.iteration ⟨metricsCtx.scenario, success, duration⟩
      (scenarioTagRefs metricsCtx ["scenario", "status", "group"]) next

end Group

/-! ### In one go -/

section Run

variable (r : Registry H) (next : Work H)

/-- Run without a break, the steps for a table of checks do what `check` does. -/
theorem run_checksWork (recorder : CheckRecorder)
    (checks : List (Option (String × Option Bool))) :
    (checksWork recorder checks next).run hdr r =
      next.run hdr (runChecks hdr recorder r checks).1 := by
  induction checks generalizing r with
  | nil => rfl
  | cons pair rest ih =>
    cases pair with
    | none => exact ih r
    | some pair =>
      obtain ⟨name, result⟩ := pair
      rw [runChecks_cons, ← ih]
      exact Work.run_resolveTags hdr (recorder.tags name (result.getD false))
        (fun tags => addWork recorder.metricChecks tags 1 (checksWork recorder rest next)) r

/-- And so do those of an add, also where it is refused. -/
theorem run_addWork (text : CustomMetrics.ToText) (table : CustomMetrics.MetricHandleTable)
    (currentGroup : Option String) (value : LuaValue)
    (tags : Option (List (LuaValue × LuaValue))) :
    (table.work hdr text currentGroup value tags next).run hdr r =
      next.run hdr (table.add hdr text r currentGroup value tags).1 := by
  rw [CustomMetrics.MetricHandleTable.work, Work.run_resolveTags, Work.run]
  refine congrArg (next.run hdr) ?_
  rw [CustomMetrics.MetricHandleTable.add, Registry.touch]
  dsimp only
  rcases (r.resolveTags _).1.getHandle hdr table.metric _ with ⟨r', _ | handle⟩
  · rfl
  · dsimp only [CustomMetrics.MetricAddLuaArgs.parse]
    cases CustomMetrics.operation hdr table.kind value with
    | ok op => rfl
    | error e =>
      -- the series is there, and its cell as it was
      simp [Registry.update, Except.toOption]

/-- In one go the work of a call is what the call records. -/
theorem run_work (text : CustomMetrics.ToText) (metricsCtx : MetricsContext)
    (currentGroup : Option String) (call : Group.Call) :
    (call.work hdr text metricsCtx currentGroup next).run hdr r =
      next.run hdr (call.record hdr text metricsCtx currentGroup r) := by
  cases call with
  | check checks => exact run_checksWork hdr r next _ checks
  | http method opts latency outcome => exact run_requestWork hdr r next _ _ _
  | grpc tags latency sent outcome => exact run_requestWork hdr r next _ _ _
  | make kind name =>
    rw [Group.Call.work, Group.Call.record, makeWork, CustomMetrics.make]
    split <;> rfl
  | add table value tags => exact run_addWork hdr r next text table currentGroup value tags
  | iteration duration success => exact run_iterationWork hdr r next _ _ _

/-- A VU that nobody disturbs comes from a call to what the call records. -/
theorem work_alone (orderly : r.Orderly) (text : CustomMetrics.ToText)
    (metricsCtx : MetricsContext) (currentGroup : Option String) (call : Group.Call) :
    Relation.ReflTransGen (fun a b => Worker.step hdr a.1 a.2 = some b)
      (r, .start (call.work hdr text metricsCtx currentGroup .done))
      (call.record hdr text metricsCtx currentGroup r, .start .done) := by
  have inOneGo : call.record hdr text metricsCtx currentGroup r =
      (call.work hdr text metricsCtx currentGroup .done).run hdr r :=
    (run_work hdr r .done text metricsCtx currentGroup call).symm
  rw [inOneGo]
  exact Worker.alone orderly _

end Run

/-! ### The entries of a call -/

namespace Group

/-- The entries on the metrics of the run. -/
def Call.entries (metricsCtx : MetricsContext) (currentGroup : Option String) : Call → List Entry
  | .check checks => checks.filterMap fun pair => pair.map fun (name, result) =>
    ⟨metricIds.checks, CheckRecorder.tags ⟨metricIds.checks, currentGroup, metricsCtx⟩ name
      (result.getD false), .add 1⟩
  | .http method opts latency outcome =>
    (Event.request (requestSample metricsCtx latency outcome)
      (requestTags metricsCtx currentGroup method opts)).entries
  | .grpc tags latency sent outcome =>
    (Event.request (grpcSample metricsCtx latency sent outcome)
      (GrpcInvoke.invokeTags metricsCtx currentGroup tags)).entries
  | .make _ _ | .add _ _ _ => []
  | .iteration duration success =>
    (Event.iteration ⟨metricsCtx.scenario, success, duration⟩
      (scenarioTagRefs metricsCtx ["scenario", "status", "group"])).entries

/-- A custom metric has not been made under the name of a metric of the run. -/
def Call.OwnMetric : Call → Prop
  | .add table _ _ => runMetrics.length ≤ table.metric.toNat
  | .check _ | .http _ _ _ _ | .grpc _ _ _ _ | .make _ _ | .iteration _ _ => True

instance : DecidablePred Call.OwnMetric
  | .add table _ _ => inferInstanceAs (Decidable (runMetrics.length ≤ table.metric.toNat))
  | .check _ | .http _ _ _ _ | .grpc _ _ _ _ | .make _ _ | .iteration _ _ => .isTrue trivial

/-- A recording with its tags. -/
theorem writes_add (tags : List (String × String)) (next : Work H) :
    Writes (.resolveTags tags fun set => addWork metricIds.checks set 1 next)
      [⟨metricIds.checks, tags, .add 1⟩] next := by
  refine ⟨fun n => ?_, fun n entry member => ?_, fun n => ?_, fun proper => ?_⟩
  · rw [Work.recordings_resolveTags]
    rfl
  · rw [List.mem_singleton.mp member, Work.interns_resolveTags]
    exact List.subset_append_left _ _
  · rw [Work.interns_resolveTags]
    exact List.subset_append_right _ _
  · exact proper_internPairs _ fun resolved => ⟨⟨8, _, rfl, rfl⟩, proper⟩

variable {hdr} {metricsCtx : MetricsContext} {currentGroup : Option String}

/-- The table writes one entry for each of its checks. -/
theorem writes_checksWork (checks : List (Option (String × Option Bool))) (next : Work H) :
    Writes (checksWork ⟨metricIds.checks, currentGroup, metricsCtx⟩ checks next)
      ((Call.check checks).entries metricsCtx currentGroup) next := by
  induction checks with
  | nil => exact .nil next
  | cons pair rest ih =>
    cases pair with
    | none => exact ih
    | some pair => exact (writes_add _ _).trans ih

/-- A call writes its entries. -/
theorem Call.writes {call : Call} (own : call.OwnMetric) (text : CustomMetrics.ToText)
    (next : Work H) :
    Writes (call.work hdr text metricsCtx currentGroup next)
      (call.entries metricsCtx currentGroup) next := by
  cases call with
  | check checks => exact writes_checksWork checks next
  | http method opts latency outcome => exact writes_requestWork _ _ next
  | grpc tags latency sent outcome => exact writes_requestWork _ _ next
  | make kind name =>
    rw [work, makeWork]
    split
    · exact .nil next
    · exact ⟨fun _ => rfl, by simp [entries], fun _ => List.Subset.refl _, fun proper => proper⟩
  | add table value tags =>
    rw [work, CustomMetrics.MetricHandleTable.work]
    refine ⟨fun n => ?_, by simp [entries], fun n => ?_, fun proper => ?_⟩
    · rw [Work.recordings_resolveTags]
      rfl
    · rw [Work.interns_resolveTags]
      exact List.subset_append_right _ _
    · exact proper_internPairs _ fun resolved => ⟨own, proper⟩
  | iteration duration success => exact writes_iterationWork _ _ next

end Group

end Wrkr.Lua
