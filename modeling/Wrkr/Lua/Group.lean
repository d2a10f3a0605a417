import Wrkr.Lib.Scopes
import Wrkr.Lua.GrpcInvoke
import Wrkr.Lua.RequestTags

/-!
# Groups

`group(name, f)` writes the name into the Lua registry, calls `f` and writes back what was there
before, also when `f` raises an error, which then goes on. Whatever a script records reads the
current group from there. `run_vu` records every iteration and ends the VU when one has failed.

The VUs of a run share the metrics, and each of them has a Lua state of its own. A script is given
by what it calls: for a function that raises an error the tree goes on with `raise`, so that every
run of a script is one of the trees, if it comes to an end and makes no coroutines of its own (these
could leave a group in another order than they entered it).
-/
namespace Wrkr.Lua.Group

open Wrkr.Lib Wrkr.Lib.Scopes Wrkr.Metrics Wrkr.Core Wrkr.Core.Accounting

variable {H F : Type} (hdr : HdrHistogram H F)

/-! ### What a script calls -/

/-- The calls that register or record something. `grpc` is an invocation that has been handed to the
client, with the tags of the call. -/
inductive Call
  | check (checks : List (Option (String × Option Bool)))
  | http (method : String) (opts : Http.HttpRequestOptions) (latency : Nat) (outcome : Outcome)
  | grpc (tags : List (String × String)) (latency : Nat) (sent : UInt64)
      (outcome : Except Grpc.GrpcTransportErrorKind UInt64)
  | make (kind : MetricKind) (name : String)
  | add (table : CustomMetrics.MetricHandleTable) (value : LuaValue)
      (tags : Option (List (LuaValue × LuaValue)))
  | iteration (duration : Nat) (success : Bool)

/-- What an invocation gives to `record_request`. -/
def grpcSample (metricsCtx : MetricsContext) (latency : Nat) (sent : UInt64) :
    Except Grpc.GrpcTransportErrorKind UInt64 → RequestSample
  | .ok received => ⟨metricsCtx.scenario, .grpc, true, latency, received, sent, none⟩
  | .error kind => ⟨metricsCtx.scenario, .grpc, false, latency, 0, sent, some kind.toString⟩

/-- The effect of a call on the metrics, given the current group. -/
def Call.record (text : CustomMetrics.ToText) (metricsCtx : MetricsContext)
    (currentGroup : Option String) (call : Call) (r : Registry H) : Registry H :=
  match call with
  | .check checks => (runChecks hdr ⟨metricIds.checks, currentGroup, metricsCtx⟩ r checks).1
  | .http method opts latency outcome =>
    recordHttpRequest hdr metricIds.request r metricsCtx currentGroup method opts latency outcome
  | .grpc tags latency sent outcome =>
    metricIds.request.recordRequest hdr r (grpcSample metricsCtx latency sent outcome)
      (GrpcInvoke.invokeTags metricsCtx currentGroup tags)
  | .make kind name =>
    match CustomMetrics.make r metricsCtx kind name with
    | .ok (r, _) => r
    | .error _ => r
  | .add table value tags => (table.add hdr text r currentGroup value tags).1
  | .iteration duration success =>
    recordVuIteration hdr metricIds.iteration r metricsCtx duration success

/-- A script, with the current group as what the scopes set: `none` is nil. -/
abbrev Script := Prog Call (Option String)

/-- `group(name, f)`, followed by the rest. The arguments are converted first: `none` stands for a
name that is no text, or an `f` that is no function. -/
def group (name : Option String) (f next : Script) : Script :=
  match name with
  | none => .raise
  | some name => .scope (some name) f next

/-- An iteration: what `exec_fn` does, and how long it takes. -/
structure Iteration where
  script : Script
  duration : Nat

/-- The loop of `run_vu`: every iteration is recorded, and `res?` ends the VU. -/
def vu : List Iteration → Script
  | [] => .done
  | iteration :: rest =>
    .attempt iteration.script (.act (.iteration iteration.duration true) (vu rest))
      (.act (.iteration iteration.duration false) .raise)

/-! ### A run -/

section Run

variable {ι : Type} [DecidableEq ι] (text : CustomMetrics.ToText) (metricsCtx : ι → MetricsContext)

/-- VU `i` makes the call with the group that it finds in its Lua registry. The recordings of a
call are one step here, which is enough for the group that they are made with; `interleaved` takes
their steps one by one. -/
def perform (i : ι) (call : Call × Option String) (r : Registry H) : Registry H :=
  call.1.record hdr text (metricsCtx i) call.2 r

/-- The VUs start on a registry that has the metrics of the run, without a current group. -/
def machine (vus : ι → List Iteration) (r : Registry H) :
    Machine (State ι Call (Option String) (Registry H)) ι :=
  Scopes.machine (perform hdr text metricsCtx) (fun i => vu (vus i)) (fun _ => none) r

end Run

/-! ### The lexical reading -/

/-- The calls of a list of iterations, each with the innermost group that its text is in. The
iterations after one that fails are not reached. -/
def calls : List Iteration → List (Call × Option String)
  | [] => []
  | iteration :: rest =>
    iteration.script.trace none ++
      (Call.iteration iteration.duration iteration.script.succeeds, none) ::
        if iteration.script.succeeds then calls rest else []

theorem trace_vu (iterations : List Iteration) : (vu iterations).trace none = calls iterations := by
  induction iterations with
  | nil => rfl
  | cons iteration rest ih =>
    rw [vu, Prog.trace, calls]
    cases iteration.script.succeeds <;> simp [Prog.trace, ih]

section Agreement

variable {ι : Type} [DecidableEq ι] (text : CustomMetrics.ToText) (metricsCtx : ι → MetricsContext)

end Agreement

section Example

def plainText : CustomMetrics.ToText := ⟨fun _ => "", fun _ => ""⟩

def passes (name : String) : Call := .check [some (name, some true)]

/-- A protected call of a group that raises an error, inside of another group. -/
def checkout : Script :=
  group (some "shop")
    (.attempt (group (some "pay") (.act (passes "card") .raise) .done) .done
      (.act (passes "refused") .done))
    (.act (passes "left") .done)

end Example

end Wrkr.Lua.Group
