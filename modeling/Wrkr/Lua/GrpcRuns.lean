import Wrkr.Lua.ProtocolTotals

/-!
# Answers and counts

VUs share the gRPC client and the metrics of a run. An invocation waits for its answer while other
VUs go on; when the answer comes it is recorded, step by step, if it is one that is counted, and
then given to the script. So whenever no VU is inside a recording the request metrics say of gRPC
what the scripts have been told (`seen_is_counted`): every result with a status or an error of the
transport is one request, and those without a status are the failed ones.
-/
namespace Wrkr.Lua.GrpcRuns

open Wrkr.Lib Wrkr.Metrics Wrkr.Core Wrkr.Core.Accounting Wrkr.Grpc Wrkr.Lua.GrpcInvoke
open Wrkr.Lua.Group (Call)
open Wrkr.Lua.ProtocolTotals

/-! ### Runs -/

/-- The uses of the client and the calls that are invocations come as `invoke` and `answer`. With
`proceed` a VU goes on with what it is recording. -/
inductive Action (ι Schema π : Type)
  | proceed (vu : ι)
  | use (use : Use Schema π)
  | call (vu : ι) (currentGroup : Option String) (call : Call)
  | invoke (vu : ι) (transport : Grpc.Request → Reply) (currentGroup : Option String) (args : Args)
  | answer (vu : ι) (latency : Nat)

/-- The shared client, what the VUs record, and the calls that are on their way. -/
structure State (ι Schema H : Type) where
  shared : Client Schema
  workers : Workers ι H
  /-- The invocations that wait for their answers. -/
  pending : ι → Option (Effect Schema)
  /-- Ghost: the results that the scripts get, when what is recorded of them is through. -/
  seen : List (ι × InvokeLuaResult)

/-- The sample of an invocation; the latency is known when the answer is there. -/
def sampleOf (rec : Recorded) (metricsCtx : MetricsContext) (latency : Nat) : RequestSample :=
  ⟨metricsCtx.scenario, .grpc, rec.ok, latency, rec.bytesReceived, rec.bytesSent, rec.errorKind⟩

section Code

variable {ι Schema π H F : Type} [DecidableEq ι] (hdr : HdrHistogram H F)
  (outside : Outside Schema π) (metricsCtx : ι → MetricsContext)

/-- The end of `invoke`, with the time that the answer took. -/
def recordAnswer (metricsCtx : MetricsContext) (latency : Nat) (effect : Effect Schema) : Work H :=
  match effect.recorded with
  | none => .done
  | some rec =>
    requestWork metricIds.request (sampleOf rec metricsCtx latency) rec.tags .done

/-- A script gets no result of an invocation that raises an error or panics. -/
def told (vu : ι) (effect : Effect Schema) : List (ι × InvokeLuaResult) :=
  match effect.result with
  | .ok (result, _) => [(vu, result)]
  | .error _ => []

/-- An invocation is made by a VU, the other uses by anybody. -/
def isInvocation : Use Schema π → Bool
  | .invoke _ _ _ _ => true
  | .load _ | .connect _ | .encode _ _ => false

def isGrpc : Call → Bool
  | .grpc _ _ _ _ => true
  | .check _ | .http _ _ _ _ | .make _ _ | .add _ _ _ | .iteration _ _ => false

/-- A VU that waits for an answer, or is inside a recording, does nothing else. -/
def State.busy (s : State ι Schema H) (vu : ι) : Bool :=
  (s.pending vu).isSome || !(s.workers.doing vu).idle

/-- A VU that waits for an answer, or is inside a recording, does nothing else. -/
def step (s : State ι Schema H) : Action ι Schema π → Option (State ι Schema H)
  | .proceed vu => (s.workers.proceed hdr vu).map fun workers => { s with workers }
  | .use use =>
    if isInvocation use then none else some { s with shared := use.apply outside s.shared }
  | .call vu currentGroup call =>
    if isGrpc call || s.busy vu then none
    else
      let work := call.work hdr outside.crates.toToText (metricsCtx vu) currentGroup .done
      some { s with workers := s.workers.begin vu work }
  | .invoke vu transport currentGroup args =>
    if s.busy vu then none
    else
      let effect := invoke { outside with transport } (metricsCtx vu) currentGroup s.shared args
      some { s with shared := effect.shared, pending := Function.update s.pending vu (some effect) }
  | .answer vu latency =>
    (s.pending vu).map fun effect =>
      { s with
        workers := s.workers.begin vu (recordAnswer (metricsCtx vu) latency effect)
        pending := Function.update s.pending vu none
        seen := s.seen ++ told vu effect }

/-- From the registrations of the run on. -/
def machine : Machine (State ι Schema H) (Action ι Schema π) where
  init s := s = ⟨.new, .init registered, fun _ => none, []⟩
  step := step hdr outside metricsCtx

end Code

/-- A custom metric that is recorded on is none of the run's, and an insert of `get_handle` still
finds its series absent. -/
def State.Allows {ι Schema π H : Type} (s : State ι Schema H) : Action ι Schema π → Prop
  | .proceed vu => (s.workers.doing vu).InsertsFresh s.workers.registry
  | .call _ _ made => made.OwnMetric
  | .use _ | .invoke _ _ _ _ | .answer _ _ => True

instance {ι Schema π H : Type} (s : State ι Schema H) (a : Action ι Schema π) :
    Decidable (s.Allows a) :=
  match a with
  | .proceed vu => inferInstanceAs (Decidable ((s.workers.doing vu).InsertsFresh _))
  | .call _ _ made => inferInstanceAs (Decidable made.OwnMetric)
  | .use _ | .invoke _ _ _ _ | .answer _ _ => .isTrue trivial

/-- The counters, and the results that they count. -/
def counts : List (Nat × String × (InvokeLuaResult → Bool)) :=
  [(0, "requests_total", InvokeLuaResult.answered),
    (3, "request_errors_total", fun result => result.answered && result.status.isNone)]

/-! ### The invariant -/

section Invariant

variable {ι Schema π H F : Type} [DecidableEq ι] (hdr : HdrHistogram H F)

/-- What a result adds to a counter. -/
def adds (isCounted : InvokeLuaResult → Bool) (e : ι × InvokeLuaResult) : Option Nat :=
  if isCounted e.2 then some 1 else none

/-- A VU that waits records nothing, and each counter holds what the results seen so far add, or
what is still owed of it. -/
structure Inv (s : State ι Schema H) : Prop where
  waits : ∀ vu effect, s.pending vu = some effect →
    effect.Faithful ∧ (s.workers.doing vu).idle = true
  tallied : ∀ count ∈ counts, ∃ begun,
    Tallied hdr .grpc count.1 (adds count.2.2) s.workers s.seen begun

omit [DecidableEq ι] in
theorem filterMap_adds (isCounted : InvokeLuaResult → Bool) (seen : List (ι × InvokeLuaResult)) :
    seen.filterMap (adds isCounted) = List.replicate (seen.countP fun e => isCounted e.2) 1 := by
  induction seen with
  | nil => rfl
  | cons e rest ih =>
    cases counted : isCounted e.2 with
    | true => simp [adds, counted, ih, List.replicate_succ]
    | false => simp [adds, counted, ih]

variable {hdr}

theorem counters_of_counts {count : Nat × String × (InvokeLuaResult → Bool)}
    (member : count ∈ counts) :
    runMetrics[count.1]? = some (count.2.1, .counter) ∧ count.1 < 6 := by
  simp only [counts, List.mem_cons, List.not_mem_nil, or_false] at member
  rcases member with rfl | rfl <;> decide

variable {outside : Outside Schema π} {metricsCtx : ι → MetricsContext}

/-- An answer adds what the script is told. -/
theorem tallied_answer {effect : Effect Schema} (faithful : effect.Faithful) {vu : ι}
    (metricsCtx : MetricsContext) (latency : Nat) {s : Workers ι H}
    {seen : List (ι × InvokeLuaResult)} {count : Nat × String × (InvokeLuaResult → Bool)}
    (isCount : count ∈ counts) {begun : List (ι × Entry)} (idle : (s.doing vu).idle = true)
    (tallied : Tallied hdr .grpc count.1 (adds count.2.2) s seen begun) :
    ∃ begun', Tallied hdr .grpc count.1 (adds count.2.2)
      (s.begin vu (recordAnswer metricsCtx latency effect)) (seen ++ told vu effect) begun' := by
  cases recorded : effect.recorded with
  | none =>
    rw [recordAnswer, recorded]
    refine ⟨_, tallied.begin idle (.nil .done) (by simp) ?_⟩
    -- a result that is not recorded is not counted either
    have unanswered := faithful.dropped recorded
    refine Eq.symm (List.filterMap_eq_nil_iff.mpr fun e member => ?_)
    rw [told] at member
    split at member
    next result int64Repr isResult =>
      rw [List.mem_singleton.mp member]
      have no := unanswered result int64Repr isResult
      simp only [counts, List.mem_cons, List.not_mem_nil, or_false] at isCount
      rcases isCount with rfl | rfl <;> simp [adds, no]
    next => cases member
  -- a result that is recorded is counted by what was recorded of it: an answer, and whether it is
  -- an error
  | some rec =>
    obtain ⟨result, int64Repr, isResult, answered, ok, -⟩ := faithful.recorded rec recorded
    rw [recordAnswer, recorded, told, isResult]
    refine ⟨_, tallied.request (counters_of_counts isCount).1 idle _ _ ?_⟩
    simp only [counts, List.mem_cons, List.not_mem_nil, or_false] at isCount
    rcases isCount with rfl | rfl
    · simp [sampleOf, Group.addedBySample, metricIds, adds, answered]
    · cases status : result.status <;>
        simp [sampleOf, Group.addedBySample, metricIds, adds, answered, ok, status]

variable {s s' : State ι Schema H}

omit [DecidableEq ι] in
theorem not_busy {vu : ι} (free : s.busy vu = false) :
    s.pending vu = none ∧ (s.workers.doing vu).idle = true := by
  simpa [State.busy] using free

/-- Only an answer adds to what is seen; the other steps move the records on. -/
theorem inv_step (lawful : hdr.Lawful) {a : Action ι Schema π} (inv : Inv hdr s)
    (allowed : s.Allows a) (taken : step hdr outside metricsCtx s a = some s') : Inv hdr s' := by
  cases a with
  | proceed vu =>
    obtain ⟨workers, next, rfl⟩ := Option.map_eq_some_iff.mp taken
    refine ⟨fun vu' effect waits => ?_, fun count isCount => ?_⟩
    · obtain ⟨faithful, idle⟩ := inv.waits vu' effect waits
      exact ⟨faithful, Workers.idle_proceed hdr next idle⟩
    · obtain ⟨begun, tallied⟩ := inv.tallied count isCount
      exact ⟨begun, tallied.proceed lawful allowed next⟩
  -- `load` and `connect` change the client only
  | use use =>
    rw [step] at taken
    split at taken
    · cases taken
    · cases taken
      exact ⟨inv.waits, inv.tallied⟩
  | call vu currentGroup call =>
    rw [step] at taken
    split at taken
    · cases taken
    next free =>
      cases taken
      rw [Bool.or_eq_true, not_or, Bool.not_eq_true, Bool.not_eq_true] at free
      obtain ⟨silent, idle⟩ := not_busy free.2
      have other : protocolOf call ≠ some .grpc := by
        have notGrpc := free.1
        cases call <;> simp_all [isGrpc, protocolOf]
      refine ⟨fun vu' effect waits => ?_, fun count isCount => ?_⟩
      · -- the VU that calls does not wait
        have other : vu' ≠ vu := by
          rintro rfl
          rw [silent] at waits
          cases waits
        rw [Workers.doing_begin_of_ne other]
        exact inv.waits vu' effect waits
      · obtain ⟨here, isRequests⟩ := counters_of_counts isCount
        obtain ⟨begun, tallied⟩ := inv.tallied count isCount
        exact ⟨_, tallied.call here idle isRequests outside.crates.toToText (metricsCtx vu)
          currentGroup allowed other⟩
  -- the call is on its way: nothing is recorded before its answer is there
  | invoke vu transport currentGroup args =>
    rw [step] at taken
    split at taken
    · cases taken
    next free =>
      cases taken
      obtain ⟨-, idle⟩ := not_busy (Bool.eq_false_iff.mpr free)
      refine ⟨fun vu' effect waits => ?_, inv.tallied⟩
      dsimp only at waits
      rcases eq_or_ne vu' vu with rfl | differs
      · rw [Function.update_self, Option.some.injEq] at waits
        exact ⟨waits ▸ faithful_invoke _ _ _, idle⟩
      · rw [Function.update_of_ne differs] at waits
        exact inv.waits vu' effect waits
  -- the VU stops waiting and begins to record; the script gets the result together with that
  | answer vu latency =>
    obtain ⟨effect, waits, rfl⟩ := Option.map_eq_some_iff.mp taken
    obtain ⟨faithful, idle⟩ := inv.waits vu effect waits
    refine ⟨fun vu' effect' waits' => ?_, fun count isCount => ?_⟩
    · dsimp only at waits'
      rcases eq_or_ne vu' vu with rfl | differs
      · rw [Function.update_self] at waits'
        cases waits'
      · rw [Function.update_of_ne differs] at waits'
        rw [Workers.doing_begin_of_ne differs]
        exact inv.waits vu' effect' waits'
    · obtain ⟨begun, tallied⟩ := inv.tallied count isCount
      exact tallied_answer faithful (metricsCtx vu) latency isCount idle tallied

end Invariant

section Runs

variable {ι Schema π H : Type} [DecidableEq ι] {hdr : HdrHistogram H UInt64}
  {ratio : UInt64 → UInt64 → UInt64} {outside : Outside Schema π} {metricsCtx : ι → MetricsContext}
  {s : State ι Schema H}

/-- The invariant along a run. -/
theorem inv_reachable (lawful : hdr.Lawful)
    (run : (machine hdr outside metricsCtx).ReachableBy State.Allows s) : Inv hdr s := by
  refine run.invariant (Inv hdr) ?_
    fun s a s' inv allowed taken => inv_step lawful inv allowed taken
  intro s start
  change s = ⟨_, .init registered, _, _⟩ at start
  have tallied (count : Nat × String × (InvokeLuaResult → Bool)) :
      Tallied hdr .grpc count.1 (adds (ι := ι) count.2.2) (.init registered : Workers ι H) [] [] :=
    tallied_init hdr .grpc count.1 _
  -- only that nothing is recorded yet matters of the first registry
  generalize (Workers.init registered : Workers ι H) = workers at start tallied
  subst start
  exact ⟨fun vu effect waits => (by cases waits), fun count _ => ⟨[], tallied count⟩⟩

/-- In every interleaving of the VUs and of the steps of their recordings in which no insert of
`get_handle` replaces a series, at any moment at which no VU is inside a recording: of the requests
with the protocol gRPC, a threshold on one of these counters observes the number of results that the
scripts have got and that it counts, and nothing as long as there is none. -/
theorem seen_is_counted (lawful : hdr.Lawful)
    (run : (machine hdr outside metricsCtx).ReachableBy State.Allows s)
    (quiet : ∀ vu, (s.workers.doing vu).idle = true)
    {i : Nat} {name : String} {isCounted : InvokeLuaResult → Bool}
    (counted : (i, name, isCounted) ∈ counts)
    (few : (observed hdr ratio s.workers.registry name [("protocol", "grpc")]
      .count).1.interner.vec.length ≤ 2 ^ 32)
    (fits : s.seen.length < 2 ^ 64) :
    (observed hdr ratio s.workers.registry name [("protocol", "grpc")] .count).2 =
      if (s.seen.countP fun e => isCounted e.2) = 0 then none
      else some (Ieee.ofU64 (UInt64.ofNat (s.seen.countP fun e => isCounted e.2))) := by
  obtain ⟨begun, tallied⟩ := (inv_reachable lawful run).tallied _ counted
  have bound : (s.seen.countP fun e => isCounted e.2) ≤ s.seen.length := List.countP_le_length
  have isCount := filterMap_adds isCounted s.seen
  have sum : (s.seen.filterMap (adds isCounted)).sum = s.seen.countP fun e => isCounted e.2 := by
    simp [isCount]
  have value := tallied.observed_eq ratio (counters_of_counts counted).1 quiet few
    (by rw [sum]; omega)
  dsimp only at value
  rw [sum, isCount] at value
  simp only [List.replicate_eq_nil_iff] at value
  exact value

end Runs

/-- A call before `connect` is not counted. Of the next two, by two VUs that record them one behind
the other and find no server, each is a request. -/
theorem seen_is_counted_notConnected :
    ∃ s, (machine exactBits counting fun _ : Fin 2 => ⟨"main", []⟩).ReachableBy State.Allows s ∧
      s.seen.map (fun e => e.2.errorKind) =
        [some "not_connected", some "connect", some "connect"] ∧
      (observed exactBits ratioBits s.workers.registry "requests_total" [("protocol", "grpc")]
        .count).2 = some (Ieee.ofU64 2) := by
  let attempt (vu : Fin 2) : Action (Fin 2) Unit Unit :=
    .invoke vu counting.transport none ⟨[77], threeHundred, none⟩
  obtain ⟨s, run, ⟨kinds, quiet, two, fits⟩, few⟩ := Machine.exists_reachableBy_of_exec
    (machine exactBits counting fun _ : Fin 2 => ⟨"main", []⟩) State.Allows
    (fun s => (s.seen.map (fun e => e.2.errorKind) =
        [some "not_connected", some "connect", some "connect"] ∧
      (∀ vu, (s.workers.doing vu).idle = true) ∧
      (s.seen.countP fun e => e.2.answered) = 2 ∧ s.seen.length < 2 ^ 64) ∧
      (observed exactBits ratioBits s.workers.registry "requests_total" [("protocol", "grpc")]
        .count).1.interner.vec.length ≤ 2 ^ 32)
    ([attempt 0, .answer 0 7, .use (.load ⟨[], "count.proto", .ok ()⟩),
      .use (.connect ⟨"count:1", ⟨none, none⟩, .ok (.connectPooled 1)⟩), attempt 0, attempt 1,
      .answer 0 9, .answer 1 8] ++ List.replicate 14 (.proceed 0) ++
      (List.replicate 33 [.proceed 0, .proceed 1]).flatten)
    rfl (by decide +kernel)
  have counted : (0, "requests_total", InvokeLuaResult.answered) ∈ counts := List.mem_cons_self
  have value := seen_is_counted lawful_exactBits run quiet counted few fits
  refine ⟨s, run, kinds, ?_⟩
  rw [value, two]
  rfl

end Wrkr.Lua.GrpcRuns
