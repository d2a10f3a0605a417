import Wrkr.Lua.HttpCalls
import Wrkr.Lua.ProtocolTotals

/-!
# HTTP in a run

VUs make HTTP calls and record other things; a call waits for its answer while other VUs go on. A
call that raises an error leaves no trace. Of every other one the script gets a response, when the
sample has been recorded, which takes many steps. So whenever no VU is inside a recording the
counters say of HTTP what the scripts have been told and how many bytes there were on the wire
(`exchanges_are_counted`).
-/
namespace Wrkr.Lua.HttpRuns

open Wrkr.Lib Wrkr.Metrics Wrkr.Core Wrkr.Core.Accounting Wrkr.Http Wrkr.Lua.HttpCalls
open Wrkr.Lua.Group (Call)
open Wrkr.Lua.ProtocolTotals

/-! ### Runs -/

/-- The calls that are requests come as `request` and `answer`. With `proceed` a VU goes on with
what it is recording. -/
inductive Action (ι Uri : Type)
  | proceed (vu : ι)
  | call (vu : ι) (currentGroup : Option String) (made : Call)
  | request (vu : ι) (connection : Connection Uri) (currentGroup : Option String)
      (opts : Option (List (LuaValue × LuaValue))) (function : FunctionCall)
  | answer (vu : ι) (latency : Nat)

/-- What the VUs record, and the calls that are on their way. -/
structure State (ι Uri H : Type) where
  workers : Workers ι H
  /-- The calls that wait for their answers, with the group that was current. -/
  pending : ι → Option (Option String × Except (Stop Raised) (Exchange Uri))
  /-- Ghost: the exchanges whose responses the scripts get, when they have been recorded. -/
  seen : List (ι × Exchange Uri)

section Code

variable {ι Url Uri H F : Type} [DecidableEq ι] (hdr : HdrHistogram H F)
  (outside : Outside Url Uri) (metricsCtx : ι → MetricsContext)

/-- The end of `request_impl`. -/
def recordExchange (metricsCtx : MetricsContext) (currentGroup : Option String) (latency : Nat)
    (exchange : Exchange Uri) : Work H :=
  requestWork metricIds.request (requestSample metricsCtx latency (exchange.outcome outside))
    (requestTags metricsCtx currentGroup exchange.request.method exchange.opts) .done

/-- The calls that go through the exchanges below instead. -/
def isHttp : Call → Bool
  | .http _ _ _ _ => true
  | .check _ | .grpc _ _ _ _ | .make _ _ | .add _ _ _ | .iteration _ _ => false

/-- A VU that waits for an answer, or is inside a recording, does nothing else. -/
def State.busy (s : State ι Uri H) (vu : ι) : Bool :=
  (s.pending vu).isSome || !(s.workers.doing vu).idle

/-- A VU that waits for an answer, or is inside a recording, does nothing else. -/
def step (s : State ι Uri H) : Action ι Uri → Option (State ι Uri H)
  | .proceed vu => (s.workers.proceed hdr vu).map fun workers => { s with workers }
  | .call vu currentGroup made =>
    if isHttp made || s.busy vu then none
    else
      let work := made.work hdr outside.text (metricsCtx vu) currentGroup .done
      some { s with workers := s.workers.begin vu work }
  | .request vu connection currentGroup opts function =>
    if s.busy vu then none
    else
      let made := call outside connection opts function
      some { s with pending := Function.update s.pending vu (some (currentGroup, made)) }
  | .answer vu latency =>
    (s.pending vu).map fun (currentGroup, made) =>
      let pending := Function.update s.pending vu none
      match made with
      -- the error is raised, or the panic goes on
      | .error _ => { s with pending }
      | .ok exchange =>
        let work := recordExchange outside (metricsCtx vu) currentGroup latency exchange
        { workers := s.workers.begin vu work
          pending
          seen := s.seen ++ [(vu, exchange)] }

/-- From the registrations of the run on. -/
def machine : Machine (State ι Uri H) (Action ι Uri) where
  init s := s = ⟨.init registered, fun _ => none, []⟩
  step := step hdr outside metricsCtx

end Code

/-- A custom metric that is recorded on is none of the run's, and an insert of `get_handle` still
finds its series absent. -/
def State.Allows {ι Uri H : Type} (s : State ι Uri H) : Action ι Uri → Prop
  | .proceed vu => (s.workers.doing vu).InsertsFresh s.workers.registry
  | .call _ _ made => made.OwnMetric
  | .request _ _ _ _ _ | .answer _ _ => True

instance {ι Uri H : Type} (s : State ι Uri H) (a : Action ι Uri) : Decidable (s.Allows a) :=
  match a with
  | .proceed vu => inferInstanceAs (Decidable ((s.workers.doing vu).InsertsFresh _))
  | .call _ _ made => inferInstanceAs (Decidable made.OwnMetric)
  | .request _ _ _ _ _ | .answer _ _ => .isTrue trivial

/-- The counters, and what an exchange adds to them: a request, the bytes on the wire, and an error
if the script has got one. -/
def counts {Url Uri : Type} (outside : Outside Url Uri) :
    List (Nat × String × (Exchange Uri → Option Nat)) :=
  [(0, "requests_total", fun _ => some 1),
    (1, "bytes_received_total", fun exchange => some (exchange.wireReceived outside)),
    (2, "bytes_sent_total", fun exchange => some (exchange.wireSent outside)),
    (3, "request_errors_total", fun exchange =>
      if (exchange.response outside).error.isSome then some 1 else none)]

/-! ### The invariant -/

section Invariant

variable {ι Url Uri H F : Type} {hdr : HdrHistogram H F} {outside : Outside Url Uri}
  {count : Nat × String × (Exchange Uri → Option Nat)}

theorem counters_of_counts (member : count ∈ counts outside) :
    runMetrics[count.1]? = some (count.2.1, .counter) ∧ count.1 < 6 := by
  simp only [counts, List.mem_cons, List.not_mem_nil, or_false] at member
  rcases member with rfl | rfl | rfl | rfl <;> simp [runMetrics]

/-- What is recorded for an exchange is what it counts for. -/
theorem added_exchange (isCount : count ∈ counts outside) (exchange : Exchange Uri)
    (metricsCtx : MetricsContext) (latency : Nat) :
    let sample := requestSample metricsCtx latency (exchange.outcome outside)
    (Group.addedBySample (UInt32.ofNat count.1) sample).map UInt64.toNat =
      (count.2.2 exchange).toList := by
  obtain ⟨-, received, sent, ok⟩ := sample_spec outside exchange metricsCtx latency
  generalize requestSample metricsCtx latency (exchange.outcome outside) = sample at *
  simp only [counts, List.mem_cons, List.not_mem_nil, or_false] at isCount
  rcases isCount with rfl | rfl | rfl | rfl
  · simp [Group.addedBySample, metricIds]
  · simp [Group.addedBySample, metricIds, received]
  · simp [Group.addedBySample, metricIds, sent]
  · cases told : (exchange.response outside).error <;>
      simp [Group.addedBySample, metricIds, ok, told]

/-- What an exchange of a VU adds to a counter. -/
def adds (count : Exchange Uri → Option Nat) (e : ι × Exchange Uri) : Option Nat := count e.2

variable [DecidableEq ι]

variable (hdr outside) in
/-- A VU that waits records nothing, and each counter holds what the exchanges seen so far add, or
what is still owed of it. -/
structure Inv (s : State ι Uri H) : Prop where
  waits : ∀ vu, (s.pending vu).isSome → (s.workers.doing vu).idle = true
  tallied : ∀ count ∈ counts outside, ∃ begun,
    Tallied hdr .http count.1 (adds count.2.2) s.workers s.seen begun

variable {metricsCtx : ι → MetricsContext} {s s' : State ι Uri H}

omit [DecidableEq ι] in
theorem not_busy {vu : ι} (free : s.busy vu = false) :
    s.pending vu = none ∧ (s.workers.doing vu).idle = true := by
  simpa [State.busy] using free

/-- Only an answer adds to what is seen; a call that raises an error does not. -/
theorem inv_step (lawful : hdr.Lawful) {a : Action ι Uri} (inv : Inv hdr outside s)
    (allowed : s.Allows a) (taken : step hdr outside metricsCtx s a = some s') :
    Inv hdr outside s' := by
  cases a with
  | proceed vu =>
    obtain ⟨workers, next, rfl⟩ := Option.map_eq_some_iff.mp taken
    refine ⟨fun vu' waits => Workers.idle_proceed hdr next (inv.waits vu' waits),
      fun count isCount => ?_⟩
    obtain ⟨begun, tallied⟩ := inv.tallied count isCount
    exact ⟨begun, tallied.proceed lawful allowed next⟩
  | call vu currentGroup made =>
    rw [step] at taken
    split at taken
    · cases taken
    next free =>
      cases taken
      rw [Bool.or_eq_true, not_or, Bool.not_eq_true, Bool.not_eq_true] at free
      obtain ⟨silent, idle⟩ := not_busy free.2
      have other : protocolOf made ≠ some .http := by
        have notHttp := free.1
        cases made <;> simp_all [isHttp, protocolOf]
      refine ⟨fun vu' waits => ?_, fun count isCount => ?_⟩
      · -- the VU that calls does not wait
        have differs : vu' ≠ vu := by
          rintro rfl
          simp [silent] at waits
        rw [Workers.doing_begin_of_ne differs]
        exact inv.waits vu' waits
      · obtain ⟨here, isRequests⟩ := counters_of_counts isCount
        obtain ⟨begun, tallied⟩ := inv.tallied count isCount
        exact ⟨_, tallied.call here idle isRequests outside.text (metricsCtx vu) currentGroup
          allowed other⟩
  -- nothing is recorded while the exchange is on its way
  | request vu connection currentGroup opts function =>
    rw [step] at taken
    split at taken
    · cases taken
    next free =>
      cases taken
      obtain ⟨-, idle⟩ := not_busy (Bool.eq_false_iff.mpr free)
      refine ⟨fun vu' waits => ?_, inv.tallied⟩
      dsimp only at waits
      rcases eq_or_ne vu' vu with rfl | differs
      · exact idle
      · rw [Function.update_of_ne differs] at waits
        exact inv.waits vu' waits
  | answer vu latency =>
    obtain ⟨⟨currentGroup, made⟩, waiting, rfl⟩ := Option.map_eq_some_iff.mp taken
    have idle := inv.waits vu (Option.isSome_of_eq_some waiting)
    have others (vu' : ι) (waits : (Function.update s.pending vu none vu').isSome) :
        vu' ≠ vu ∧ (s.workers.doing vu').idle = true := by
      rcases eq_or_ne vu' vu with rfl | differs
      · simp at waits
      · rw [Function.update_of_ne differs] at waits
        exact ⟨differs, inv.waits vu' waits⟩
    cases made with
    -- a request that raises an error is not recorded, and the script gets no response
    | error stop => exact ⟨fun vu' waits => (others vu' waits).2, inv.tallied⟩
    | ok exchange =>
      refine ⟨fun vu' waits => ?_, fun count isCount => ?_⟩
      · obtain ⟨differs, otherIdle⟩ := others vu' waits
        exact (Workers.doing_begin_of_ne differs _).symm ▸ otherIdle
      · obtain ⟨begun, tallied⟩ := inv.tallied count isCount
        refine ⟨_, tallied.request (counters_of_counts isCount).1 idle _ _ ?_⟩
        -- the sample carries the protocol and the counts of this exchange
        have isHttp := (sample_spec outside exchange (metricsCtx vu) latency).1
        rw [if_pos isHttp, added_exchange isCount]
        cases added : count.2.2 exchange <;> simp [adds, added]

end Invariant

section Runs

variable {ι Url Uri H : Type} [DecidableEq ι] {hdr : HdrHistogram H UInt64}
  {ratio : UInt64 → UInt64 → UInt64} {outside : Outside Url Uri} {metricsCtx : ι → MetricsContext}
  {s : State ι Uri H}

/-- The invariant along a run. -/
theorem inv_reachable (lawful : hdr.Lawful)
    (run : (machine hdr outside metricsCtx).ReachableBy State.Allows s) : Inv hdr outside s := by
  refine run.invariant (Inv hdr outside) ?_
    fun s a s' inv allowed taken => inv_step lawful inv allowed taken
  intro s start
  change s = ⟨.init registered, _, _⟩ at start
  have tallied (count : Nat × String × (Exchange Uri → Option Nat)) :
      Tallied hdr .http count.1 (adds (ι := ι) count.2.2) (.init registered : Workers ι H) [] [] :=
    tallied_init hdr .http count.1 _
  -- only that nothing is recorded yet matters of the first registry
  generalize (Workers.init registered : Workers ι H) = workers at start tallied
  subst start
  exact ⟨fun vu waits => (by cases waits), fun count _ => ⟨[], tallied count⟩⟩

/-- In every interleaving of the VUs and of the steps of their recordings in which no insert of
`get_handle` replaces a series, at any moment at which no VU is inside a recording: of the requests
with the protocol HTTP, a threshold on one of these counters observes the sum of what the exchanges
add to it whose responses the scripts have got, and nothing as long as none of them adds to it. -/
theorem exchanges_are_counted (lawful : hdr.Lawful)
    (run : (machine hdr outside metricsCtx).ReachableBy State.Allows s)
    (quiet : ∀ vu, (s.workers.doing vu).idle = true)
    {i : Nat} {name : String} {added : Exchange Uri → Option Nat}
    (counted : (i, name, added) ∈ counts outside)
    (few : (observed hdr ratio s.workers.registry name [("protocol", "http")]
      .count).1.interner.vec.length ≤ 2 ^ 32)
    (fits : (s.seen.filterMap fun e => added e.2).sum < 2 ^ 64) :
    (observed hdr ratio s.workers.registry name [("protocol", "http")] .count).2 =
      if (s.seen.filterMap fun e => added e.2) = [] then none
      else some (Ieee.ofU64 (UInt64.ofNat (s.seen.filterMap fun e => added e.2).sum)) := by
  obtain ⟨begun, tallied⟩ := (inv_reachable lawful run).tallied _ counted
  exact tallied.observed_eq ratio (counters_of_counts counted).1 quiet few fits

end Runs

section Example

/-- Every request is answered by a body of one byte. -/
def answering : Connection String := ⟨fun _ => .ok ⟨.http11, 200, [], .ok [1]⟩, fun _ _ => false⟩

/-- A server that takes a post to one URL. -/
def posting : Outside Http.HttpsUrl String where
  url := Http.httpsUrls
  crates := postCrates
  display := ⟨"", "", "", fun _ => ""⟩
  text := ⟨fun _ => "", fun _ => ""⟩
  humantime _ := .error ""
  encodeToVec _ := .error ""
  methodFromBytes _ := none
  envVars := []

/-- A request that is answered, while another VU has one with a URL that is none, and then a call
that raises an error. -/
theorem exchanges_are_counted_post :
    ∃ s, (machine exactBits posting fun _ : Fin 2 => ⟨"main", []⟩).ReachableBy State.Allows s ∧
      s.seen.map (fun e => (e.2.response posting).status) = [200, 0] ∧
      (observed exactBits ratioBits s.workers.registry "bytes_sent_total" [("protocol", "http")]
        .count).2 = some (Ieee.ofU64 112) := by
  let added (exchange : Exchange String) : Option Nat := some (exchange.wireSent posting)
  obtain ⟨s, run, ⟨statuses, quiet, sent, fits⟩, few⟩ := Machine.exists_reachableBy_of_exec
    (machine exactBits posting fun _ : Fin 2 => ⟨"main", []⟩) State.Allows
    (fun s => (s.seen.map (fun e => (e.2.response posting).status) = [200, 0] ∧
      (∀ vu, (s.workers.doing vu).idle = true) ∧
      (s.seen.filterMap fun e => added e.2) = [112, 0] ∧
      (s.seen.filterMap fun e => added e.2).sum < 2 ^ 64) ∧
      (observed exactBits ratioBits s.workers.registry "bytes_sent_total" [("protocol", "http")]
        .count).1.interner.vec.length ≤ 2 ^ 32)
    ([.request 0 answering none none (.post "http://api.test:8080/items?id=1" (.string [1, 2])),
      .request 1 answering none none (.get "items"), .answer 0 7, .answer 1 9] ++
      List.replicate 12 (.proceed 0) ++ (List.replicate 23 [.proceed 1, .proceed 0]).flatten ++
      List.replicate 30 (.proceed 1) ++
      [.request 0 answering none none (.request [63] "items" none), .answer 0 9])
    rfl (by decide +kernel)
  have counted : (2, "bytes_sent_total", added) ∈ counts posting := by simp [counts, added]
  have value := exchanges_are_counted lawful_exactBits run quiet counted few fits
  refine ⟨s, run, statuses, ?_⟩
  rw [value, sent]
  rfl

end Example

end Wrkr.Lua.HttpRuns
