import Wrkr.Core.ScenarioSummary
import Wrkr.Core.TagSelector
import Wrkr.Core.Thresholds
import Wrkr.Lib.Ieee
import Mathlib.Algebra.BigOperators.Ring.List

/-!
# Thresholds against summaries

What `evaluate_thresholds` observes of a metric: one value for an aggregation over all series
that the selector of the threshold set matches. The latency of every request is in two series,
and both match a selector by scenario, while the scenario summary counts the one without a
protocol. So the count that a threshold sees is never that of the summary
(`threshold_count_differs`). Values of type `f64` are their bits.
-/
namespace Wrkr.Core

open Wrkr.Lib Wrkr.Metrics

variable {H : Type} (hdr : HdrHistogram H UInt64) (ratio : UInt64 → UInt64 → UInt64)

/-- Whether there is a series that the selector matches, whatever it holds. -/
def TagSelector.anySeries (selector : TagSelector) (metrics : Registry H) (metricId : MetricId) :
    Bool :=
  (metrics.visitSeries metricId).any fun e => selector.matchesTags e.1

/-- The value that a threshold compares, by the kind of the metric and the aggregation. A
combination that has none is `none`. -/
def observedValue (metrics : Registry H) (metricId : MetricId) (kind : MetricKind)
    (agg : ThresholdAgg) (selector : TagSelector) : Option UInt64 :=
  let histogram := metrics.foldHistogramSummary hdr metricId selector.matchesTags
  let (total, _hits, rate) := metrics.foldRateSum ratio metricId selector.matchesTags
  match agg, kind with
  | .count, .counter => some (Ieee.ofU64 (metrics.foldCounterSum metricId selector.matchesTags))
  | .count, .rate => some (Ieee.ofU64 total)
  | .count, .histogram => histogram.map fun h => Ieee.ofU64 h.count
  | .count, .gauge => none
  | .rate, .rate => rate
  | .rate, _ => none
  | .avg, .histogram => histogram.bind HistogramSummary.mean
  | .avg, _ => none
  | .min, .histogram => histogram.bind HistogramSummary.min
  | .min, _ => none
  | .max, .histogram => histogram.bind HistogramSummary.max
  | .max, _ => none
  | .p percent, .histogram => histogram.bind fun h =>
    -- the summary has five percentiles; `p` of any other observes nothing
    if percent = 50 then h.p50
    else if percent = 75 then h.p75
    else if percent = 90 then h.p90
    else if percent = 95 then h.p95
    else if percent = 99 then h.p99
    else none
  | .p _, _ => none

/-- The value that `evaluate_thresholds` compares for an aggregation of a metric. -/
def observed (metrics : Registry H) (metric : String) (tags : List (String × String))
    (agg : ThresholdAgg) : Registry H × Option UInt64 :=
  let (metrics, selector) := TagSelector.new metrics tags
  let (metrics, found) := metrics.lookupMetric metric
  match found with
  | none => (metrics, none)
  | some (metricId, kind) =>
    -- a selector that no series matches observes nothing, not zero
    (metrics, if selector.anySeries metrics metricId then
      observedValue hdr ratio metrics metricId kind agg selector else none)

namespace Accounting

/-! ### The two series of a latency -/

/-- The protocol is no tag of the scenario. -/
theorem ofScenario_scopedEntry {n : Interner} (apart : n.idOf "scenario" ≠ n.idOf "protocol")
    (scenario : String) (sample : RequestSample) (extraTags : List (String × String)) :
    ofScenario n scenario (n.tagSet (scopedEntry sample extraTags).pairs) =
      ofScenario n scenario (n.tagSet (overallEntry sample extraTags).pairs) := by
  have get : (n.tagSet (scopedEntry sample extraTags).pairs).get (n.idOf "scenario") =
      (n.tagSet (overallEntry sample extraTags).pairs).get (n.idOf "scenario") := by
    -- the two tag sets have the same pairs under the key of the scenario
    apply (Interner.tagSet_sorted n _).get_congr (Interner.tagSet_sorted n _)
    intro value
    rw [Interner.mem_tagSet, Interner.mem_tagSet]
    simp [scopedEntry, overallEntry, merged, Interner.idsOf, Ne.symm apart]
  rw [ofScenario, ofScenario, get]

/-- What a request adds to the series of the scenario. -/
def matching (n : Interner) (scenario : String) : Event → Nat
  | .request sample extraTags =>
    if ofScenario n scenario (n.tagSet (overallEntry sample extraTags).pairs) then
      (Amount.observe (recordedMicros sample.latency)).size hdr else 0
  | .iteration _ _ => 0

/-- Both series of a request pass the selector or none does. -/
theorem recorded_matching {n : Interner} (apart : n.idOf "scenario" ≠ n.idOf "protocol")
    (scenario : String) (event : Event) :
    Registry.recorded hdr metricIds.request.latency (ofScenario n scenario)
        (event.entries.map fun e => e.at n) = 2 * matching hdr n scenario event ∧
      Registry.recorded hdr metricIds.request.latency (overallOf n scenario)
        (event.entries.map fun e => e.at n) ≤ matching hdr n scenario event := by
  cases event with
  | iteration sample extraTags =>
    simp [Registry.recorded, Event.entries, Entry.at, metricIds, matching]
  | request sample extraTags =>
    rw [recorded_latency, recorded_latency, ofScenario_scopedEntry apart, overallOf_scopedEntry,
      matching]
    constructor
    -- counted twice, or not at all
    · split <;> omega
    · rw [overallOf]
      cases ofScenario n scenario (n.tagSet (overallEntry sample extraTags).pairs)
      · simp
      · simp only [Bool.true_and, Bool.false_eq_true, ↓reduceIte, Nat.add_zero]
        split <;> omega

/-! ### Ids of the first strings -/

theorem length_appendNew_le (vec : List String) (s : String) :
    (Interner.appendNew vec s).length ≤ vec.length + 1 := by
  rw [Interner.appendNew]
  split <;> simp

/-- The interner after the registrations and at most three more strings. -/
theorem ample_early (first second third : String) :
    ((registered : Registry H).interner.internAll [first, second, third]).Ample := by
  have wf : (registered : Registry H).interner.Wf := registered_catalog.interner
  refine ⟨((wf.getOrIntern first).getOrIntern second).getOrIntern third, ?_⟩
  -- nine names were interned by the registrations
  have names : (registered : Registry H).interner.vec.length = 9 := by
    rw [registered_catalog.names]
    rfl
  rw [wf.vec_internAll]
  have one := length_appendNew_le (registered : Registry H).interner.vec first
  have two := length_appendNew_le (Interner.appendNew (registered : Registry H).interner.vec first)
    second
  have three := length_appendNew_le (Interner.appendNew
    (Interner.appendNew (registered : Registry H).interner.vec first) second) third
  simp only [List.foldl_cons, List.foldl_nil]
  omega

/-- The keys of the queries, when they come first. -/
theorem extends_first_keys (r : Registry H) :
    Interner.Extends (r.interner.internAll ["scenario", "scenario", "protocol"])
      (TagKeys.new r).1.interner := by
  have again : r.interner.internAll ["scenario", "scenario", "protocol"] =
      r.interner.internAll ["scenario", "protocol"] := by
    change ((r.interner.getOrIntern "scenario").1.getOrIntern "scenario").1.internAll ["protocol"] = _
    rw [(Interner.knows_getOrIntern _ "scenario").getOrIntern]
    rfl
  have rest : r.interner.internAll ["scenario", "protocol", "status", "name", "fail"] =
      (r.interner.internAll ["scenario", "protocol"]).internAll ["status", "name", "fail"] :=
    Interner.internAll_append r.interner ["scenario", "protocol"] ["status", "name", "fail"]
  rw [again, tagKeys_registry, Registry.withInterner, rest]
  exact Interner.internAll_extends _ _

/-- The tags of a request, when they come first. -/
theorem extends_first_request (r : Registry H) (sample : RequestSample)
    (extraTags : List (String × String)) :
    Interner.Extends (r.interner.internAll ["scenario", sample.scenario, "protocol"])
      (metricIds.request.recordRequest hdr r sample extraTags).interner := by
  let resolved := resolveWith r RequestMetricIds.reserved extraTags
    [("scenario", sample.scenario), ("protocol", sample.protocol.asStr)]
  -- the first list of tags begins with these strings
  have strings : Interner.Extends (r.interner.internAll ["scenario", sample.scenario, "protocol"])
      resolved.1.interner := by
    simp only [resolved, resolveWith_eq, Registry.resolveTags, Interner.internPairs_fst]
    exact Interner.internAll_extends _ _
  have evolves : Registry.Evolves hdr resolved.1
      (metricIds.request.recordRequest hdr r sample extraTags) :=
    ((((((Registry.Evolves.touch _ _ _ _).trans (.touch _ _ _ _)).trans (.touch _ _ _ _)).trans
      (evolves_recordErrors hdr _ _ _ _)).trans (evolves_resolveWith hdr _ _ _ _)).trans
      (.touch _ _ _ _)).trans (.touch _ _ _ _)
  exact strings.trans evolves.interner.1

/-- A run that makes only requests. -/
def requestEvents (calls : List (RequestSample × List (String × String))) : List Event :=
  calls.map fun call => .request call.1 call.2

/-- Whatever is recorded, the two keys are interned with one string between them at most. -/
theorem extends_first (r : Registry H) (calls : List (RequestSample × List (String × String))) :
    ∃ middle, Interner.Extends (r.interner.internAll ["scenario", middle, "protocol"])
      (TagKeys.new (recordAll hdr metricIds r (requestEvents calls))).1.interner := by
  cases calls with
  -- nothing was recorded: the queries intern the keys themselves
  | nil =>
    rw [requestEvents, List.map_nil, recordAll, List.foldl_nil]
    exact ⟨"scenario", extends_first_keys r⟩
  | cons call rest =>
    have first : recordAll hdr metricIds r (requestEvents (call :: rest)) =
        recordAll hdr metricIds (metricIds.request.recordRequest hdr r call.1 call.2)
          (requestEvents rest) := rfl
    have later := (evolves_recordAll hdr (metricIds.request.recordRequest hdr r call.1 call.2)
      (requestEvents rest)).trans (evolves_tagKeys hdr _)
    rw [first]
    exact ⟨call.1.scenario, (extends_first_request hdr r call.1 call.2).trans later.interner.1⟩

variable (before after : List (RequestSample × List (String × String))) (scenario : String)

/-- The keys of the two tags are among the first strings of every run of requests, so their ids
differ, however many strings follow. -/
theorem scenario_ne_protocol :
    (lastInterner hdr (requestEvents before) (requestEvents after) scenario).idOf "scenario" ≠
      (lastInterner hdr (requestEvents before) (requestEvents after) scenario).idOf "protocol" := by
  obtain ⟨middle, first⟩ := extends_first hdr registered before
  -- an id never changes, so it is enough that the two differ early on
  have early := first.trans
    (extends_tagKeys hdr (requestEvents before) (requestEvents after) scenario)
  have ample := ample_early (H := H) "scenario" middle "protocol"
  have knowsScenario : ((registered : Registry H).interner.internAll
      ["scenario", middle, "protocol"]).Knows "scenario" :=
    ((Interner.getOrIntern_extends _ middle).trans (Interner.getOrIntern_extends _ "protocol")).knows
      (Interner.knows_getOrIntern _ "scenario")
  have knowsProtocol : ((registered : Registry H).interner.internAll
      ["scenario", middle, "protocol"]).Knows "protocol" := Interner.knows_getOrIntern _ "protocol"
  rw [early.idOf_eq knowsScenario, early.idOf_eq knowsProtocol]
  intro same
  exact absurd (ample.idOf_inj knowsScenario knowsProtocol same) (by decide)

/-! ### The observed count -/

/-- A count of the latency is the count of the histogram over all matching series. -/
theorem observed_count {r₀ r : Registry H} (catalog : r₀.Catalog runMetrics)
    (defs : r.defs = r₀.defs) (ext : Interner.Extends r₀.interner r.interner)
    (tags : List (String × String)) {value : UInt64}
    (isObserved : (observed hdr ratio r "request_latency" tags .count).2 = some value) :
    ∃ summary, r.foldHistogramSummary hdr metricIds.request.latency
        (TagSelector.new r tags).2.matchesTags = some summary ∧
      value = Ieee.ofU64 summary.count := by
  obtain ⟨interner, isNew⟩ := TagSelector.new_withInterner r tags
  have ext' := ext.trans (TagSelector.new_evolves hdr r tags).interner.1
  have defs' : (TagSelector.new r tags).1.defs = r₀.defs := by
    rw [isNew]
    exact defs
  -- the metric is the sixth of the run
  have found := catalog.lookupMetric (by decide) defs' ext' (i := 5) rfl
  have same : (((TagSelector.new r tags).1.lookupMetric "request_latency").1).visitSeries =
      r.visitSeries := by
    rw [isNew]
    rfl
  simp only [observed, found] at isObserved
  split at isObserved
  · simp only [observedValue, Registry.foldHistogramSummary, same, Option.map_eq_some_iff] at isObserved
    obtain ⟨summary, folded, rfl⟩ := isObserved
    exact ⟨summary, folded, rfl⟩
  · cases isObserved

include hdr in
/-- A selector by scenario is the filter of the queries. -/
theorem matchesTags_scenario {r : Registry H} (knowsKey : r.interner.Knows "scenario")
    (knowsValue : r.interner.Knows scenario) :
    (TagSelector.new r [("scenario", scenario)]).2.matchesTags = ofScenario r.interner scenario := by
  have ext := (TagSelector.new_evolves hdr r [("scenario", scenario)]).interner.1
  obtain ⟨isSelector, -⟩ := TagSelector.new_spec (List.cons_ne_nil ("scenario", scenario) [])
    (Interner.Extends.refl (TagSelector.new r [("scenario", scenario)]).1.interner)
  funext tags
  rw [isSelector, TagSelector.matchesTags, ofScenario, decide_eq_decide, List.map_singleton,
    ext.idOf_eq knowsKey]
  -- the selector is resolved through the same interner
  have pairs : (TagSelector.new r [("scenario", scenario)]).1.interner.tagSet
      [("scenario", scenario)] =
      ⟨[(r.interner.idOf "scenario", r.interner.idOf scenario)]⟩ := by
    rw [Interner.tagSet, List.map_singleton, Interner.idsOf, ext.idOf_eq knowsKey,
      ext.idOf_eq knowsValue]
    rfl
  rw [pairs]
  cases found : tags.get (r.interner.idOf "scenario") <;> simp [TagSet.project, found]

/-- The threshold count of the scenario is the count of its summary, which is the number of its
requests. -/
def SelectorAgrees (calls : List (RequestSample × List (String × String))) (scenario : String)
    (out : Registry H × ScenarioSummary UInt64) : Prop :=
  ∃ latency, out.2.latency = some latency ∧
    latency.count.toNat = (requestsOf scenario (requestEvents calls)).length ∧
    (observed hdr ratio out.1 "request_latency" [("scenario", scenario)] .count).2 =
      some (Ieee.ofU64 latency.count)

/-- The threshold count without a selector is the number of all requests. -/
def TotalAgrees (calls : List (RequestSample × List (String × String)))
    (out : Registry H × ScenarioSummary UInt64) : Prop :=
  (observed hdr ratio out.1 "request_latency" [] .count).2 =
    some (Ieee.ofU64 (UInt64.ofNat calls.length))

section Counts

variable {before after}

/-- What the series of the scenario hold at the end of a run: twice the matching latencies. -/
theorem total_matching (lawful : hdr.Lawful) (fits : 2 * (before ++ after).length < 2 ^ 64)
    (predicate : TagSet → Bool) {amount : Event → Nat} (small : ∀ event, amount event ≤ 2)
    (isAmount : ∀ event, Registry.recorded hdr metricIds.request.latency predicate
      (event.entries.map fun e => e.at
        (lastInterner hdr (requestEvents before) (requestEvents after) scenario)) = amount event) :
    total predicate (weight hdr .histogram)
        ((summarize hdr (requestEvents before) (requestEvents after) scenario).1.visitSeries
          metricIds.request.latency) =
      ((requestEvents (before ++ after)).map amount).sum := by
  have logs := logs_summarize hdr (requestEvents before) (requestEvents after) scenario
  have events : requestEvents before ++ requestEvents after = requestEvents (before ++ after) := by
    simp [requestEvents]
  rw [events] at logs
  refine total_of_logs hdr lawful registered_catalog logs 5 rfl predicate ?_ ?_
  · exact congrArg List.sum (List.map_congr_left fun event _ => isAmount event)
  -- an event adds two at most
  · have bound : ((requestEvents (before ++ after)).map amount).sum ≤
        ((requestEvents (before ++ after)).map amount).length • 2 :=
      List.sum_le_card_nsmul _ 2 (by simpa using fun event _ => small event)
    simp only [List.length_map, requestEvents, Nat.nsmul_eq_mul] at bound ⊢
    omega

theorem size_observe_le (v : UInt64) : (Amount.observe v).size hdr ≤ 1 := by
  rw [Amount.size]
  split <;> omega

theorem matching_le (n : Interner) (event : Event) : matching hdr n scenario event ≤ 1 := by
  cases event with
  | iteration _ _ => exact Nat.zero_le 1
  | request sample extraTags =>
    rw [matching]
    split
    · exact size_observe_le hdr _
    · exact Nat.zero_le 1

/-- The registry at the end of a run as the thresholds find it. -/
structure Evaluated (n : Interner) (r : Registry H) : Prop where
  interner : r.interner = n
  knowsKey : n.Knows "scenario"
  knowsValue : n.Knows scenario
  defs : r.defs = (registered : Registry H).defs
  extended : Interner.Extends (registered : Registry H).interner r.interner

theorem evaluated_summarize (before after : List Event) :
    Evaluated scenario (lastInterner hdr before after scenario)
      (summarize hdr before after scenario).1 := by
  have ext := extends_tagKeys hdr before after scenario
  have logs := logs_summarize hdr before after scenario
  refine ⟨rfl, (tagKeys_spec _ ext).1.2, ?_, logs.records.defs, ?_⟩
  · rw [lastInterner, summarize_eq]
    exact Interner.knows_getOrIntern _ scenario
  · have evolves := (evolves_recordAll hdr (registered : Registry H) before).trans
      (evolves_tagKeys hdr _)
    exact evolves.interner.1.trans ext

theorem recorded_le (n : Interner) (predicate : TagSet → Bool) (event : Event) :
    Registry.recorded hdr metricIds.request.latency predicate
      (event.entries.map fun e => e.at n) ≤ 2 := by
  cases event with
  | iteration sample extraTags =>
    simp [Registry.recorded, Event.entries, Entry.at, metricIds]
  | request sample extraTags =>
    have size := size_observe_le hdr (recordedMicros sample.latency)
    rw [recorded_latency]
    split <;> split <;> omega

theorem sum_matching_le (n : Interner) (calls : List (RequestSample × List (String × String))) :
    ((requestEvents calls).map (matching hdr n scenario)).sum ≤ calls.length := by
  have bound : ((requestEvents calls).map (matching hdr n scenario)).sum ≤
      ((requestEvents calls).map (matching hdr n scenario)).length • 1 :=
    List.sum_le_card_nsmul _ 1 (by simpa using fun event _ => matching_le hdr scenario n event)
  simpa [requestEvents] using bound

/-- A count of the latency over twice as many values as a summary has is not its count. -/
theorem observed_ne_half (lawful : hdr.Lawful) {n : Interner} {r : Registry H}
    (evaluated : Evaluated scenario n r) (tags : List (String × String)) {predicate : TagSet → Bool}
    (selects : (TagSelector.new r tags).2.matchesTags = predicate) {values : Nat}
    (isTotal : total predicate (weight hdr .histogram) (r.visitSeries metricIds.request.latency) =
      2 * values) (fits : 2 * values < 2 ^ 64) {count : UInt64} (nonzero : count ≠ 0)
    (half : count.toNat ≤ values) :
    (observed hdr ratio r "request_latency" tags .count).2 ≠ some (Ieee.ofU64 count) := by
  intro isObserved
  obtain ⟨summary, folded, sameValue⟩ := observed_count hdr ratio registered_catalog evaluated.defs
    evaluated.extended _ isObserved
  rw [selects] at folded
  have isWeight : Cell.histogramLen hdr = weight hdr .histogram := rfl
  have observedCount := (foldHistogramSummary_count hdr lawful r metricIds.request.latency predicate
    (by rw [isWeight, isTotal]; exact fits)).2 summary folded
  rw [isWeight, isTotal] at observedCount
  -- a number and its double are different floats as well
  exact Ieee.ofU64_ne_double nonzero (by omega) (by omega) sameValue.symm

/-- With a single request of the scenario the two ways of asking differ: each request is in two
latency series, the one without and the one with the protocol, and the selector takes both. -/
theorem not_selectorAgrees (lawful : hdr.Lawful)
    (some : requestsOf scenario (requestEvents (before ++ after)) ≠ [])
    (fits : 2 * (before ++ after).length < 2 ^ 64) :
    ¬SelectorAgrees hdr ratio (before ++ after) scenario
      (summarize hdr (requestEvents before) (requestEvents after) scenario) := by
  have apart := scenario_ne_protocol hdr before after scenario
  have evaluated := evaluated_summarize hdr scenario (requestEvents before) (requestEvents after)
  have reads := reads_summarize hdr (requestEvents before) (requestEvents after) scenario lawful
  have all := total_matching hdr scenario lawful fits
  generalize lastInterner hdr (requestEvents before) (requestEvents after) scenario = n at *
  generalize summarize hdr (requestEvents before) (requestEvents after) scenario = out at *
  rintro ⟨latency, isLatency, counted, isObserved⟩
  have bound := sum_matching_le hdr scenario n (before ++ after)
  have selected := all (ofScenario n scenario)
    (fun event => Nat.mul_le_mul_left 2 (matching_le hdr scenario n event))
    (fun event => (recorded_matching hdr apart scenario event).1)
  rw [List.sum_map_mul_left] at selected
  have overall := all (overallOf n scenario) (fun event => Nat.le_succ_of_le
    ((recorded_matching hdr apart scenario event).2.trans (matching_le hdr scenario n event)))
    (fun _ => rfl)
  -- the summary has at most half of what the selector matches
  have half : total (overallOf n scenario) (weight hdr .histogram)
      (out.1.visitSeries metricIds.request.latency) ≤
      ((requestEvents (before ++ after)).map (matching hdr n scenario)).sum := by
    rw [overall]
    exact List.sum_le_sum fun event _ => (recorded_matching hdr apart scenario event).2
  have summaryCount := (reads.latency (by omega)).2
  rw [isLatency, Option.map_some, Option.getD_some] at summaryCount
  have selects : (TagSelector.new out.1 [("scenario", scenario)]).2.matchesTags =
      ofScenario n scenario := by
    rw [← evaluated.interner]
    exact matchesTags_scenario hdr scenario (evaluated.interner ▸ evaluated.knowsKey)
      (evaluated.interner ▸ evaluated.knowsValue)
  have nonzero : latency.count ≠ 0 := by
    rintro zero
    rw [zero, UInt64.toNat_zero] at counted
    exact some (List.length_eq_zero_iff.mp counted.symm)
  exact observed_ne_half hdr ratio scenario lawful evaluated _ selects selected (by omega) nonzero
    (by omega) isObserved

/-- Without tags the selector takes every series. -/
theorem not_totalAgrees (lawful : hdr.Lawful) (some : before ++ after ≠ [])
    (fits : 2 * (before ++ after).length < 2 ^ 64)
    (accepted : ∀ call ∈ before ++ after, hdr.accepts (recordedMicros call.1.latency)) :
    ¬TotalAgrees hdr ratio (before ++ after)
      (summarize hdr (requestEvents before) (requestEvents after) scenario) := by
  have evaluated := evaluated_summarize hdr scenario (requestEvents before) (requestEvents after)
  have all := total_matching hdr scenario lawful fits
  generalize lastInterner hdr (requestEvents before) (requestEvents after) scenario = n at *
  generalize summarize hdr (requestEvents before) (requestEvents after) scenario = out at *
  have isTotal := all (fun _ => true) (recorded_le hdr n _) (fun _ => rfl)
  -- every request is in two series
  have twice : ((requestEvents (before ++ after)).map fun event =>
      Registry.recorded hdr metricIds.request.latency (fun _ => true)
        (event.entries.map fun e => e.at n)).sum = 2 * (before ++ after).length := by
    rw [requestEvents, List.map_map, List.map_congr_left (g := fun _ => 2)]
    · simp [Nat.mul_comm]
    · intro call member
      simp [recorded_latency, Amount.size, accepted call member]
  rw [twice] at isTotal
  have positive := List.length_pos_of_ne_nil some
  have len : (UInt64.ofNat (before ++ after).length).toNat = (before ++ after).length :=
    UInt64.toNat_ofNat_of_lt' (show (before ++ after).length < 2 ^ 64 by omega)
  refine observed_ne_half hdr ratio scenario lawful evaluated [] rfl isTotal fits ?_ len.le
  intro zero
  rw [zero, UInt64.toNat_zero] at len
  omega

end Counts

/-- Two values per request: a threshold on the count of the latency sees twice the requests that
the summary counts, for the scenario and for the whole run. -/
theorem threshold_count_differs (lawful : hdr.Lawful)
    (some : requestsOf scenario (requestEvents (before ++ after)) ≠ [])
    (fits : 2 * (before ++ after).length < 2 ^ 64) :
    ¬SelectorAgrees hdr ratio (before ++ after) scenario
        (summarize hdr (requestEvents before) (requestEvents after) scenario) ∧
      ((∀ call ∈ before ++ after, hdr.accepts (recordedMicros call.1.latency)) →
        ¬TotalAgrees hdr ratio (before ++ after)
          (summarize hdr (requestEvents before) (requestEvents after) scenario)) := by
  refine ⟨not_selectorAgrees hdr ratio scenario lawful some fits, fun accepted => ?_⟩
  refine not_totalAgrees hdr ratio scenario lawful ?_ fits accepted
  rintro empty
  rw [empty] at some
  exact some rfl

/-- The exact histograms, with the bits of their floats. -/
def exactBits : HdrHistogram (List UInt64) UInt64 :=
  { HdrHistogram.exact with
    mean := fun h => (HdrHistogram.exact.mean h).toBits
    stdev := fun h => (HdrHistogram.exact.stdev h).toBits
    ofU64 := Ieee.ofU64 }

theorem lawful_exactBits : exactBits.Lawful :=
  ⟨HdrHistogram.lawful_exact.len_new, HdrHistogram.lawful_exact.record_isSome,
    HdrHistogram.lawful_exact.accepts_bounds, HdrHistogram.lawful_exact.len_record,
    HdrHistogram.lawful_exact.len_add⟩

def ratioBits (hits total : UInt64) : UInt64 := (hits.toFloat / total.toFloat).toBits

/-- A request of the scenario `A` and one of `B`, each of a second. -/
def twoScenarios : List (RequestSample × List (String × String)) :=
  [(⟨"A", .http, true, 1000000000, 10, 20, none⟩, []),
    (⟨"B", .grpc, false, 1000000000, 0, 0, some "timeout"⟩, [("region", "eu")])]

theorem threshold_count_differs_two :
    ¬SelectorAgrees exactBits ratioBits (twoScenarios ++ []) "A"
        (summarize exactBits (requestEvents twoScenarios) (requestEvents []) "A") ∧
      ¬TotalAgrees exactBits ratioBits (twoScenarios ++ [])
        (summarize exactBits (requestEvents twoScenarios) (requestEvents []) "A") := by
  obtain ⟨selector, total⟩ := threshold_count_differs exactBits ratioBits twoScenarios [] "A"
    lawful_exactBits (by decide) (by decide)
  exact ⟨selector, total (by decide)⟩

/-- The summary of `A` counts the request, the thresholds see the numbers two and four. -/
theorem threshold_count_doubles :
    ((summarize exactBits (requestEvents twoScenarios) (requestEvents []) "A").2.latency.map
        HistogramSummary.count = some 1 ∧
      (observed exactBits ratioBits
        (summarize exactBits (requestEvents twoScenarios) (requestEvents []) "A").1
        "request_latency" [("scenario", "A")] .count).2 = some (Ieee.ofU64 2) ∧
      (observed exactBits ratioBits
        (summarize exactBits (requestEvents twoScenarios) (requestEvents []) "A").1
        "request_latency" [] .count).2 = some (Ieee.ofU64 4)) ∧
    ¬(SelectorAgrees exactBits ratioBits twoScenarios "A"
        (summarize exactBits (requestEvents twoScenarios) (requestEvents []) "A") ∧
      TotalAgrees exactBits ratioBits twoScenarios
        (summarize exactBits (requestEvents twoScenarios) (requestEvents []) "A")) := by
  -- evaluated: two series for each of the two requests
  have total : (observed exactBits ratioBits
      (summarize exactBits (requestEvents twoScenarios) (requestEvents []) "A").1
      "request_latency" [] .count).2 = some (Ieee.ofU64 4) := by
    decide +kernel
  refine ⟨⟨by decide +kernel, by decide +kernel, total⟩, ?_⟩
  rintro ⟨-, agrees⟩
  rw [TotalAgrees, total] at agrees
  exact absurd agrees (by decide +kernel)

end Accounting

end Wrkr.Core
