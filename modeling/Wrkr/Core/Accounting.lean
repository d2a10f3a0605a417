import Wrkr.Core.MetricsAgg
import Wrkr.Metrics.Catalog
import Wrkr.Metrics.Definitions

/-!
# Request accounting

From the calls of `record_request` and `record_iteration` to the numbers of a scenario summary.
An event stands for one of these calls, and `Event.entries` says what it records, in terms of
strings. The registry after a sequence of events is the registry after these recordings
(`logs_recordAll`), whatever was interned when, and the queries of the summary add up the
entries of the scenario.
-/
namespace Wrkr.Core.Accounting

open Wrkr.Lib Wrkr.Metrics

variable {H F : Type} (hdr : HdrHistogram H F)

/-- What the recorders of the core are called with. -/
inductive Event
  | request (sample : RequestSample) (extraTags : List (String × String))
  | iteration (sample : IterationSample) (extraTags : List (String × String))

/-- The numbers of the metrics of a run. -/
structure MetricIds where
  request : RequestMetricIds
  iteration : IterationMetricIds
  checks : MetricId
  deriving DecidableEq, Repr

/-- The registrations of `RunScenariosContext::new`. -/
def registerMetrics (r : Registry H) : Registry H × MetricIds :=
  let (r, request) := RequestMetricIds.register r
  let (r, iteration) := IterationMetricIds.register r
  let (r, checks) := r.register "checks" .counter
  (r, ⟨request, iteration, checks⟩)

/-- One event on the registry. -/
def record (ids : MetricIds) (r : Registry H) : Event → Registry H
  | .request sample extraTags => ids.request.recordRequest hdr r sample extraTags
  | .iteration sample extraTags => ids.iteration.recordIteration hdr r sample extraTags

/-- The events in their order. -/
def recordAll (ids : MetricIds) (r : Registry H) (events : List Event) : Registry H :=
  events.foldl (record hdr ids) r

/-- The metrics of every run, in the order of their registration. -/
def runMetrics : List (String × MetricKind) :=
  [("requests_total", .counter), ("bytes_received_total", .counter), ("bytes_sent_total", .counter),
    ("request_errors_total", .counter), ("request_errors_by_kind_total", .counter),
    ("request_latency", .histogram), ("iterations_total", .counter),
    ("iteration_duration", .histogram), ("checks", .counter)]

/-- The numbers that the metrics of a run get, in the order in which they are registered. -/
def metricIds : MetricIds := ⟨⟨0, 1, 2, 3, 4, 5⟩, ⟨6, 7⟩, 8⟩

/-- On an empty registry the registrations of a run give the metrics the numbers `0` to `8`. -/
theorem registerMetrics_catalog {r : Registry H} (empty : r.Catalog []) :
    (registerMetrics r).1.Catalog runMetrics ∧ (registerMetrics r).2 = metricIds := by
  obtain ⟨r₀, eq₀, c₀⟩ := empty.register "requests_total" .counter (by decide) (by decide)
  obtain ⟨r₁, eq₁, c₁⟩ := c₀.register "bytes_received_total" .counter (by decide) (by decide)
  obtain ⟨r₂, eq₂, c₂⟩ := c₁.register "bytes_sent_total" .counter (by decide) (by decide)
  obtain ⟨r₃, eq₃, c₃⟩ := c₂.register "request_errors_total" .counter (by decide) (by decide)
  obtain ⟨r₄, eq₄, c₄⟩ := c₃.register "request_errors_by_kind_total" .counter (by decide) (by decide)
  obtain ⟨r₅, eq₅, c₅⟩ := c₄.register "request_latency" .histogram (by decide) (by decide)
  obtain ⟨r₆, eq₆, c₆⟩ := c₅.register "iterations_total" .counter (by decide) (by decide)
  obtain ⟨r₇, eq₇, c₇⟩ := c₆.register "iteration_duration" .histogram (by decide) (by decide)
  obtain ⟨r₈, eq₈, c₈⟩ := c₇.register "checks" .counter (by decide) (by decide)
  simp only [registerMetrics, RequestMetricIds.register, IterationMetricIds.register, eq₀, eq₁, eq₂,
    eq₃, eq₄, eq₅, eq₆, eq₇, eq₈]
  exact ⟨c₈, rfl⟩

theorem defined_registerMetrics {r : Registry H} (defined : r.Defined) :
    (registerMetrics r).1.Defined := by
  simp only [registerMetrics, RequestMetricIds.register, IterationMetricIds.register]
  repeat apply Registry.Defined.register
  exact defined

/-! ### What an event records -/

/-- A recording under a list of tags. -/
structure Entry where
  metric : MetricId
  pairs : List (String × String)
  amount : Amount

/-- An entry as a recording, once its strings have ids. -/
def Entry.at (entry : Entry) (n : Interner) : Recording :=
  ⟨entry.metric, n.tagSet entry.pairs, entry.amount⟩

/-- The tags of a recording: those of the recorder first. -/
def merged (reserved : List String) (extraTags base : List (String × String)) :
    List (String × String) :=
  -- a caller cannot replace or add a reserved key
  base ++ extraTags.filter fun tag => tag.1 ∉ reserved

/-- What a failed request adds to the counters of errors. -/
def errorEntries (sample : RequestSample) (extraTags : List (String × String)) : List Entry :=
  let scenario := ("scenario", sample.scenario)
  let protocol := ("protocol", sample.protocol.asStr)
  let tags := merged RequestMetricIds.reserved extraTags
  if sample.ok then []
  else
    ⟨metricIds.request.errorsTotal, tags [scenario, protocol], .add 1⟩ ::
      -- a failure without a kind is in the total only
      match sample.errorKind with
      | none => []
      | some kind =>
        [⟨metricIds.request.errorsByKindTotal, tags [scenario, protocol, ("error_kind", kind)],
          .add 1⟩]

/-- All entries of an event, in the order of the source. -/
def Event.entries : Event → List Entry
  | .request sample extraTags =>
    let scenario := ("scenario", sample.scenario)
    let protocol := ("protocol", sample.protocol.asStr)
    let tags := merged RequestMetricIds.reserved extraTags
    [⟨metricIds.request.requestsTotal, tags [scenario, protocol], .add 1⟩,
      ⟨metricIds.request.bytesReceivedTotal, tags [scenario, protocol], .add sample.bytesReceived⟩,
      ⟨metricIds.request.bytesSentTotal, tags [scenario, protocol], .add sample.bytesSent⟩] ++
    errorEntries sample extraTags ++
    -- once for the scenario and once for the protocol within it
    [⟨metricIds.request.latency, tags [scenario], .observe (recordedMicros sample.latency)⟩,
      ⟨metricIds.request.latency, tags [scenario, protocol],
        .observe (recordedMicros sample.latency)⟩]
  | .iteration sample extraTags =>
    let status := if sample.success then "success" else "failure"
    let tags := merged IterationMetricIds.reserved extraTags
      [("scenario", sample.scenario), ("status", status)]
    [⟨metricIds.iteration.iterationsTotal, tags, .add 1⟩,
      ⟨metricIds.iteration.iterationDuration, tags, .observe (recordedMicros sample.duration)⟩]

/-- The interner knows every string of the entries. -/
def Known (n : Interner) (entries : List Entry) : Prop :=
  ∀ entry ∈ entries, ∀ tag ∈ entry.pairs, n.Knows tag.1 ∧ n.Knows tag.2

/-- `r'` is `r` after the entries and some interning, as a later interner sees them. -/
structure Logs (n : Interner) (r : Registry H) (entries : List Entry) (r' : Registry H) :
    Prop where
  records : Registry.Records hdr r (entries.map fun entry => entry.at n) r'
  known : Known n entries

theorem Logs.nil (n : Interner) (r : Registry H) : Logs hdr n r [] r :=
  ⟨⟨r.interner, rfl⟩, by simp [Known]⟩

variable {hdr} in
/-- First one part is recorded, then the other. -/
theorem Logs.trans {n : Interner} {r r' r'' : Registry H} {first second : List Entry}
    (before : Logs hdr n r first r') (after : Logs hdr n r' second r'') :
    Logs hdr n r (first ++ second) r'' := by
  constructor
  · rw [List.map_append]
    exact before.records.trans after.records
  · intro entry member
    rw [List.mem_append] at member
    rcases member with inFirst | inSecond
    · exact before.known entry inFirst
    · exact after.known entry inSecond

/-- Merging the tags and interning them is interning the merged tags. -/
theorem resolveWith_eq (r : Registry H) (reserved : List String)
    (extraTags base : List (String × String)) :
    resolveWith r reserved extraTags base = r.resolveTags (merged reserved extraTags base) := by
  unfold resolveWith
  split
  next none =>
    rw [List.isEmpty_iff.mp none]
    simp [merged]
  next => rfl

/-- Resolving the tags of an entry logs nothing. -/
theorem resolveWith_spec {n : Interner} (r : Registry H) (reserved : List String)
    (extraTags base : List (String × String))
    (ext : Interner.Extends (resolveWith r reserved extraTags base).1.interner n) :
    (resolveWith r reserved extraTags base).2 = n.tagSet (merged reserved extraTags base) ∧
      (∀ tag ∈ merged reserved extraTags base, n.Knows tag.1 ∧ n.Knows tag.2) ∧
      Logs hdr n r [] (resolveWith r reserved extraTags base).1 := by
  rw [resolveWith_eq] at ext ⊢
  obtain ⟨tags, knows⟩ := Registry.resolveTags_spec _ ext
  exact ⟨tags, knows, Registry.Records.resolveTags r _, by simp [Known]⟩

theorem evolves_resolveWith (r : Registry H) (reserved : List String)
    (extraTags base : List (String × String)) :
    Registry.Evolves hdr r (resolveWith r reserved extraTags base).1 := by
  rw [resolveWith_eq]
  exact .of_operation (.resolveTags r _)

/-- One recording. -/
theorem Logs.touch {n : Interner} (r : Registry H) (metric : MetricId) {tags : TagSet}
    {pairs : List (String × String)} (amount : Amount) (isTags : tags = n.tagSet pairs)
    (knows : ∀ tag ∈ pairs, n.Knows tag.1 ∧ n.Knows tag.2) :
    Logs hdr n r [⟨metric, pairs, amount⟩] (r.touch hdr metric tags (amount.apply hdr)) := by
  subst isTags
  constructor
  · exact Registry.Records.touch r ⟨metric, n.tagSet pairs, amount⟩
  · simpa [Known] using knows

/-- The error counters, given the resolved protocol-scoped tags. -/
theorem logs_recordErrors {n : Interner} (r : Registry H) (sample : RequestSample)
    (extraTags : List (String × String)) {tagsProtocol : TagSet}
    (isTags : tagsProtocol = n.tagSet (merged RequestMetricIds.reserved extraTags
      [("scenario", sample.scenario), ("protocol", sample.protocol.asStr)]))
    (knows : ∀ tag ∈ merged RequestMetricIds.reserved extraTags
      [("scenario", sample.scenario), ("protocol", sample.protocol.asStr)],
      n.Knows tag.1 ∧ n.Knows tag.2)
    (ext : Interner.Extends
      (metricIds.request.recordErrors hdr r sample extraTags tagsProtocol).interner n) :
    Logs hdr n r (errorEntries sample extraTags)
      (metricIds.request.recordErrors hdr r sample extraTags tagsProtocol) := by
  unfold RequestMetricIds.recordErrors errorEntries at *
  split
  next => exact Logs.nil hdr n r
  next failed =>
    rw [if_neg failed] at ext
    have total := Logs.touch hdr r metricIds.request.errorsTotal (.add 1) isTags knows
    cases kind : sample.errorKind with
    | none => exact total
    | some kind' =>
      simp only [kind, Registry.touch_interner] at ext
      -- the tags with the kind are resolved between the two counters
      obtain ⟨tags, knowsTags, resolved⟩ := resolveWith_spec hdr _ _ extraTags _ ext
      exact total.trans (resolved.trans
        (Logs.touch hdr _ metricIds.request.errorsByKindTotal (.add 1) tags knowsTags))

/-- A request without an error records nothing here, one with an error two entries. -/
theorem evolves_recordErrors (r : Registry H) (sample : RequestSample)
    (extraTags : List (String × String)) (tagsProtocol : TagSet) :
    Registry.Evolves hdr r
      (metricIds.request.recordErrors hdr r sample extraTags tagsProtocol) := by
  unfold RequestMetricIds.recordErrors
  split
  · exact .refl r
  · split
    · exact .touch _ _ _ _
    · have total : Registry.Evolves hdr r _ := .touch r metricIds.request.errorsTotal tagsProtocol
        (Cell.fetchAdd 1)
      exact (total.trans (evolves_resolveWith hdr _ _ _ _)).trans (.touch _ _ _ _)

/-- A request makes these entries and interns strings, and does nothing else. -/
theorem logs_recordRequest {n : Interner} (r : Registry H) (sample : RequestSample)
    (extraTags : List (String × String))
    (ext : Interner.Extends (metricIds.request.recordRequest hdr r sample extraTags).interner n) :
    Logs hdr n r (Event.request sample extraTags).entries
      (metricIds.request.recordRequest hdr r sample extraTags) := by
  unfold RequestMetricIds.recordRequest at *
  dsimp only at *
  rw [Registry.touch_interner, Registry.touch_interner] at ext
  -- the interner of every stage is extended by the last one
  have ext₂ := (evolves_resolveWith hdr _ _ _ _).interner.1.trans ext
  have ext₁ := (evolves_recordErrors hdr _ _ _ _).interner.1.trans ext₂
  rw [Registry.touch_interner, Registry.touch_interner, Registry.touch_interner] at ext₁
  obtain ⟨protocolTags, knowsProtocol, first⟩ := resolveWith_spec hdr r _ _ _ ext₁
  obtain ⟨overallTags, knowsOverall, second⟩ := resolveWith_spec hdr _ _ _ _ ext
  -- in the order of the source: three counters, the errors, the two latencies
  have counters := first.trans ((Logs.touch hdr _ metricIds.request.requestsTotal (.add 1)
    protocolTags knowsProtocol).trans ((Logs.touch hdr _ metricIds.request.bytesReceivedTotal
    (.add sample.bytesReceived) protocolTags knowsProtocol).trans
    (Logs.touch hdr _ metricIds.request.bytesSentTotal (.add sample.bytesSent) protocolTags
      knowsProtocol)))
  have errors := logs_recordErrors hdr _ sample extraTags protocolTags knowsProtocol ext₂
  have latency := second.trans ((Logs.touch hdr _ metricIds.request.latency
    (.observe (recordedMicros sample.latency)) overallTags knowsOverall).trans
    (Logs.touch hdr _ metricIds.request.latency (.observe (recordedMicros sample.latency))
      protocolTags knowsProtocol))
  exact (counters.trans errors).trans latency

/-- And so does an iteration. -/
theorem logs_recordIteration {n : Interner} (r : Registry H) (sample : IterationSample)
    (extraTags : List (String × String))
    (ext : Interner.Extends (metricIds.iteration.recordIteration hdr r sample extraTags).interner n) :
    Logs hdr n r (Event.iteration sample extraTags).entries
      (metricIds.iteration.recordIteration hdr r sample extraTags) := by
  unfold IterationMetricIds.recordIteration at *
  dsimp only at *
  rw [Registry.touch_interner, Registry.touch_interner] at ext
  obtain ⟨isTags, knows, resolved⟩ := resolveWith_spec hdr r _ _ _ ext
  exact resolved.trans
    ((Logs.touch hdr _ metricIds.iteration.iterationsTotal (.add 1) isTags knows).trans
      (Logs.touch hdr _ metricIds.iteration.iterationDuration
        (.observe (recordedMicros sample.duration)) isTags knows))

theorem evolves_record (r : Registry H) (event : Event) :
    Registry.Evolves hdr r (record hdr metricIds r event) := by
  cases event with
  | request sample extraTags =>
    exact (((((((evolves_resolveWith hdr _ _ _ _).trans (.touch _ _ _ _)).trans
      (.touch _ _ _ _)).trans (.touch _ _ _ _)).trans (evolves_recordErrors hdr _ _ _ _)).trans
      (evolves_resolveWith hdr _ _ _ _)).trans (.touch _ _ _ _)).trans (.touch _ _ _ _)
  | iteration sample extraTags =>
    exact ((evolves_resolveWith hdr _ _ _ _).trans (.touch _ _ _ _)).trans (.touch _ _ _ _)

theorem evolves_recordAll (r : Registry H) (events : List Event) :
    Registry.Evolves hdr r (recordAll hdr metricIds r events) := by
  induction events generalizing r with
  | nil => exact .refl r
  | cons event rest ih => exact (evolves_record hdr r event).trans (ih _)

/-- A sequence of events logs its entries. -/
theorem logs_recordAll {n : Interner} (r : Registry H) (events : List Event)
    (ext : Interner.Extends (recordAll hdr metricIds r events).interner n) :
    Logs hdr n r (events.flatMap Event.entries) (recordAll hdr metricIds r events) := by
  induction events generalizing r with
  | nil => exact Logs.nil hdr n r
  | cons event rest ih =>
    have later := ih (record hdr metricIds r event) ext
    -- the interner after the first event is extended by all later ones
    have extFirst := (evolves_recordAll hdr (record hdr metricIds r event) rest).interner.1.trans ext
    have first : Logs hdr n r event.entries (record hdr metricIds r event) := by
      cases event with
      | request sample extraTags => exact logs_recordRequest hdr r sample extraTags extFirst
      | iteration sample extraTags => exact logs_recordIteration hdr r sample extraTags extFirst
    exact first.trans later

/-! ### The tags of an entry -/

/-- The scenario that the event is tagged with. -/
def Event.scenario : Event → String
  | .request sample _ => sample.scenario
  | .iteration sample _ => sample.scenario

section Lookups

variable {n : Interner} (ample : n.Ample) {reserved : List String}
  {extraTags base : List (String × String)}
  (knows : ∀ tag ∈ merged reserved extraTags base, n.Knows tag.1 ∧ n.Knows tag.2)

include ample knows

/-- No extra tag hides a reserved base tag. -/
theorem merged_get_of_mem (key value : String) (isReserved : key ∈ reserved)
    (inBase : (key, value) ∈ base) (only : ∀ value', (key, value') ∈ base → value' = value) :
    (n.tagSet (merged reserved extraTags base)).get (n.idOf key) = some (n.idOf value) := by
  apply Interner.tagSet_get_of_mem ample knows
  · exact List.mem_append_left _ inBase
  · intro value' member
    rw [merged, List.mem_append] at member
    rcases member with member | extra
    · exact only value' member
    · have allowed := List.of_mem_filter extra
      simp [isReserved] at allowed

/-- No extra tag adds a reserved key. -/
theorem merged_get_of_absent {key : String} (known : n.Knows key) (isReserved : key ∈ reserved)
    (absent : ∀ value, (key, value) ∉ base) :
    (n.tagSet (merged reserved extraTags base)).get (n.idOf key) = none := by
  apply Interner.tagSet_get_of_absent ample knows known
  intro value member
  rw [merged, List.mem_append] at member
  rcases member with inBase | extra
  · exact absent value inBase
  · have allowed := List.of_mem_filter extra
    simp [isReserved] at allowed

end Lookups

/-- The two entries of a failed request. -/
theorem mem_errorEntries {sample : RequestSample} {extraTags : List (String × String)}
    {entry : Entry} (member : entry ∈ errorEntries sample extraTags) :
    entry = ⟨metricIds.request.errorsTotal, merged RequestMetricIds.reserved extraTags
        [("scenario", sample.scenario), ("protocol", sample.protocol.asStr)], .add 1⟩ ∨
      ∃ kind, entry = ⟨metricIds.request.errorsByKindTotal, merged RequestMetricIds.reserved extraTags
        [("scenario", sample.scenario), ("protocol", sample.protocol.asStr), ("error_kind", kind)],
        .add 1⟩ := by
  unfold errorEntries at member
  split at member
  · simp at member
  · rw [List.mem_cons] at member
    rcases member with first | byKind
    · exact .inl first
    · split at byKind
      · simp at byKind
      -- the kind has a counter of its own
      next kind _ =>
        rw [List.mem_singleton] at byKind
        exact .inr ⟨kind, byKind⟩

/-- Every entry has the scenario of its event as a base tag. -/
theorem entry_tags (event : Event) (entry : Entry) (member : entry ∈ event.entries) :
    ∃ reserved extraTags rest,
      entry.pairs = merged reserved extraTags (("scenario", event.scenario) :: rest) ∧
        "scenario" ∈ reserved ∧ ∀ value, ("scenario", value) ∉ rest := by
  cases event with
  | request sample extraTags =>
    refine ⟨RequestMetricIds.reserved, extraTags, ?_⟩
    simp only [Event.entries, List.mem_append, List.mem_cons, List.not_mem_nil, or_false] at member
    -- each entry starts from its own list of base tags
    rcases member with ((rfl | rfl | rfl) | errors) | rfl | rfl
    · exact ⟨_, rfl, by decide, by simp⟩
    · exact ⟨_, rfl, by decide, by simp⟩
    · exact ⟨_, rfl, by decide, by simp⟩
    · rcases mem_errorEntries errors with rfl | ⟨kind, rfl⟩
      · exact ⟨_, rfl, by decide, by simp⟩
      · exact ⟨_, rfl, by decide, by simp⟩
    · exact ⟨_, rfl, by decide, by simp⟩
    · exact ⟨_, rfl, by decide, by simp⟩
  | iteration sample extraTags =>
    refine ⟨IterationMetricIds.reserved, extraTags, ?_⟩
    simp only [Event.entries, List.mem_cons, List.not_mem_nil, or_false] at member
    rcases member with rfl | rfl
    · exact ⟨_, rfl, by decide, by simp⟩
    · exact ⟨_, rfl, by decide, by simp⟩

/-- The filter of the queries for a scenario. -/
def ofScenario (n : Interner) (scenario : String) (tags : TagSet) : Bool :=
  tags.get (n.idOf "scenario") = some (n.idOf scenario)

/-- The filter of the latency query. -/
def overallOf (n : Interner) (scenario : String) (tags : TagSet) : Bool :=
  ofScenario n scenario tags && (tags.get (n.idOf "protocol")).isNone

/-- A filter by scenario selects the entries of the events of the scenario: no extra tag can bring
in another one. -/
theorem ofScenario_entry {n : Interner} (ample : n.Ample) {scenario : String}
    (known : n.Knows scenario) {event : Event} (knows : Known n event.entries) {entry : Entry}
    (member : entry ∈ event.entries) :
    ofScenario n scenario (n.tagSet entry.pairs) = decide (event.scenario = scenario) := by
  obtain ⟨reserved, extraTags, rest, pairs, isReserved, absent⟩ := entry_tags event entry member
  have knowsPairs := knows entry member
  rw [pairs] at knowsPairs
  -- the base tag is found, whatever tags the caller added
  have found := merged_get_of_mem ample knowsPairs "scenario" event.scenario isReserved
    (List.mem_cons_self ..) (by
    intro value' inBase
    rw [List.mem_cons] at inBase
    rcases inBase with first | inRest
    · exact congrArg Prod.snd first
    · exact absurd inRest (absent value'))
  rw [ofScenario, pairs, found, decide_eq_decide, Option.some.injEq]
  constructor
  -- names of scenarios are told apart by their ids while ids last
  · have knowsEvent := (knowsPairs _ (List.mem_append_left _ (List.mem_cons_self ..))).2
    exact ample.idOf_inj knowsEvent known
  · intro same
    rw [same]

/-! ### What the queries add up -/

/-- The sizes of the entries on a metric. -/
def entrySum (metric : MetricId) (entries : List Entry) : Nat :=
  (entries.map fun entry => if entry.metric = metric then entry.amount.size hdr else 0).sum

/-- What an event adds to the series of a scenario. -/
theorem recorded_ofScenario {n : Interner} (ample : n.Ample) {scenario : String}
    (known : n.Knows scenario) (metric : MetricId) {event : Event}
    (knows : Known n event.entries) :
    Registry.recorded hdr metric (ofScenario n scenario) (event.entries.map fun e => e.at n) =
      if event.scenario = scenario then entrySum hdr metric event.entries else 0 := by
  unfold Registry.recorded entrySum
  rw [List.map_map]
  -- all entries of an event have its scenario, so they count together or not at all
  have each (entry : Entry) (member : entry ∈ event.entries) :
      ((fun rec : Recording => if rec.metric = metric ∧ ofScenario n scenario rec.tags then
        rec.amount.size hdr else 0) ∘ fun e : Entry => e.at n) entry =
      if event.scenario = scenario then
        (if entry.metric = metric then entry.amount.size hdr else 0) else 0 := by
    simp only [Function.comp, Entry.at, ofScenario_entry ample known knows member,
      decide_eq_true_eq]
    by_cases same : event.scenario = scenario <;> simp [same]
  rw [List.map_congr_left each]
  split
  · rfl
  · simp

/-- The latency of a request without the protocol. -/
def overallEntry (sample : RequestSample) (extraTags : List (String × String)) : Entry :=
  ⟨metricIds.request.latency,
    merged RequestMetricIds.reserved extraTags [("scenario", sample.scenario)],
    .observe (recordedMicros sample.latency)⟩

theorem overallEntry_mem (sample : RequestSample) (extraTags : List (String × String)) :
    overallEntry sample extraTags ∈ (Event.request sample extraTags).entries := by
  simp [Event.entries, overallEntry]

/-- The first latency entry of a request has no protocol, so it is the one that is counted for the
scenario. -/
theorem overallOf_overallEntry {n : Interner} (ample : n.Ample) {scenario : String}
    (known : n.Knows scenario) (protocol : n.Knows "protocol") (sample : RequestSample)
    (extraTags : List (String × String))
    (knows : Known n (Event.request sample extraTags).entries) :
    overallOf n scenario (n.tagSet (overallEntry sample extraTags).pairs) =
      decide (sample.scenario = scenario) := by
  have member := overallEntry_mem sample extraTags
  have missing := merged_get_of_absent ample (knows _ member) protocol (by decide) (by simp)
  rw [overallOf, ofScenario_entry ample known knows member]
  unfold overallEntry
  rw [missing, Option.isNone_none, Bool.and_true]
  rfl

/-- The latency of a request with the protocol. -/
def scopedEntry (sample : RequestSample) (extraTags : List (String × String)) : Entry :=
  ⟨metricIds.request.latency,
    merged RequestMetricIds.reserved extraTags
      [("scenario", sample.scenario), ("protocol", sample.protocol.asStr)],
    .observe (recordedMicros sample.latency)⟩

/-- The second one has, so it is not. -/
theorem overallOf_scopedEntry (n : Interner) (scenario : String) (sample : RequestSample)
    (extraTags : List (String × String)) :
    overallOf n scenario (n.tagSet (scopedEntry sample extraTags).pairs) = false := by
  -- whichever value the lookup finds, there is one
  have member : (n.idOf "protocol", n.idOf sample.protocol.asStr) ∈
      (n.tagSet (scopedEntry sample extraTags).pairs).tags :=
    Interner.mem_tagSet.mpr ⟨("protocol", sample.protocol.asStr), by simp [scopedEntry, merged], rfl⟩
  obtain ⟨v, found, -⟩ := (Interner.tagSet_sorted n _).exists_get member
  rw [overallOf, found]
  simp

/-- A request records its latency twice. -/
theorem recorded_latency (n : Interner) (predicate : TagSet → Bool) (sample : RequestSample)
    (extraTags : List (String × String)) :
    Registry.recorded hdr metricIds.request.latency predicate
        ((Event.request sample extraTags).entries.map fun e => e.at n) =
      (if predicate (n.tagSet (overallEntry sample extraTags).pairs) then
        (Amount.observe (recordedMicros sample.latency)).size hdr else 0) +
      if predicate (n.tagSet (scopedEntry sample extraTags).pairs) then
        (Amount.observe (recordedMicros sample.latency)).size hdr else 0 := by
  -- the other entries are on other metrics
  have others (entry : Entry) (member : entry ∈ errorEntries sample extraTags) :
      entry.metric ≠ metricIds.request.latency := by
    rcases mem_errorEntries member with rfl | ⟨kind, rfl⟩
    · simp [metricIds]
    · simp [metricIds]
  -- the error counters are on other metrics
  have errors : Registry.recorded hdr metricIds.request.latency predicate
      ((errorEntries sample extraTags).map fun e => e.at n) = 0 := by
    apply List.sum_eq_zero
    intro size inSizes
    rw [List.map_map, List.mem_map] at inSizes
    obtain ⟨entry, member, rfl⟩ := inSizes
    simp [Entry.at, others entry member]
  have split : (Event.request sample extraTags).entries.map (fun e => e.at n) =
      [⟨metricIds.request.requestsTotal, n.tagSet (scopedEntry sample extraTags).pairs, .add 1⟩,
        ⟨metricIds.request.bytesReceivedTotal, n.tagSet (scopedEntry sample extraTags).pairs,
          .add sample.bytesReceived⟩,
        ⟨metricIds.request.bytesSentTotal, n.tagSet (scopedEntry sample extraTags).pairs,
          .add sample.bytesSent⟩] ++
      (errorEntries sample extraTags).map (fun e => e.at n) ++
      [(overallEntry sample extraTags).at n, (scopedEntry sample extraTags).at n] := by
    simp [Event.entries, Entry.at, scopedEntry, overallEntry]
  rw [split, Registry.recorded_append, Registry.recorded_append, errors]
  have overall : (overallEntry sample extraTags).at n = ⟨5,
      n.tagSet (overallEntry sample extraTags).pairs, .observe (recordedMicros sample.latency)⟩ := rfl
  have withProtocol : (scopedEntry sample extraTags).at n = ⟨5,
      n.tagSet (scopedEntry sample extraTags).pairs, .observe (recordedMicros sample.latency)⟩ := rfl
  simp [Registry.recorded, metricIds, overall, withProtocol]

/-- What an event adds to the latency of the scenario. -/
def latencySize (scenario : String) : Event → Nat
  | .request sample _ =>
    if sample.scenario = scenario then
      (Amount.observe (recordedMicros sample.latency)).size hdr else 0
  | .iteration _ _ => 0

/-- Of the two latency entries of a request only the one without the protocol passes. -/
theorem recorded_overall {n : Interner} (ample : n.Ample) {scenario : String}
    (known : n.Knows scenario) (protocol : n.Knows "protocol") {event : Event}
    (knows : Known n event.entries) :
    Registry.recorded hdr metricIds.request.latency (overallOf n scenario)
        (event.entries.map fun e => e.at n) = latencySize hdr scenario event := by
  cases event with
  | iteration sample extraTags =>
    simp [Registry.recorded, Event.entries, Entry.at, metricIds, latencySize]
  | request sample extraTags =>
    have overall := overallOf_overallEntry ample known protocol sample extraTags knows
    rw [recorded_latency, overall, overallOf_scopedEntry]
    simp [latencySize]

/-- The requests of a scenario. -/
def requestsOf (scenario : String) (events : List Event) : List RequestSample :=
  events.filterMap fun
    | .request sample _ => if sample.scenario = scenario then some sample else none
    | .iteration _ _ => none

/-- The iterations of a scenario. -/
def iterationsOf (scenario : String) (events : List Event) : List IterationSample :=
  events.filterMap fun
    | .iteration sample _ => if sample.scenario = scenario then some sample else none
    | .request _ _ => none

/-- A sum over the events to which only the requests of a scenario contribute. -/
theorem sum_requestsOf {scenario : String} {f : Event → Nat} {g : RequestSample → Nat}
    (request : ∀ sample extraTags,
      f (.request sample extraTags) = if sample.scenario = scenario then g sample else 0)
    (iteration : ∀ sample extraTags, f (.iteration sample extraTags) = 0) (events : List Event) :
    (events.map f).sum = ((requestsOf scenario events).map g).sum := by
  induction events with
  | nil => rfl
  -- by induction on the events, as `filterMap` goes through them
  | cons event rest ih =>
    cases event with
    | request sample extraTags =>
      by_cases same : sample.scenario = scenario
      · simpa [requestsOf, request, same] using ih
      · simpa [requestsOf, request, same] using ih
    | iteration sample extraTags => simpa [requestsOf, iteration] using ih

/-- A sum that counts the iterations of a scenario. -/
theorem sum_iterationsOf {scenario : String} {f : Event → Nat}
    (request : ∀ sample extraTags, f (.request sample extraTags) = 0)
    (iteration : ∀ sample extraTags,
      f (.iteration sample extraTags) = if sample.scenario = scenario then 1 else 0)
    (events : List Event) : (events.map f).sum = (iterationsOf scenario events).length := by
  induction events with
  | nil => rfl
  | cons event rest ih =>
    cases event with
    | request sample extraTags => simpa [iterationsOf, request] using ih
    | iteration sample extraTags =>
      by_cases same : sample.scenario = scenario
      · have kept : iterationsOf scenario (.iteration sample extraTags :: rest) =
            sample :: iterationsOf scenario rest := by simp [iterationsOf, same]
        rw [List.map_cons, List.sum_cons, ih, iteration, if_pos same, kept, List.length_cons]
        omega
      · simpa [iterationsOf, iteration, same] using ih

/-- What the events record is the sum of what each of them does. -/
theorem recorded_flatMap {n : Interner} (metric : MetricId) (predicate : TagSet → Bool)
    (events : List Event) :
    Registry.recorded hdr metric predicate
        ((events.flatMap Event.entries).map fun e => e.at n) =
      (events.map fun event => Registry.recorded hdr metric predicate
        (event.entries.map fun e => e.at n)).sum := by
  induction events with
  | nil => rfl
  | cons event rest ih =>
    rw [List.flatMap_cons, List.map_append, Registry.recorded_append, ih, List.map_cons,
      List.sum_cons]

/-- The entry of each metric in a request. -/
theorem entrySum_request (sample : RequestSample) (extraTags : List (String × String)) :
    let entries := (Event.request sample extraTags).entries
    entrySum hdr metricIds.request.requestsTotal entries = 1 ∧
      entrySum hdr metricIds.request.bytesReceivedTotal entries = sample.bytesReceived.toNat ∧
      entrySum hdr metricIds.request.bytesSentTotal entries = sample.bytesSent.toNat ∧
      entrySum hdr metricIds.request.errorsTotal entries = (if !sample.ok then 1 else 0) ∧
      entrySum hdr metricIds.iteration.iterationsTotal entries = 0 := by
  cases ok : sample.ok <;> cases kind : sample.errorKind <;>
    simp [entrySum, Event.entries, errorEntries, ok, kind, metricIds, Amount.size]

theorem entrySum_iteration (sample : IterationSample) (extraTags : List (String × String)) :
    let entries := (Event.iteration sample extraTags).entries
    entrySum hdr metricIds.request.requestsTotal entries = 0 ∧
      entrySum hdr metricIds.request.bytesReceivedTotal entries = 0 ∧
      entrySum hdr metricIds.request.bytesSentTotal entries = 0 ∧
      entrySum hdr metricIds.request.errorsTotal entries = 0 ∧
      entrySum hdr metricIds.iteration.iterationsTotal entries = 1 := by
  simp [entrySum, Event.entries, metricIds, Amount.size]

end Wrkr.Core.Accounting
