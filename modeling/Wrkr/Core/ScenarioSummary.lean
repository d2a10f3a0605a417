import Wrkr.Core.Accounting

/-!
# What a scenario summary says

The summary of a scenario reports what the events of the scenario add up to
(`summary_accounts`), as long as the interner has not reused an id.
-/
namespace Wrkr.Core.Accounting

open Wrkr.Lib Wrkr.Metrics

variable {H F : Type} (hdr : HdrHistogram H F)

/-- A run that records `before`, creates a `MetricComputer`, records `after` and summarises the
scenario. -/
def summarize (before after : List Event) (scenario : String) : Registry H × ScenarioSummary F :=
  let (r, ids) := registerMetrics Registry.default
  let r := recordAll hdr ids r before
  let (r, computer) := MetricComputer.new r ids.request ids.iteration ids.checks
  let r := recordAll hdr ids r after
  computer.computeScenarioSummary hdr r scenario

/-- The summary of the scenario says what the events of the scenario add up to. -/
structure Accounts (scenario : String) (events : List Event) (summary : ScenarioSummary F) :
    Prop where
  requests : summary.requestsTotal.toNat = (requestsOf scenario events).length
  failed : summary.failedRequestsTotal.toNat =
    (requestsOf scenario events).countP fun sample => !sample.ok
  bytesReceived : summary.bytesReceivedTotal.toNat =
    ((requestsOf scenario events).map fun sample => sample.bytesReceived.toNat).sum
  bytesSent : summary.bytesSentTotal.toNat =
    ((requestsOf scenario events).map fun sample => sample.bytesSent.toNat).sum
  iterations : summary.iterationsTotal.toNat = (iterationsOf scenario events).length
  /-- There is a latency once there is a request, and it counts the accepted values. -/
  latency : (summary.latency.isSome ↔ requestsOf scenario events ≠ []) ∧
    (summary.latency.map fun latency => latency.count.toNat).getD 0 =
      (requestsOf scenario events).countP fun sample => hdr.accepts (recordedMicros sample.latency)

/-- The sums that the summary reports stay below 2^64. -/
structure SumsFit (scenario : String) (events : List Event) : Prop where
  requests : (requestsOf scenario events).length < 2 ^ 64
  bytesReceived :
    ((requestsOf scenario events).map fun sample => sample.bytesReceived.toNat).sum < 2 ^ 64
  bytesSent : ((requestsOf scenario events).map fun sample => sample.bytesSent.toNat).sum < 2 ^ 64
  iterations : (iterationsOf scenario events).length < 2 ^ 64

section Totals

variable {r r' : Registry H} {n : Interner} {events : List Event} {scenario : String}

/-- The metrics of the entries are registered with the right kind. -/
theorem hosts_entries (n : Interner) (catalog : r.Catalog runMetrics) (events : List Event) :
    r.Hosts ((events.flatMap Event.entries).map fun e => e.at n) := by
  have tracks (i : Nat) (name : String) (kind : MetricKind)
      (here : runMetrics[i]? = some (name, kind)) : r.Tracks (UInt32.ofNat i) kind :=
    (catalog.tracks (by decide) here).1
  intro rec member
  rw [List.mem_map] at member
  obtain ⟨entry, inEntries, rfl⟩ := member
  rw [List.mem_flatMap] at inEntries
  obtain ⟨event, -, inEvent⟩ := inEntries
  cases event with
  | request sample extraTags =>
    simp only [Event.entries, List.mem_append, List.mem_cons, List.not_mem_nil, or_false] at inEvent
    -- the entries in the order in which `record_request` makes them
    rcases inEvent with ((rfl | rfl | rfl) | errors) | rfl | rfl
    · exact tracks 0 _ _ rfl
    · exact tracks 1 _ _ rfl
    · exact tracks 2 _ _ rfl
    · rcases mem_errorEntries errors with rfl | ⟨kind, rfl⟩
      · exact tracks 3 _ _ rfl
      · exact tracks 4 _ _ rfl
    · exact tracks 5 _ _ rfl
    · exact tracks 5 _ _ rfl
  | iteration sample extraTags =>
    simp only [Event.entries, List.mem_cons, List.not_mem_nil, or_false] at inEvent
    rcases inEvent with rfl | rfl
    · exact tracks 6 _ _ rfl
    · exact tracks 7 _ _ rfl

/-- The total of a metric after the events, from nothing. -/
theorem total_of_logs (lawful : hdr.Lawful) (catalog : r.Catalog runMetrics)
    (logs : Logs hdr n r (events.flatMap Event.entries) r') (i : Nat) {name : String}
    {kind : MetricKind} (here : runMetrics[i]? = some (name, kind)) (predicate : TagSet → Bool)
    {amount : Nat}
    (isAmount : (events.map fun event => Registry.recorded hdr (UInt32.ofNat i) predicate
      (event.entries.map fun e => e.at n)).sum = amount) (fits : amount < 2 ^ 64) :
    total predicate (weight hdr kind) (r'.visitSeries (UInt32.ofNat i)) = amount := by
  obtain ⟨tracks, empty⟩ := catalog.tracks (by decide) here
  have grown := Registry.total_applyAll lawful catalog.wf (hosts_entries n catalog events) tracks
    predicate
  rw [recorded_flatMap, isAmount, empty, total_nil, Nat.zero_add] at grown
  rw [logs.records.visitSeries, grown fits]

/-- A metric has a series with the predicate when some entry was recorded on such tags. -/
theorem exists_series_iff (catalog : r.Catalog runMetrics)
    (logs : Logs hdr n r (events.flatMap Event.entries) r') (i : Nat) {name : String}
    {kind : MetricKind} (here : runMetrics[i]? = some (name, kind)) (predicate : TagSet → Bool) :
    (∃ e ∈ r'.visitSeries (UInt32.ofNat i), predicate e.1 = true ∧ e.2.kind = kind) ↔
      ∃ rec ∈ (events.flatMap Event.entries).map fun e => e.at n,
        rec.metric = UInt32.ofNat i ∧ predicate rec.tags = true := by
  obtain ⟨tracks, empty⟩ := catalog.tracks (by decide) here
  -- the series are those that the entries have touched, as there was none before
  have hosts := hosts_entries n catalog events
  have typed (e : TagSet × Cell H) (member : e ∈ r'.visitSeries (UInt32.ofNat i)) :
      e.2.kind = kind := by
    rw [logs.records.visitSeries] at member
    exact (tracks.applyAll catalog.wf hosts).typed e member
  have keys (t : TagSet) : t ∈ (r'.visitSeries (UInt32.ofNat i)).map Prod.fst ↔
      ∃ rec ∈ (events.flatMap Event.entries).map fun e => e.at n,
        rec.metric = UInt32.ofNat i ∧ rec.tags = t := by
    rw [logs.records.visitSeries, Registry.keys_applyAll catalog.wf hosts, empty, List.map_nil]
    simp only [List.not_mem_nil, false_or]
  constructor
  · rintro ⟨e, member, passes, -⟩
    obtain ⟨rec, inEntries, onMetric, tags⟩ := (keys e.1).mp (List.mem_map_of_mem member)
    exact ⟨rec, inEntries, onMetric, tags ▸ passes⟩
  · rintro ⟨rec, inEntries, onMetric, passes⟩
    have inKeys := (keys rec.tags).mpr ⟨rec, inEntries, onMetric, rfl⟩
    rw [List.mem_map] at inKeys
    obtain ⟨e, member, isTags⟩ := inKeys
    exact ⟨e, member, isTags ▸ passes, typed e member⟩

end Totals

/-! ### The queries of the summary -/

/-- The registry after each key, and the keys. -/
theorem tagKeys_new (r : Registry H) :
    TagKeys.new r =
      let scenario := r.resolveKey "scenario"
      let protocol := scenario.1.resolveKey "protocol"
      let status := protocol.1.resolveKey "status"
      let name := status.1.resolveKey "name"
      let fail := name.1.resolveKey "fail"
      (fail.1, ⟨scenario.2, protocol.2, status.2, name.2, fail.2⟩) := by
  -- each key is resolved in the registry that the one before leaves
  rcases scenario : r.resolveKey "scenario" with ⟨r₁, scenarioKey⟩
  rcases protocol : r₁.resolveKey "protocol" with ⟨r₂, protocolKey⟩
  rcases status : r₂.resolveKey "status" with ⟨r₃, statusKey⟩
  rcases name : r₃.resolveKey "name" with ⟨r₄, nameKey⟩
  rcases fail : r₄.resolveKey "fail" with ⟨r₅, failKey⟩
  simp only [TagKeys.new, scenario, protocol, status, name, fail]

/-- The keys change nothing but the interner. -/
theorem tagKeys_registry (r : Registry H) :
    (TagKeys.new r).1 = r.withInterner
      (r.interner.internAll ["scenario", "protocol", "status", "name", "fail"]) := by
  have resolved (r : Registry H) (key : String) :
      (r.resolveKey key).1 = r.withInterner (r.interner.internAll [key]) := rfl
  have again (r : Registry H) (first second : Interner) :
      (r.withInterner first).withInterner second = r.withInterner second := rfl
  have interned (r : Registry H) (n : Interner) : (r.withInterner n).interner = n := rfl
  rw [tagKeys_new]
  dsimp only
  simp only [resolved, again, interned, ← Interner.internAll_append, List.cons_append,
    List.nil_append]

theorem evolves_internAll (r : Registry H) (strings : List String) :
    Registry.Evolves hdr r (r.withInterner (r.interner.internAll strings)) := by
  induction strings generalizing r with
  | nil => exact .refl r
  | cons s rest ih =>
    have first : Registry.Evolves hdr r (r.resolveKey s).1 := .of_operation (.resolveKey r s)
    exact first.trans (ih (r.resolveKey s).1)

theorem evolves_tagKeys (r : Registry H) : Registry.Evolves hdr r (TagKeys.new r).1 := by
  rw [tagKeys_registry]
  exact evolves_internAll hdr r _

theorem logs_tagKeys (n : Interner) (r : Registry H) : Logs hdr n r [] (TagKeys.new r).1 := by
  refine ⟨⟨r.interner.internAll ["scenario", "protocol", "status", "name", "fail"], ?_⟩,
    by simp [Known]⟩
  rw [tagKeys_registry]
  rfl

/-- The keys of the filters, read off a later interner. -/
theorem tagKeys_spec {n : Interner} (r : Registry H)
    (ext : Interner.Extends (TagKeys.new r).1.interner n) :
    ((TagKeys.new r).2.scenario = n.idOf "scenario" ∧ n.Knows "scenario") ∧
      ((TagKeys.new r).2.protocol = n.idOf "protocol" ∧ n.Knows "protocol") ∧
      ((TagKeys.new r).2.status = n.idOf "status" ∧ n.Knows "status") ∧
      ((TagKeys.new r).2.name = n.idOf "name" ∧ n.Knows "name") ∧
      ((TagKeys.new r).2.fail = n.idOf "fail" ∧ n.Knows "fail") := by
  have resolved (r' : Registry H) (key : String)
      (later : Interner.Extends (r'.resolveKey key).1.interner n) :
      Interner.Extends r'.interner n ∧ (r'.resolveKey key).2 = n.idOf key ∧ n.Knows key :=
    ⟨(Interner.getOrIntern_extends r'.interner key).trans later, Registry.resolveKey_spec key later⟩
  rw [tagKeys_new] at ext ⊢
  dsimp only at ext ⊢
  -- from the last key back to the first
  obtain ⟨extName, fail⟩ := resolved _ "fail" ext
  obtain ⟨extStatus, name⟩ := resolved _ "name" extName
  obtain ⟨extProtocol, status⟩ := resolved _ "status" extStatus
  obtain ⟨extScenario, protocol⟩ := resolved _ "protocol" extProtocol
  exact ⟨(resolved r "scenario" extScenario).2, protocol, status, name, fail⟩

/-- A summary as a reader of the series of a registry. -/
structure Reads (n : Interner) (r : Registry H) (scenario : String)
    (summary : ScenarioSummary F) : Prop where
  counters (metric : MetricId) (reported : UInt64)
    (member : (metric, reported) ∈ [(metricIds.request.requestsTotal, summary.requestsTotal),
      (metricIds.request.errorsTotal, summary.failedRequestsTotal),
      (metricIds.request.bytesReceivedTotal, summary.bytesReceivedTotal),
      (metricIds.request.bytesSentTotal, summary.bytesSentTotal),
      (metricIds.iteration.iterationsTotal, summary.iterationsTotal)]) :
    reported.toNat = min (total (ofScenario n scenario) (weight hdr .counter)
      (r.visitSeries metric)) (2 ^ 64 - 1)
  latency (fits : total (overallOf n scenario) (weight hdr .histogram)
      (r.visitSeries metricIds.request.latency) < 2 ^ 64) :
    (summary.latency.isSome ↔ ∃ e ∈ r.visitSeries metricIds.request.latency,
      overallOf n scenario e.1 = true ∧ e.2.kind = .histogram) ∧
    (summary.latency.map fun latency => latency.count.toNat).getD 0 =
      total (overallOf n scenario) (weight hdr .histogram)
        (r.visitSeries metricIds.request.latency)

theorem histogram?_isSome (cell : Cell H) : cell.histogram?.isSome ↔ cell.kind = .histogram := by
  cases cell <;> simp [Cell.histogram?, Cell.kind]

/-- The summary of a scenario is what the registry holds for it, counter by counter. -/
theorem reads_computeScenarioSummary {n : Interner} (lawful : hdr.Lawful)
    (computer : MetricComputer) (requestIds : computer.requestIds = metricIds.request)
    (iterationIds : computer.iterationIds = metricIds.iteration)
    (scenarioKey : computer.keys.scenario = n.idOf "scenario")
    (protocolKey : computer.keys.protocol = n.idOf "protocol") (r : Registry H) (scenario : String)
    (isLast : (r.resolveKey scenario).1.interner = n) :
    Reads hdr n (computer.computeScenarioSummary hdr r scenario).1 scenario
      (computer.computeScenarioSummary hdr r scenario).2 := by
  have value : (r.resolveKey scenario).2 = n.idOf scenario :=
    (Registry.resolveKey_spec scenario (isLast ▸ Interner.Extends.refl _)).1
  have counter (metric : MetricId) :
      (computer.counterTotal (r.resolveKey scenario).1 metric (r.resolveKey scenario).2).toNat =
        min (total (ofScenario n scenario) (weight hdr .counter)
          ((r.resolveKey scenario).1.visitSeries metric)) (2 ^ 64 - 1) := by
    rw [MetricComputer.counterTotal, Query.sumCounterTotal_toNat rfl, scenarioKey, value]
    congr 2
    funext tags
    simp [Query.matchesTags, Query.whereEq, Registry.query, TagFilter.matchesTags, ofScenario]
  constructor
  · intro metric reported member
    simp only [List.mem_cons, List.not_mem_nil, or_false, Prod.mk.injEq] at member
    rcases member with ⟨rfl, rfl⟩ | ⟨rfl, rfl⟩ | ⟨rfl, rfl⟩ | ⟨rfl, rfl⟩ | ⟨rfl, rfl⟩
    · exact requestIds ▸ counter computer.requestIds.requestsTotal
    · exact requestIds ▸ counter computer.requestIds.errorsTotal
    · exact requestIds ▸ counter computer.requestIds.bytesReceivedTotal
    · exact requestIds ▸ counter computer.requestIds.bytesSentTotal
    · exact iterationIds ▸ counter computer.iterationIds.iterationsTotal
  -- the latency is the one series that is asked for without a protocol
  · intro fits
    let query := (((r.resolveKey scenario).1.query computer.requestIds.latency).whereEq
      computer.keys.scenario (r.resolveKey scenario).2).whereMissing computer.keys.protocol
    have filter : query.matchesTags = overallOf n scenario := by
      funext tags
      simp [query, Query.matchesTags, Query.whereEq, Query.whereMissing, Registry.query,
        TagFilter.matchesTags, overallOf, ofScenario, scenarioKey, protocolKey, value]
    have metric : query.metric = metricIds.request.latency :=
      congrArg RequestMetricIds.latency requestIds
    have merged := Query.mergeHistogramSummarySingle_count hdr (q := query) rfl lawful
      (by rw [filter, metric]; exact fits)
    simp only [Query.Merges, filter, metric, histogram?_isSome] at merged
    exact merged

section Summarize

variable (before after : List Event) (scenario : String)

/-- The registry right after the registrations. -/
def registered : Registry H := (registerMetrics Registry.default).1

theorem registered_catalog : (registered : Registry H).Catalog runMetrics :=
  (registerMetrics_catalog Registry.catalog_default).1

/-- The computer that `MetricComputer::new` returns on a registry with the metrics of a run. -/
def computerOf (r : Registry H) : MetricComputer :=
  ⟨metricIds.request, metricIds.iteration, metricIds.checks, (TagKeys.new r).2⟩

/-- The registry when the summary is asked for. -/
def recordedAround : Registry H :=
  recordAll hdr metricIds (TagKeys.new (recordAll hdr metricIds registered before)).1 after

/-- The keys of the queries are interned in between, which changes no series. -/
theorem summarize_eq :
    summarize hdr before after scenario =
      (computerOf (recordAll hdr metricIds (registered : Registry H) before)).computeScenarioSummary
        hdr (recordedAround hdr before after) scenario := by
  have isMetricIds := (registerMetrics_catalog (Registry.catalog_default (H := H))).2
  unfold summarize recordedAround registered
  generalize registerMetrics (Registry.default : Registry H) = start at isMetricIds ⊢
  obtain ⟨r, ids⟩ := start
  dsimp only at isMetricIds
  subst isMetricIds
  rfl

/-- The interner at the end of a run. -/
def lastInterner : Interner := (summarize hdr before after scenario).1.interner

theorem extends_recordedAround :
    Interner.Extends (recordedAround hdr before after).interner
      (lastInterner hdr before after scenario) := by
  rw [lastInterner, summarize_eq]
  exact Interner.getOrIntern_extends _ scenario

theorem extends_tagKeys :
    Interner.Extends (TagKeys.new (recordAll hdr metricIds registered before)).1.interner
      (lastInterner hdr before after scenario) :=
  (evolves_recordAll hdr _ after).interner.1.trans (extends_recordedAround hdr before after scenario)

theorem wf_lastInterner : (lastInterner hdr before after scenario).Wf := by
  rw [lastInterner, summarize_eq]
  have wf : (registered : Registry H).interner.Wf := registered_catalog.interner
  have evolves := ((evolves_recordAll hdr registered before).trans (evolves_tagKeys hdr _)).trans
    (evolves_recordAll hdr _ after)
  exact (evolves.interner.2 wf).getOrIntern scenario

/-- What a run logs, as the interner it ends with sees it. -/
theorem logs_summarize :
    Logs hdr (lastInterner hdr before after scenario) registered
      ((before ++ after).flatMap Event.entries) (summarize hdr before after scenario).1 := by
  have toTagKeys := extends_tagKeys hdr before after scenario
  have toBefore := (evolves_tagKeys hdr (recordAll hdr metricIds registered before)).interner.1.trans
    toTagKeys
  -- the events before the keys are resolved, the keys, the events after, and the query
  have first := logs_recordAll hdr registered before toBefore
  have second := logs_recordAll hdr _ after (extends_recordedAround hdr before after scenario)
  have resolved : Logs hdr (lastInterner hdr before after scenario)
      (recordedAround hdr before after) [] (summarize hdr before after scenario).1 := by
    rw [summarize_eq]
    exact ⟨Registry.Records.resolveKey _ scenario, by simp [Known]⟩
  have all := first.trans ((logs_tagKeys hdr _ _).trans (second.trans resolved))
  rw [List.flatMap_append]
  simpa using all

/-- The summary at the end of a run, with other scenarios summarised before and after it. -/
theorem reads_summarize (lawful : hdr.Lawful) :
    Reads hdr (lastInterner hdr before after scenario) (summarize hdr before after scenario).1
      scenario (summarize hdr before after scenario).2 := by
  obtain ⟨⟨scenarioKey, -⟩, ⟨protocolKey, -⟩, -⟩ :=
    tagKeys_spec _ (extends_tagKeys hdr before after scenario)
  have isLast : ((recordedAround hdr before after).resolveKey scenario).1.interner =
      lastInterner hdr before after scenario := by
    rw [lastInterner, summarize_eq]
    rfl
  rw [summarize_eq]
  exact reads_computeScenarioSummary hdr lawful
    (computerOf (recordAll hdr metricIds registered before)) rfl rfl scenarioKey protocolKey _ _
    isLast

end Summarize

/-! ### What the queries count -/

section Counts

variable {n : Interner} (ample : n.Ample) {scenario : String} (known : n.Knows scenario)
  {events : List Event} (knows : Known n (events.flatMap Event.entries))

theorem known_event (knows : Known n (events.flatMap Event.entries)) {event : Event}
    (member : event ∈ events) : Known n event.entries :=
  fun entry inEvent => knows entry (List.mem_flatMap.mpr ⟨event, member, inEvent⟩)

include ample known knows

/-- The entries of a metric in the requests of the scenario. -/
theorem sum_recorded_requests {metric : MetricId} {g : RequestSample → Nat}
    (request : ∀ sample extraTags,
      entrySum hdr metric (Event.request sample extraTags).entries = g sample)
    (iteration : ∀ sample extraTags,
      entrySum hdr metric (Event.iteration sample extraTags).entries = 0) :
    (events.map fun event => Registry.recorded hdr metric (ofScenario n scenario)
      (event.entries.map fun e => e.at n)).sum = ((requestsOf scenario events).map g).sum := by
  rw [List.map_congr_left fun event member =>
    recorded_ofScenario hdr ample known metric (known_event knows member)]
  apply sum_requestsOf
  · intro sample extraTags
    rw [request]
    rfl
  · intro sample extraTags
    simp [iteration]

/-- What the iterations of a scenario add to a metric that requests do not touch. -/
theorem sum_recorded_iterations {metric : MetricId}
    (request : ∀ sample extraTags,
      entrySum hdr metric (Event.request sample extraTags).entries = 0)
    (iteration : ∀ sample extraTags,
      entrySum hdr metric (Event.iteration sample extraTags).entries = 1) :
    (events.map fun event => Registry.recorded hdr metric (ofScenario n scenario)
      (event.entries.map fun e => e.at n)).sum = (iterationsOf scenario events).length := by
  rw [List.map_congr_left fun event member =>
    recorded_ofScenario hdr ample known metric (known_event knows member)]
  apply sum_iterationsOf
  · intro sample extraTags
    simp [request]
  · intro sample extraTags
    rw [iteration]
    rfl

theorem sum_recorded_overall (protocol : n.Knows "protocol") :
    (events.map fun event => Registry.recorded hdr metricIds.request.latency (overallOf n scenario)
      (event.entries.map fun e => e.at n)).sum =
      ((requestsOf scenario events).map fun sample =>
        (Amount.observe (recordedMicros sample.latency)).size hdr).sum := by
  rw [List.map_congr_left fun event member =>
    recorded_overall hdr ample known protocol (known_event knows member)]
  exact sum_requestsOf (fun _ _ => rfl) (fun _ _ => rfl) events

/-- Some latency entry passes the filter when the scenario has a request. -/
theorem exists_overall_iff (protocol : n.Knows "protocol") :
    (∃ rec ∈ (events.flatMap Event.entries).map fun e => e.at n,
      rec.metric = metricIds.request.latency ∧ overallOf n scenario rec.tags = true) ↔
      requestsOf scenario events ≠ [] := by
  constructor
  · rintro ⟨rec, member, isLatency, passes⟩
    rw [List.mem_map] at member
    obtain ⟨entry, inEntries, rfl⟩ := member
    rw [List.mem_flatMap] at inEntries
    obtain ⟨event, inEvents, inEvent⟩ := inEntries
    have ofEvent := ofScenario_entry ample known (known_event knows inEvents) inEvent
    rw [overallOf, Bool.and_eq_true, Entry.at, ofEvent, decide_eq_true_eq] at passes
    cases event with
    | request sample extraTags =>
      apply List.ne_nil_of_mem (a := sample)
      rw [requestsOf, List.mem_filterMap]
      exact ⟨_, inEvents, if_pos passes.1⟩
    | iteration sample extraTags =>
      simp only [Event.entries, List.mem_cons, List.not_mem_nil, or_false] at inEvent
      rcases inEvent with rfl | rfl
      · simp [Entry.at, metricIds] at isLatency
      · simp [Entry.at, metricIds] at isLatency
  -- the first of the two latency entries of a request has no protocol
  · intro some
    obtain ⟨sample, member⟩ := List.exists_mem_of_ne_nil _ some
    rw [requestsOf, List.mem_filterMap] at member
    obtain ⟨event, inEvents, isSample⟩ := member
    cases event with
    | iteration sample' extraTags => simp at isSample
    | request sample' extraTags =>
      have ofScenario : sample'.scenario = scenario := by
        by_contra other
        simp [other] at isSample
      refine ⟨(overallEntry sample' extraTags).at n, ?_, rfl, ?_⟩
      · apply List.mem_map_of_mem
        exact List.mem_flatMap.mpr ⟨_, inEvents, overallEntry_mem sample' extraTags⟩
      · have passes := overallOf_overallEntry ample known protocol sample' extraTags
          (known_event knows inEvents)
        rw [ofScenario, decide_eq_true rfl] at passes
        exact passes

end Counts

theorem sum_ite_one {α : Type} (p : α → Bool) (xs : List α) :
    (xs.map fun x => if p x then 1 else 0).sum = xs.countP p := by
  induction xs with
  | nil => rfl
  | cons x rest ih =>
    rw [List.map_cons, List.sum_cons, ih, List.countP_cons, Nat.add_comm]

/-- The summary of a scenario accounts for the events of the scenario, whatever else was recorded
and whatever extra tags the scripts add. -/
theorem summary_accounts (lawful : hdr.Lawful) (before after : List Event) (scenario : String)
    (few : (summarize hdr before after scenario).1.interner.vec.length ≤ 2 ^ 32)
    (fits : SumsFit scenario (before ++ after)) :
    Accounts hdr scenario (before ++ after) (summarize hdr before after scenario).2 := by
  have ample : (lastInterner hdr before after scenario).Ample := by
    constructor
    · exact wf_lastInterner hdr before after scenario
    · rw [lastInterner]
      exact few
  have logs := logs_summarize hdr before after scenario
  have reads := reads_summarize hdr before after scenario lawful
  have known : (lastInterner hdr before after scenario).Knows scenario := by
    rw [lastInterner, summarize_eq]
    exact Interner.knows_getOrIntern _ scenario
  obtain ⟨-, ⟨-, protocol⟩, -⟩ := tagKeys_spec _ (extends_tagKeys hdr before after scenario)
  generalize lastInterner hdr before after scenario = n at *
  generalize before ++ after = events at *
  generalize summarize hdr before after scenario = out at *
  -- a counter reports the exact total of its entries when that is below the cap
  have counter (i : Nat) (name : String) (here : runMetrics[i]? = some (name, .counter))
      (reported : UInt64) (member : (UInt32.ofNat i, reported) ∈
        [(metricIds.request.requestsTotal, out.2.requestsTotal),
          (metricIds.request.errorsTotal, out.2.failedRequestsTotal),
          (metricIds.request.bytesReceivedTotal, out.2.bytesReceivedTotal),
          (metricIds.request.bytesSentTotal, out.2.bytesSentTotal),
          (metricIds.iteration.iterationsTotal, out.2.iterationsTotal)]) (amount : Nat)
      (isAmount : (events.map fun event => Registry.recorded hdr (UInt32.ofNat i)
        (ofScenario n scenario) (event.entries.map fun e => e.at n)).sum = amount)
      (low : amount < 2 ^ 64) : reported.toNat = amount := by
    have total := total_of_logs hdr lawful registered_catalog logs i here (ofScenario n scenario)
      isAmount low
    rw [reads.counters _ _ member, total]
    omega
  have failures : (requestsOf scenario events).countP (fun sample => !sample.ok) < 2 ^ 64 :=
    Nat.lt_of_le_of_lt List.countP_le_length fits.requests
  have accepted : (requestsOf scenario events).countP
      (fun sample => hdr.accepts (recordedMicros sample.latency)) < 2 ^ 64 :=
    Nat.lt_of_le_of_lt List.countP_le_length fits.requests
  constructor
  · refine counter 0 _ rfl _ (by simp [metricIds]) _ ?_ fits.requests
    have ones := sum_recorded_requests hdr ample known logs.known (g := fun _ => 1)
      (fun sample tags => (entrySum_request hdr sample tags).1)
      (fun sample tags => (entrySum_iteration hdr sample tags).1)
    exact ones.trans (by simp)
  · refine counter 3 _ rfl _ (by simp [metricIds]) _ ?_ failures
    rw [← sum_ite_one]
    exact sum_recorded_requests hdr ample known logs.known
      (fun sample tags => (entrySum_request hdr sample tags).2.2.2.1)
      (fun sample tags => (entrySum_iteration hdr sample tags).2.2.2.1)
  · refine counter 1 _ rfl _ (by simp [metricIds]) _ ?_ fits.bytesReceived
    exact sum_recorded_requests hdr ample known logs.known
      (fun sample tags => (entrySum_request hdr sample tags).2.1)
      (fun sample tags => (entrySum_iteration hdr sample tags).2.1)
  · refine counter 2 _ rfl _ (by simp [metricIds]) _ ?_ fits.bytesSent
    exact sum_recorded_requests hdr ample known logs.known
      (fun sample tags => (entrySum_request hdr sample tags).2.2.1)
      (fun sample tags => (entrySum_iteration hdr sample tags).2.2.1)
  · refine counter 6 _ rfl _ (by simp [metricIds]) _ ?_ fits.iterations
    exact sum_recorded_iterations hdr ample known logs.known
      (fun sample tags => (entrySum_request hdr sample tags).2.2.2.2)
      (fun sample tags => (entrySum_iteration hdr sample tags).2.2.2.2)
  · have size : (events.map fun event => Registry.recorded hdr (UInt32.ofNat 5)
        (overallOf n scenario) (event.entries.map fun e => e.at n)).sum =
        (requestsOf scenario events).countP
          fun sample => hdr.accepts (recordedMicros sample.latency) := by
      rw [← sum_ite_one]
      exact sum_recorded_overall hdr ample known logs.known protocol
    have total := total_of_logs hdr lawful registered_catalog logs 5 rfl (overallOf n scenario)
      size accepted
    obtain ⟨isSome, count⟩ := reads.latency (total ▸ accepted)
    refine ⟨?_, count.trans total⟩
    rw [isSome, ← exists_overall_iff ample known logs.known protocol]
    exact exists_series_iff hdr registered_catalog logs 5 rfl (overallOf n scenario)

/-- A failed request whose script sets the reserved tags, and an iteration. -/
def reservedTags : List Event :=
  [.request ⟨"checkout", .grpc, false, 1500000, 10, 20, some "timeout"⟩
      [("scenario", "login"), ("protocol", "http"), ("error_kind", "none"), ("region", "eu")],
    .request ⟨"login", .http, true, 900, 1, 2, none⟩ [],
    .iteration ⟨"checkout", false, 2000000⟩ [("status", "success")]]

theorem summary_accounts_reserved_tags :
    Accounts HdrHistogram.exact "checkout" (reservedTags ++ reservedTags)
      (summarize HdrHistogram.exact reservedTags reservedTags "checkout").2 ∧
    requestsOf "checkout" (reservedTags ++ reservedTags) ≠ [] := by
  refine ⟨summary_accounts HdrHistogram.exact HdrHistogram.lawful_exact reservedTags reservedTags
    "checkout" ?_ ?_, by decide⟩
  · decide +kernel
  · exact ⟨by decide, by decide, by decide, by decide⟩

/-! ### Reused ids -/

/-- Strings of one repeated letter. -/
def crowd (m : Nat) : List String :=
  (List.range m).map fun i => String.ofList (List.replicate (i + 1) 'a')

/-- A request with many different extra tags. -/
def crowded (m : Nat) : Event :=
  .request ⟨"A", .http, true, 1000000, 0, 0, none⟩ ((crowd m).map fun s => (s, s))

theorem not_mem_crowd {s : String} (m : Nat) (other : s.toList.any (· != 'a') = true) :
    s ∉ crowd m := by
  intro member
  rw [crowd, List.mem_map] at member
  obtain ⟨i, -, rfl⟩ := member
  rw [List.any_eq_true] at other
  obtain ⟨c, inString, isOther⟩ := other
  rw [String.toList_ofList] at inString
  rw [List.eq_of_mem_replicate inString] at isOther
  exact absurd isOther (by decide)

theorem nodup_crowd (m : Nat) : (crowd m).Nodup := by
  rw [crowd]
  apply List.Nodup.map _ List.nodup_range
  intro i j same
  have lengths := congrArg List.length (String.ofList_injective same)
  simpa using lengths

/-- Every string of the run, in the order of its id. -/
def crowdedStrings (m : Nat) : List String :=
  runMetrics.map Prod.fst ++ ["scenario", "A", "protocol", "http"] ++ crowd m ++
    ["status", "name", "fail", "B"]

/-- The crowd has no string twice, so each gets an id of its own. -/
theorem nodup_crowdedStrings (m : Nat) : (crowdedStrings m).Nodup := by
  have fixed : ∀ s ∈ (runMetrics.map Prod.fst ++ ["scenario", "A", "protocol", "http"]) ++
      ["status", "name", "fail", "B"], s.toList.any (· != 'a') = true := by decide
  have distinct : ((runMetrics.map Prod.fst ++ ["scenario", "A", "protocol", "http"]) ++
      ["status", "name", "fail", "B"]).Nodup := by decide
  rw [crowdedStrings, List.append_assoc, (List.perm_append_comm.append_left _).nodup_iff,
    ← List.append_assoc, List.nodup_append]
  refine ⟨distinct, nodup_crowd m, ?_⟩
  rintro s inFixed _ inCrowd rfl
  exact not_mem_crowd m (fixed s inFixed) inCrowd

/-- A request that is no error interns its tags twice, with and without the protocol. -/
theorem recordRequest_interner (r : Registry H) {sample : RequestSample} (ok : sample.ok = true)
    (extraTags : List (String × String)) :
    (metricIds.request.recordRequest hdr r sample extraTags).interner =
      r.interner.internAll
        (Interner.stringsOf (merged RequestMetricIds.reserved extraTags
            [("scenario", sample.scenario), ("protocol", sample.protocol.asStr)]) ++
          Interner.stringsOf (merged RequestMetricIds.reserved extraTags
            [("scenario", sample.scenario)])) := by
  unfold RequestMetricIds.recordRequest RequestMetricIds.recordErrors
  simp only [ok, ↓reduceIte, resolveWith_eq, Registry.touch_interner, Registry.resolveTags,
    Interner.internPairs_fst, Interner.internAll_append]

/-- The extra tags add the strings of the crowd once each. -/
theorem foldl_strings_crowd (m : Nat) (vec : List String) (base : List (String × String)) :
    (Interner.stringsOf (merged RequestMetricIds.reserved ((crowd m).map fun s => (s, s))
      base)).foldl Interner.appendNew vec =
      (Interner.stringsOf base ++ crowd m).foldl Interner.appendNew vec := by
  have allowed : ((crowd m).map fun s => (s, s)).filter
      (fun tag => tag.1 ∉ RequestMetricIds.reserved) = (crowd m).map fun s => (s, s) := by
    rw [List.filter_eq_self]
    intro tag member
    rw [List.mem_map] at member
    obtain ⟨s, inCrowd, rfl⟩ := member
    have reserved : ∀ s ∈ RequestMetricIds.reserved, s.toList.any (· != 'a') = true := by decide
    rw [decide_eq_true_eq]
    intro isReserved
    exact not_mem_crowd m (reserved s isReserved) inCrowd
  have twice (strings vec : List String) :
      (Interner.stringsOf (strings.map fun s => (s, s))).foldl Interner.appendNew vec =
        strings.foldl Interner.appendNew vec := by
    induction strings generalizing vec with
    | nil => rfl
    | cons s rest ih =>
      -- a tag whose key is its value interns one string
      have again : Interner.appendNew (Interner.appendNew vec s) s = Interner.appendNew vec s := by
        unfold Interner.appendNew
        by_cases known : s ∈ vec <;> simp [known]
      rw [List.foldl_cons, ← ih, ← again]
      rfl
  rw [merged, allowed, Interner.stringsOf, List.flatMap_append, List.foldl_append,
    List.foldl_append]
  exact twice (crowd m) _

/-- The interner at the end of a run with a successful request, which interns the tags of the
request and the keys of the queries. -/
theorem lastInterner_request {sample : RequestSample} (ok : sample.ok = true)
    (extraTags : List (String × String)) (scenario : String) :
    lastInterner hdr [.request sample extraTags] [] scenario =
      (registered : Registry H).interner.internAll
        ((Interner.stringsOf (merged RequestMetricIds.reserved extraTags
            [("scenario", sample.scenario), ("protocol", sample.protocol.asStr)]) ++
          Interner.stringsOf (merged RequestMetricIds.reserved extraTags
            [("scenario", sample.scenario)])) ++
          ["scenario", "protocol", "status", "name", "fail", scenario]) := by
  have one (r : Registry H) : recordAll hdr metricIds r [.request sample extraTags] =
      metricIds.request.recordRequest hdr r sample extraTags := rfl
  have keys : ["scenario", "protocol", "status", "name", "fail", scenario] =
      ["scenario", "protocol", "status", "name", "fail"] ++ [scenario] := rfl
  rw [lastInterner, summarize_eq, Interner.internAll_append,
    ← recordRequest_interner hdr registered ok extraTags, recordedAround, one, keys,
    Interner.internAll_append]
  -- what the request interns is known now; the queries add their keys
  generalize metricIds.request.recordRequest hdr registered sample extraTags = r
  have asked (computer : MetricComputer) (r : Registry H) :
      (computer.computeScenarioSummary hdr r scenario).1.interner =
        r.interner.internAll [scenario] := rfl
  rw [asked, recordAll, List.foldl_nil, tagKeys_registry]
  rfl

/-- The strings in the order of their ids. -/
theorem vec_crowded (m : Nat) :
    (lastInterner HdrHistogram.exact [crowded m] [] "B").vec = crowdedStrings m := by
  have names : (registered : Registry (List UInt64)).interner.vec = runMetrics.map Prod.fst :=
    registered_catalog.names
  rw [crowded, lastInterner_request HdrHistogram.exact rfl, registered_catalog.interner.vec_internAll,
    names, List.foldl_append, List.foldl_append, foldl_strings_crowd, foldl_strings_crowd]
  let known := runMetrics.map Prod.fst ++ (["scenario", "A", "protocol", "http"] ++ crowd m)
  have split : crowdedStrings m = known ++ ["status", "name", "fail", "B"] := by
    rw [crowdedStrings, List.append_assoc (runMetrics.map Prod.fst)]
  have distinct := nodup_crowdedStrings m
  rw [split] at distinct
  have first : (Interner.stringsOf [("scenario", "A"), ("protocol", Protocol.http.asStr)] ++
      crowd m).foldl Interner.appendNew (runMetrics.map Prod.fst) = known :=
    Interner.foldl_appendNew_of_nodup _ _ (List.nodup_append.mp distinct).1
  -- the tags without the protocol bring nothing new
  have second : (Interner.stringsOf [("scenario", "A")] ++ crowd m).foldl Interner.appendNew known =
      known := by
    apply Interner.foldl_appendNew_of_subset
    rw [List.append_subset]
    constructor
    · intro s member
      apply List.mem_append_right
      apply List.mem_append_left
      revert member
      simp only [Interner.stringsOf]
      revert s
      decide
    · intro s member
      exact List.mem_append_right _ (List.mem_append_right _ member)
  have keys : ["scenario", "protocol", "status", "name", "fail", "B"] =
      ["scenario", "protocol"] ++ ["status", "name", "fail", "B"] := rfl
  have third : ["scenario", "protocol"].foldl Interner.appendNew known = known := by
    apply Interner.foldl_appendNew_of_subset
    simp [known]
  rw [first, second, keys, List.foldl_append, third, split]
  exact Interner.foldl_appendNew_of_nodup _ _ distinct

section Crowded

variable {m : Nat} {n : Interner} (wf : n.Wf) (vec : n.vec = crowdedStrings m)

include wf vec

/-- The ids of the strings before the crowd. -/
theorem idOf_before_crowd {i : Nat} {s : String}
    (here : (runMetrics.map Prod.fst ++ ["scenario", "A", "protocol", "http"])[i]? = some s) :
    n.idOf s = UInt32.ofNat i := by
  apply wf.idOf_eq
  have low : i < (runMetrics.map Prod.fst ++ ["scenario", "A", "protocol", "http"]).length :=
    (List.getElem?_eq_some_iff.mp here).1
  rw [vec, crowdedStrings, List.append_assoc, List.getElem?_append_left low]
  exact here

theorem idOf_crowd {s : String} (member : s ∈ crowd m) :
    ∃ i < m, n.idOf s = UInt32.ofNat (13 + i) := by
  obtain ⟨i, low, rfl⟩ := List.mem_iff_getElem.mp member
  refine ⟨i, by simpa [crowd] using low, ?_⟩
  apply wf.idOf_eq
  have fixed : (runMetrics.map Prod.fst ++ ["scenario", "A", "protocol", "http"]).length = 13 := rfl
  rw [vec, crowdedStrings, List.append_assoc, List.getElem?_append_right (by omega), fixed,
    Nat.add_sub_cancel_left, List.getElem?_append_left low, List.getElem?_eq_getElem low]

/-- The scenario comes last of all strings. -/
theorem idOf_last : n.idOf "B" = UInt32.ofNat (16 + m) := by
  apply wf.idOf_eq
  have length : (runMetrics.map Prod.fst ++ ["scenario", "A", "protocol", "http"] ++
      crowd m).length = 13 + m := by
    rw [List.length_append, crowd, List.length_map, List.length_range]
    rfl
  rw [vec, crowdedStrings, List.getElem?_append_right (by omega), length]
  have last : 16 + m - (13 + m) = 3 := by omega
  rw [last]
  rfl

/-- With as many strings as make "B" reuse the id of "A", the filter for "B" lets the tags of the
request pass. -/
theorem ofScenario_crowded (full : m + 6 = 2 ^ 32) :
    ofScenario n "B" (n.tagSet (merged RequestMetricIds.reserved ((crowd m).map fun s => (s, s))
      [("scenario", "A"), ("protocol", "http")])) = true := by
  have scenario : n.idOf "scenario" = 9 := idOf_before_crowd wf vec (i := 9) rfl
  have first : n.idOf "A" = 10 := idOf_before_crowd wf vec (i := 10) rfl
  have protocol : n.idOf "protocol" = 11 := idOf_before_crowd wf vec (i := 11) rfl
  have second : n.idOf "B" = 10 := by
    have wraps : 16 + m = 2 ^ 32 + 10 := by omega
    rw [idOf_last wf vec, wraps]
    rfl
  rw [ofScenario, decide_eq_true_eq, second, ← first]
  apply (Interner.tagSet_sorted n _).get_of_mem
  · exact Interner.mem_tagSet.mpr ⟨("scenario", "A"), by simp [merged], rfl⟩
  · intro value stored
    obtain ⟨tag, member, ids⟩ := Interner.mem_tagSet.mp stored
    have key : n.idOf tag.1 = 9 := (congrArg Prod.fst ids).trans scenario
    rw [merged, List.mem_append, List.mem_cons, List.mem_singleton] at member
    rcases member with (rfl | rfl) | extra
    · exact (congrArg Prod.snd ids).symm
    · rw [protocol] at key
      exact absurd key (by decide)
    · obtain ⟨s, inCrowd, rfl⟩ := List.mem_map.mp (List.mem_filter.mp extra).1
      obtain ⟨i, low, id⟩ := idOf_crowd wf vec inCrowd
      -- none of the crowd has reached the id of "scenario" again
      have number := congrArg UInt32.toNat (id.symm.trans key)
      rw [UInt32.toNat_ofNat'] at number
      change (13 + i) % 2 ^ 32 = 9 at number
      omega

end Crowded

/-- With `2 ^ 32` strings interned the id of a scenario name comes round again, and the summary is
about another scenario. -/
theorem misattributed {m : Nat} (full : m + 6 = 2 ^ 32) :
    SumsFit "B" [crowded m] ∧
      ¬ Accounts HdrHistogram.exact "B" [crowded m]
        (summarize HdrHistogram.exact [crowded m] [] "B").2 := by
  have none : requestsOf "B" [crowded m] = [] := by simp [requestsOf, crowded]
  have noIteration : iterationsOf "B" [crowded m] = [] := by simp [iterationsOf, crowded]
  refine ⟨⟨by simp [none], by simp [none], by simp [none], by simp [noIteration]⟩, ?_⟩
  intro accounts
  -- the query for `B` asks for the id that the tag of the other scenario has
  have passes := ofScenario_crowded (wf_lastInterner HdrHistogram.exact [crowded m] [] "B")
    (vec_crowded m) full
  have logs := logs_summarize HdrHistogram.exact [crowded m] [] "B"
  have reads := reads_summarize HdrHistogram.exact [crowded m] [] "B" HdrHistogram.lawful_exact
  have requests := accounts.requests
  rw [none, List.length_nil] at requests
  generalize lastInterner HdrHistogram.exact [crowded m] [] "B" = n at *
  generalize summarize HdrHistogram.exact [crowded m] [] "B" = out at *
  have one : ([crowded m].map fun event => Registry.recorded HdrHistogram.exact (UInt32.ofNat 0)
      (ofScenario n "B") (event.entries.map fun e => e.at n)).sum = 1 := by
    simp [crowded, Registry.recorded, Event.entries, errorEntries, Entry.at, metricIds,
      Amount.size, Protocol.asStr, passes]
  have total := total_of_logs HdrHistogram.exact HdrHistogram.lawful_exact registered_catalog logs
    0 rfl (ofScenario n "B") one (by decide)
  have reported := reads.counters (UInt32.ofNat 0) out.2.requestsTotal (by simp [metricIds])
  -- one request is counted, where there is none
  rw [total, requests] at reported
  contradiction

/-- A request of "A" with 2^32 - 6 extra tags is reported as a request of "B", whose name gets the
id of "A". -/
theorem summary_counts_other_scenario :
    SumsFit "B" [crowded 4294967290] ∧
      ¬ Accounts HdrHistogram.exact "B" [crowded 4294967290]
        (summarize HdrHistogram.exact [crowded 4294967290] [] "B").2 :=
  misattributed (by decide)

end Wrkr.Core.Accounting
