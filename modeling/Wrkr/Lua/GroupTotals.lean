import Wrkr.Core.Books
import Wrkr.Lua.CallWork

/-!
# What a threshold on a group counts

A call records on the metrics of the run with the current group among its tags, unless the call has
a group of its own. So after a run a threshold on the count of a counter, for the series with one
group, compares what the calls in the text of this group add up to, over all VUs and in whatever
order they were made (`threshold_of_group`).
-/
namespace Wrkr.Lua.Group

open Wrkr.Lib Wrkr.Lib.Scopes Wrkr.Metrics Wrkr.Core Wrkr.Core.Accounting

/-! ### The group of a call -/

/-- The tags of the call itself come first. -/
def groupOfTags (currentGroup : Option String) (tags : List (String × String)) : Option String :=
  (tags.lookup "group").or currentGroup

/-- The group that the recordings of a call are tagged with. The loop of the VU has none, and a
custom metric has its own series. -/
def Call.groupOf (currentGroup : Option String) : Call → Option String
  | .check _ => currentGroup
  | .http _ opts _ _ => groupOfTags currentGroup opts.tags
  | .grpc tags _ _ _ => groupOfTags currentGroup tags
  | .make _ _ | .add _ _ _ | .iteration _ _ => none

/-- What `record_request` adds to a counter. -/
def addedBySample (metric : MetricId) (sample : RequestSample) : List UInt64 :=
  if metric = metricIds.request.requestsTotal then [1]
  else if metric = metricIds.request.bytesReceivedTotal then [sample.bytesReceived]
  else if metric = metricIds.request.bytesSentTotal then [sample.bytesSent]
  else if sample.ok then []
  else if metric = metricIds.request.errorsTotal then [1]
  else if metric = metricIds.request.errorsByKindTotal then (sample.errorKind.map fun _ => 1).toList
  else []

/-- What a call in a group adds to a counter of the run, one number for each recording. -/
def Call.added (metricsCtx : MetricsContext) (metric : MetricId) : Call → List UInt64
  | .check checks =>
    if metric = metricIds.checks then checks.filterMap fun pair => pair.map fun _ => 1 else []
  | .http _ _ latency outcome => addedBySample metric (requestSample metricsCtx latency outcome)
  | .grpc _ latency sent outcome => addedBySample metric (grpcSample metricsCtx latency sent outcome)
  | .make _ _ | .add _ _ _ | .iteration _ _ => []

/-- What the calls of one VU with the group add, by its text. -/
def addedIn (metricsCtx : MetricsContext) (metric : MetricId) (group : String)
    (iterations : List Iteration) : List UInt64 :=
  ((calls iterations).filter fun call => call.1.groupOf call.2 = some group).flatMap
    fun call => call.1.added metricsCtx metric

/-- The tags of a call have different keys. -/
def Call.DistinctTags : Call → Prop
  | .http _ opts _ _ => (keys opts.tags).Nodup
  | .grpc tags _ _ _ => (keys tags).Nodup
  | .check _ | .make _ _ | .add _ _ _ | .iteration _ _ => True

instance : DecidablePred Call.DistinctTags
  | .http _ opts _ _ => inferInstanceAs (Decidable (keys opts.tags).Nodup)
  | .grpc tags _ _ _ => inferInstanceAs (Decidable (keys tags).Nodup)
  | .check _ | .make _ _ | .add _ _ _ | .iteration _ _ => .isTrue trivial

/-! ### The group among the tags -/

section Tags

variable {metricsCtx : MetricsContext} {currentGroup : Option String}
  {tags : List (String × String)} {reservedKeys : List String} {group : String}

theorem lookup_eq_some_iff (distinct : (keys tags).Nodup) {key value : String} :
    tags.lookup key = some value ↔ (key, value) ∈ tags := by
  induction tags with
  | nil => simp
  | cons tag rest ih =>
    obtain ⟨k, v⟩ := tag
    obtain ⟨new, later⟩ := List.nodup_cons.mp distinct
    rw [List.lookup_cons]
    by_cases same : key = k
    · subst same
      have absent : (key, value) ∉ rest := fun inside =>
        new (List.mem_map.mpr ⟨(key, value), inside, rfl⟩)
      simp [absent, eq_comm]
    · rw [beq_false_of_ne same]
      simp [same, ih later]

theorem lookup_eq_none_iff {key : String} : tags.lookup key = none ↔ key ∉ keys tags := by
  rw [List.lookup_eq_none_iff, keys, List.mem_map]
  constructor
  · rintro other ⟨tag, inside, rfl⟩
    simpa using other tag inside
  · intro absent tag inside
    simpa using fun same : key = tag.1 => absent ⟨tag, inside, same.symm⟩

/-- The group that completed tags have is that of the call or else the current one. -/
theorem group_mem_completed (distinct : (keys tags).Nodup) (isReserved : "group" ∈ reservedKeys) :
    ("group", group) ∈ completed metricsCtx currentGroup reservedKeys tags ↔
      groupOfTags currentGroup tags = some group := by
  obtain ⟨-, kept⟩ := completed_spec metricsCtx currentGroup reservedKeys distinct
  rw [groupOfTags]
  cases own : tags.lookup "group" with
  | some g =>
    have inside := (lookup_eq_some_iff distinct).mp own
    rw [Option.some_or, Option.some.injEq]
    constructor
    · intro member
      rcases mem_completed distinct isReserved member with old | ⟨absent, -⟩
      · exact Option.some.inj (own.symm.trans ((lookup_eq_some_iff distinct).mpr old))
      · exact absurd (List.mem_map_of_mem inside) absent
    · rintro rfl
      exact kept inside
  | none =>
    have absent := lookup_eq_none_iff.mp own
    rw [Option.none_or]
    constructor
    · intro member
      rcases mem_completed distinct isReserved member with old | ⟨-, current⟩
      · exact absurd (List.mem_map_of_mem old) absent
      · exact current rfl
    · rintro rfl
      -- the tags of the scenario cannot bring a group in between
      have free : ¬(metricsCtx.mergeScenarioTagsIfMissing reservedKeys tags).any
          (·.1 == "group") = true := by
        rw [List.any_eq_true]
        rintro ⟨tag, merged, isGroup⟩
        rw [beq_iff_eq] at isGroup
        rcases mem_mergeScenarioTags merged with old | ⟨-, other, -⟩
        · exact absent (isGroup ▸ List.mem_map_of_mem old)
        · exact other (isGroup ▸ isReserved)
      simp only [completed, CheckRecorder.addGroup, free]
      simp

theorem group_mem_callTags {method : String} {opts : Http.HttpRequestOptions} :
    ("group", group) ∈ callTags method opts ↔ ("group", group) ∈ opts.tags := by
  rw [callTags]
  cases opts.name <;> simp [mem_setTag]

theorem groupOfTags_callTags {method : String} {opts : Http.HttpRequestOptions}
    (distinct : (keys opts.tags).Nodup) :
    groupOfTags currentGroup (callTags method opts) = groupOfTags currentGroup opts.tags := by
  have same : (callTags method opts).lookup "group" = opts.tags.lookup "group" := by
    ext value
    rw [lookup_eq_some_iff (nodup_callTags method distinct), lookup_eq_some_iff distinct]
    exact group_mem_callTags
  rw [groupOfTags, same, groupOfTags]

/-- No recording of a request has a group but from the extra tags. -/
theorem group_mem_request {sample : RequestSample} {extraTags : List (String × String)}
    {entry : Entry} (member : entry ∈ (Event.request sample extraTags).entries) :
    ("group", group) ∈ entry.pairs ↔ ("group", group) ∈ extraTags := by
  simp only [Event.entries, List.mem_append, List.mem_cons, List.not_mem_nil, or_false] at member
  -- the group is not reserved, so the extra tags keep it
  have extra (base : List (String × String)) (none : ("group", group) ∉ base) :
      ("group", group) ∈ merged RequestMetricIds.reserved extraTags base ↔
        ("group", group) ∈ extraTags := by
    simp [mem_merged, none, RequestMetricIds.reserved]
  rcases member with ((rfl | rfl | rfl) | errors) | rfl | rfl
  · exact extra _ (by simp)
  · exact extra _ (by simp)
  · exact extra _ (by simp)
  · rcases mem_errorEntries errors with rfl | ⟨kind, rfl⟩
    · exact extra _ (by simp)
    · exact extra _ (by simp)
  · exact extra _ (by simp)
  · exact extra _ (by simp)

/-- The recordings of a call carry the group of the call. -/
theorem Call.group_of_entry {call : Call} (distinct : call.DistinctTags) {entry : Entry}
    (member : entry ∈ call.entries metricsCtx currentGroup) :
    ("group", group) ∈ entry.pairs ↔ call.groupOf currentGroup = some group := by
  cases call with
  | check checks =>
    obtain ⟨pair, -, isEntry⟩ := List.mem_filterMap.mp member
    obtain ⟨⟨name, result⟩, -, rfl⟩ := Option.map_eq_some_iff.mp isEntry
    have distinct : (keys (Recorder.own metricsCtx (.check name (result.getD false)))).Nodup := by
      simp [Recorder.own, keys]
    refine (group_mem_completed distinct (List.mem_singleton_self _)).trans ?_
    simp [groupOfTags, Recorder.own, Call.groupOf, List.lookup_cons]
  | http method opts latency outcome =>
    rw [group_mem_request member, requestTags_eq,
      group_mem_completed (nodup_callTags method distinct) (by simp), groupOfTags_callTags distinct]
    rfl
  | grpc tags latency sent outcome =>
    rw [group_mem_request member]
    exact group_mem_completed distinct (by simp)
  | make kind name => cases member
  | add table value tags => cases member
  -- an iteration is recorded without a group
  | iteration duration success =>
    simp only [Call.entries, Event.entries, List.mem_cons, List.not_mem_nil, or_false] at member
    rcases member with rfl | rfl <;> simp [mem_merged, scenarioTagRefs, Call.groupOf]

end Tags

/-! ### The amounts -/

section Amounts

variable {H F : Type} (hdr : HdrHistogram H F) {metricsCtx : MetricsContext}
  {currentGroup : Option String}

theorem counters {i : Nat} {name : String} (here : runMetrics[i]? = some (name, .counter)) :
    i ∈ [0, 1, 2, 3, 4, 6, 8] := by
  have all : ∀ i < runMetrics.length, (runMetrics[i]?.map Prod.snd) = some .counter →
      i ∈ [0, 1, 2, 3, 4, 6, 8] := by decide
  exact all i (List.getElem?_eq_some_iff.mp here).1 (congrArg (Option.map Prod.snd) here)

/-- What a request adds to a counter. -/
theorem amounts_request {i : Nat} {name : String} (here : runMetrics[i]? = some (name, .counter))
    (sample : RequestSample) (extraTags : List (String × String)) :
    (((Event.request sample extraTags).entries.filter
        fun entry => entry.metric = UInt32.ofNat i).map fun entry => entry.amount.size hdr) =
      (addedBySample (UInt32.ofNat i) sample).map UInt64.toNat := by
  have isCounter := counters here
  simp only [List.mem_cons, List.not_mem_nil, or_false] at isCounter
  simp only [Event.entries, errorEntries]
  rcases isCounter with rfl | rfl | rfl | rfl | rfl | rfl | rfl <;>
    cases ok : sample.ok <;> cases kind : sample.errorKind <;>
    simp [addedBySample, metricIds, Amount.size, ok, kind]

theorem amounts_check (metric : MetricId) (checks : List (Option (String × Option Bool))) :
    ((((Call.check checks).entries metricsCtx currentGroup).filter
        fun entry => entry.metric = metric).map fun entry => entry.amount.size hdr) =
      ((Call.check checks).added metricsCtx metric).map UInt64.toNat := by
  simp only [Call.entries, Call.added]
  by_cases isChecks : metric = metricIds.checks
  · subst isChecks
    rw [if_pos rfl]
    induction checks with
    | nil => rfl
    | cons pair rest ih =>
      cases pair with
      | none => exact ih
      | some pair => simpa [Amount.size] using ih
  -- checks are recorded on the metric of the checks only
  · rw [if_neg isChecks, List.map_nil, List.map_eq_nil_iff, List.filter_eq_nil_iff]
    intro entry member
    obtain ⟨pair, -, isEntry⟩ := List.mem_filterMap.mp member
    obtain ⟨⟨name, result⟩, -, rfl⟩ := Option.map_eq_some_iff.mp isEntry
    simpa using Ne.symm isChecks

theorem tagged_call (call : Call) (distinct : call.DistinctTags) {i : Nat} {name : String}
    (here : runMetrics[i]? = some (name, .counter)) (group : String) :
    tagged hdr (UInt32.ofNat i) ("group", group) (call.entries metricsCtx currentGroup) =
      if call.groupOf currentGroup = some group then
        (call.added metricsCtx (UInt32.ofNat i)).map UInt64.toNat
      else [] := by
  have same : ((call.entries metricsCtx currentGroup).filter fun entry =>
        entry.metric = UInt32.ofNat i ∧ ("group", group) ∈ entry.pairs) =
      if call.groupOf currentGroup = some group then
        (call.entries metricsCtx currentGroup).filter fun entry => entry.metric = UInt32.ofNat i
      else [] := by
    split
    next inside =>
      refine List.filter_congr fun entry member => ?_
      simp [(Call.group_of_entry distinct member).mpr inside]
    next outside =>
      rw [List.filter_eq_nil_iff]
      intro entry member both
      exact outside ((Call.group_of_entry distinct member).mp (of_decide_eq_true both).2)
  rw [tagged, same]
  split
  next inside =>
    -- the loop of the VU is in no group, so what it records does not matter
    cases call with
    | check checks => exact amounts_check hdr (UInt32.ofNat i) checks
    | http method opts latency outcome => exact amounts_request hdr here _ _
    | grpc tags latency sent outcome => exact amounts_request hdr here _ _
    | make kind name => rfl
    | add table value tags => rfl
    | iteration duration success => cases inside
  next => rfl

end Amounts

/-! ### Runs -/

/-- The VUs with their scripts, and with what they are recording. -/
structure Running (ι H : Type) where
  scripts : State ι Call (Option String) Unit
  workers : Workers ι H

section Code

variable {ι H F : Type} [DecidableEq ι] (hdr : HdrHistogram H F) (text : CustomMetrics.ToText)
  (metricsCtx : ι → MetricsContext)

/-- A VU goes on with what it is recording, and then with its script, up to the next call. -/
def stepVu (s : Running ι H) (i : ι) : Option (Running ι H) :=
  if (s.workers.doing i).idle then
    (stepTask (fun _ _ shared => shared) s.scripts i).map fun scripts =>
      { scripts
        workers :=
          match (s.scripts.task i).performs with
          | none => s.workers
          | some call =>
            s.workers.begin i
              (call.work hdr text (metricsCtx i) (s.scripts.task i).register .done) }
  else (s.workers.proceed hdr i).map fun workers => { s with workers }

/-- All VUs of a run, each step of each recording on its own. -/
def interleaved (vus : ι → List Iteration) : Machine (Running ι H) ι where
  init s := s = ⟨⟨fun i => .start (vu (vus i)) none, (), []⟩, .init registered⟩
  step := stepVu hdr text metricsCtx

end Code

/-- An insert of `get_handle` still finds its series absent. -/
def Running.InsertsFresh {ι H : Type} (s : Running ι H) (i : ι) : Prop :=
  (s.workers.doing i).InsertsFresh s.workers.registry

instance {ι H : Type} (s : Running ι H) (i : ι) : Decidable (s.InsertsFresh i) :=
  inferInstanceAs (Decidable (Worker.InsertsFresh _ _))

/-- The VU has come to the end of its script and of its last recording. -/
def Running.Ended {ι H : Type} (s : Running ι H) (i : ι) : Prop :=
  (s.scripts.task i).step.isNone = true ∧ (s.workers.doing i).idle = true

instance {ι H : Type} (s : Running ι H) (i : ι) : Decidable (s.Ended i) :=
  inferInstanceAs (Decidable (_ ∧ _))

section Runs

variable {ι : Type} [DecidableEq ι] {H : Type} {hdr : HdrHistogram H UInt64}
  {ratio : UInt64 → UInt64 → UInt64} {text : CustomMetrics.ToText} {metricsCtx : ι → MetricsContext}
  {n : Interner}

/-- The entries of a log. -/
def entriesOf (metricsCtx : ι → MetricsContext) (log : List (ι × Call × Option String)) :
    List (ι × Entry) :=
  log.flatMap fun entry => (entry.2.1.entries (metricsCtx entry.1) entry.2.2).map (entry.1, ·)

/-- The scripts are in the middle of their lexical reading, and the metrics have what they have
called so far. -/
structure Recorded (hdr : HdrHistogram H UInt64) (metricsCtx : ι → MetricsContext)
    (vus : ι → List Iteration) (s : Running ι H) : Prop where
  lexical : Lexical (fun _ _ shared => shared) (fun i => vu (vus i)) (fun _ => none) () s.scripts
  books : Books hdr s.workers (entriesOf metricsCtx s.scripts.log)

omit [DecidableEq ι] in
theorem entriesOf_append (log later : List (ι × Call × Option String)) :
    entriesOf metricsCtx (log ++ later) = entriesOf metricsCtx log ++ entriesOf metricsCtx later :=
  List.flatMap_append

/-- One step of a VU: either it records, or its script goes on to the next call. -/
theorem Recorded.step {vus : ι → List Iteration} {s s' : Running ι H} {i : ι}
    (lawful : hdr.Lawful) (own : ∀ i, ∀ call ∈ calls (vus i), call.1.OwnMetric)
    (recorded : Recorded hdr metricsCtx vus s) (fresh : s.InsertsFresh i)
    (taken : stepVu hdr text metricsCtx s i = some s') : Recorded hdr metricsCtx vus s' := by
  rw [stepVu] at taken
  split at taken
  next idle =>
    obtain ⟨scripts, next, rfl⟩ := Option.map_eq_some_iff.mp taken
    have lexical := recorded.lexical.step next
    obtain ⟨task, moves, rfl⟩ := Option.map_eq_some_iff.mp next
    refine ⟨lexical, ?_⟩
    dsimp only
    rw [entriesOf_append]
    cases performs : (s.scripts.task i).performs with
    | none => simpa [Task.emits, performs, entriesOf] using recorded.books
    | some call =>
      -- the call is one of the text
      have inText : (call, (s.scripts.task i).register) ∈ calls (vus i) := by
        rw [← trace_vu, ← recorded.lexical.calls i, (Task.follows_of_step moves).ahead]
        simp [Task.emits, performs]
      have writes : Writes (call.work hdr text (metricsCtx i) (s.scripts.task i).register .done)
          (call.entries (metricsCtx i) (s.scripts.task i).register) .done :=
        Call.writes (own i _ inText) text .done
      have begun := recorded.books.begin idle writes
      simpa [Task.emits, performs, entriesOf] using begun
  next busy =>
    obtain ⟨workers, next, rfl⟩ := Option.map_eq_some_iff.mp taken
    exact ⟨recorded.lexical, recorded.books.proceed lawful fresh next⟩

/-- The invariant along a run. -/
theorem recorded_of_reachable {vus : ι → List Iteration} {s : Running ι H} (lawful : hdr.Lawful)
    (own : ∀ i, ∀ call ∈ calls (vus i), call.1.OwnMetric)
    (run : (interleaved hdr text metricsCtx vus).ReachableBy Running.InsertsFresh s) :
    Recorded hdr metricsCtx vus s := by
  refine run.invariant (Recorded hdr metricsCtx vus) ?_ ?_
  · rintro s rfl
    exact ⟨lexical_initial, books_init hdr⟩
  · intro s i s' recorded fresh taken
    exact recorded.step lawful own fresh taken

omit [DecidableEq ι] in
/-- What the log has recorded for a group is what the calls in this group have. -/
theorem tagged_log (log : List (ι × Call × Option String))
    (distinct : ∀ entry ∈ log, entry.2.1.DistinctTags) {i : Nat} {name : String}
    (here : runMetrics[i]? = some (name, .counter)) (group : String) :
    tagged hdr (UInt32.ofNat i) ("group", group) ((entriesOf metricsCtx log).map Prod.snd) =
      log.flatMap fun entry => if entry.2.1.groupOf entry.2.2 = some group then
        (entry.2.1.added (metricsCtx entry.1) (UInt32.ofNat i)).map UInt64.toNat else [] := by
  have entries : (entriesOf metricsCtx log).map Prod.snd =
      log.flatMap fun entry => entry.2.1.entries (metricsCtx entry.1) entry.2.2 := by
    simp [entriesOf, List.map_flatMap, Function.comp_def]
  rw [tagged, entries, List.filter_flatMap, List.map_flatMap]
  refine List.flatMap_congr fun entry member => ?_
  exact tagged_call hdr entry.2.1 (distinct entry member) here group

/-- The sum over the calls in the group is that over all calls, with the others as zero. -/
theorem sum_addedIn (metricsCtx : MetricsContext) (metric : MetricId) (group : String)
    (iterations : List Iteration) :
    ((addedIn metricsCtx metric group iterations).map UInt64.toNat).sum =
      ((calls iterations).map fun call => if call.1.groupOf call.2 = some group then
        ((call.1.added metricsCtx metric).map UInt64.toNat).sum else 0).sum := by
  rw [addedIn]
  induction calls iterations with
  | nil => rfl
  | cons call rest ih => by_cases inside : call.1.groupOf call.2 = some group <;> simp_all

variable [Fintype ι] {log : List (ι × Call × Option String)} {vus : ι → List Iteration}

variable (hdr metricsCtx) in
/-- What the log adds is what the texts of the VUs add. -/
theorem tagged_run (made : ∀ i, callsOf i log = calls (vus i))
    (distinct : ∀ entry ∈ log, entry.2.1.DistinctTags) {i : Nat} {name : String}
    (here : runMetrics[i]? = some (name, .counter)) (group : String) :
    (tagged hdr (UInt32.ofNat i) ("group", group)
        ((entriesOf metricsCtx log).map Prod.snd)).sum =
        ∑ v, ((addedIn (metricsCtx v) (UInt32.ofNat i) group (vus v)).map UInt64.toNat).sum ∧
      (tagged hdr (UInt32.ofNat i) ("group", group) ((entriesOf metricsCtx log).map Prod.snd) = [] ↔
        ∀ v, addedIn (metricsCtx v) (UInt32.ofNat i) group (vus v) = []) := by
  rw [tagged_log log distinct here]
  constructor
  -- the log is regrouped by VU, and the part of a VU is the calls of its text
  · have each (entry : ι × Call × Option String) :
        (if entry.2.1.groupOf entry.2.2 = some group then
          (entry.2.1.added (metricsCtx entry.1) (UInt32.ofNat i)).map UInt64.toNat else []).sum =
        if entry.2.1.groupOf entry.2.2 = some group then
          ((entry.2.1.added (metricsCtx entry.1) (UInt32.ofNat i)).map UInt64.toNat).sum else 0 := by
      split <;> rfl
    rw [List.flatMap, List.sum_flatten, List.map_map]
    refine (congrArg List.sum (List.map_congr_left fun entry _ => each entry)).trans ?_
    refine (sum_log (fun v call => if call.1.groupOf call.2 = some group then
      ((call.1.added (metricsCtx v) (UInt32.ofNat i)).map UInt64.toNat).sum else 0) log).trans ?_
    refine Finset.sum_congr rfl fun v _ => ?_
    rw [made, sum_addedIn]
  -- nothing is recorded for the group exactly if no text has a call in it that adds
  · rw [List.flatMap_eq_nil_iff]
    simp only [addedIn, List.flatMap_eq_nil_iff, List.mem_filter, decide_eq_true_eq, and_imp]
    constructor
    · intro none v call member inside
      rw [← made] at member
      obtain ⟨entry, inLog, rfl⟩ := List.mem_map.mp member
      obtain ⟨inLog, isV⟩ := List.mem_filter.mp inLog
      have nothing := none entry inLog
      rw [if_pos inside, of_decide_eq_true isV] at nothing
      exact List.map_eq_nil_iff.mp nothing
    · intro none entry member
      split
      next inside =>
        refine List.map_eq_nil_iff.mpr (none entry.1 entry.2 ?_ inside)
        rw [← made]
        exact List.mem_map.mpr ⟨entry, List.mem_filter.mpr ⟨member, by simp⟩, rfl⟩
      next => rfl

/-- After a run, in which all VUs have ended, a threshold on the count of a counter for one group
observes what the calls in the text of this group add to it, over all VUs, and nothing if none of
them adds to it. The steps of their recordings come in any order in which no insert of `get_handle`
replaces a series; what is lost otherwise is in `SeriesRace.update_lost`. -/
theorem threshold_of_group (lawful : hdr.Lawful)
    (distinct : ∀ i, ∀ call ∈ calls (vus i), call.1.DistinctTags)
    (own : ∀ i, ∀ call ∈ calls (vus i), call.1.OwnMetric) {s : Running ι H}
    (run : (interleaved hdr text metricsCtx vus).ReachableBy Running.InsertsFresh s)
    (ended : ∀ i, s.Ended i) {metric : Nat} {name : String}
    (here : runMetrics[metric]? = some (name, .counter)) (group : String)
    (few : (observed hdr ratio s.workers.registry name [("group", group)]
      .count).1.interner.vec.length ≤ 2 ^ 32)
    (fits : ∑ i, ((addedIn (metricsCtx i) (UInt32.ofNat metric) group (vus i)).map
      UInt64.toNat).sum < 2 ^ 64) :
    (observed hdr ratio s.workers.registry name [("group", group)] .count).2 =
      if ∀ i, addedIn (metricsCtx i) (UInt32.ofNat metric) group (vus i) = [] then none
      else some (Ieee.ofU64 (UInt64.ofNat
        (∑ i, ((addedIn (metricsCtx i) (UInt32.ofNat metric) group (vus i)).map
          UInt64.toNat).sum))) := by
  have recorded := recorded_of_reachable lawful own run
  have made (i : ι) : callsOf i s.scripts.log = calls (vus i) := by
    -- a script that cannot go on has made all calls of its text
    have stuck := Option.isNone_iff_eq_none.mp (ended i).1
    rw [(recorded.lexical.ended stuck).1, trace_vu]
  have distinct' : ∀ entry ∈ s.scripts.log, entry.2.1.DistinctTags := by
    intro entry member
    refine distinct entry.1 entry.2 ?_
    rw [← made]
    exact List.mem_map.mpr ⟨entry, List.mem_filter.mpr ⟨member, by simp⟩, rfl⟩
  -- everything is seen from the interner after the evaluation
  have asked := observed_extends hdr ratio recorded.books.sound.interner name [("group", group)]
    .count
  have ledger := recorded.books.ledger (fun i => (ended i).2) asked.1
  obtain ⟨sum, empty⟩ := tagged_run hdr metricsCtx made distinct' here group
  rw [ledger.observed_count here ("group", group) rfl ⟨asked.2, few⟩ ?_ (sum ▸ fits), sum]
  · simp only [empty]
  · intro entry member _ v v' isGroup isGroup'
    obtain ⟨⟨i, entry⟩, inEntries, rfl⟩ := List.mem_map.mp member
    obtain ⟨call, inLog, inside⟩ := List.mem_flatMap.mp inEntries
    obtain ⟨entry, inside, same⟩ := List.mem_map.mp inside
    cases same
    rw [Call.group_of_entry (distinct' call inLog) inside] at isGroup isGroup'
    exact Option.some.inj (isGroup'.symm.trans isGroup)

end Runs

/-- Two VUs with the same script. -/
def shoppers (_ : Fin 2) : List Iteration := [⟨checkout, 5⟩]

/-- The second VU is ten steps behind the first. The check in the outer group is the one that the
threshold on this group counts, for both. -/
theorem threshold_of_group_checkout :
    ∃ s, (interleaved exactBits plainText (fun _ => ⟨"main", []⟩) shoppers).ReachableBy
        Running.InsertsFresh s ∧
      (observed exactBits ratioBits s.workers.registry "checks" [("group", "shop")] .count).2 =
        some (Ieee.ofU64 2) := by
  obtain ⟨s, run, ended, few⟩ := Machine.exists_reachableBy_of_exec
    (interleaved exactBits plainText (fun _ => ⟨"main", []⟩) shoppers) Running.InsertsFresh
    (fun s => (∀ i, s.Ended i) ∧ (observed exactBits ratioBits s.workers.registry "checks"
      [("group", "shop")] .count).1.interner.vec.length ≤ 2 ^ 32)
    (List.replicate 10 0 ++ (List.replicate 53 [0, 1]).flatten) rfl (by decide +kernel)
  have checks : runMetrics[8]? = some ("checks", .counter) := rfl
  have value := threshold_of_group lawful_exactBits (by decide) (by decide) run ended checks "shop"
    few (by decide)
  exact ⟨s, run, value.trans (by decide)⟩

end Wrkr.Lua.Group
