import Wrkr.Core.Accounting
import Wrkr.Metrics.Workers

/-!
# Recordings, step by step

`record_request` and `record_iteration` as the work of a VU: the tags are resolved string by
string, and each counter or histogram is looked up and updated on its own. In one go the work is
what the functions do (`run_requestWork`, `run_iterationWork`). `Writes` says what a piece of work
records, in terms of strings.
-/
namespace Wrkr.Core.Accounting

open Wrkr.Lib Wrkr.Metrics

variable {H F : Type}

/-! ### The works -/

/-- `if let Some(handle) = metrics.get_handle(..) { handle.increment(n) }`. -/
def addWork (metric : MetricId) (tags : TagSet) (n : UInt64) (next : Work H) : Work H :=
  .access ⟨metric, tags, .amount (.add n)⟩ next

/-- The same with `observe_histogram`. -/
def observeWork (metric : MetricId) (tags : TagSet) (v : UInt64) (next : Work H) : Work H :=
  .access ⟨metric, tags, .amount (.observe v)⟩ next

/-- The `resolve` closure. -/
def resolveWork (reserved : List String) (extraTags base : List (String × String))
    (next : TagSet → Work H) : Work H :=
  if extraTags.isEmpty then .resolveTags base next
  else .resolveTags (base ++ extraTags.filter fun tag => tag.1 ∉ reserved) next

/-- The counters of a failed request. -/
def errorsWork (ids : RequestMetricIds) (sample : RequestSample)
    (extraTags : List (String × String)) (tagsProtocol : TagSet) (next : Work H) : Work H :=
  if sample.ok then next
  else
    addWork ids.errorsTotal tagsProtocol 1 <|
    match sample.errorKind with
    | none => next
    | some kind =>
      resolveWork RequestMetricIds.reserved extraTags
        [("scenario", sample.scenario), ("protocol", sample.protocol.asStr), ("error_kind", kind)]
        fun tags => addWork ids.errorsByKindTotal tags 1 next

/-- The latency goes to the overall and to the protocol-scoped series. -/
def latencyWork (ids : RequestMetricIds) (sample : RequestSample)
    (extraTags : List (String × String)) (tagsProtocol : TagSet) (next : Work H) : Work H :=
  resolveWork RequestMetricIds.reserved extraTags [("scenario", sample.scenario)] fun overallTags =>
  observeWork ids.latency overallTags (recordedMicros sample.latency) <|
  observeWork ids.latency tagsProtocol (recordedMicros sample.latency) next

/-- `record_request`. -/
def requestWork (ids : RequestMetricIds) (sample : RequestSample)
    (extraTags : List (String × String)) (next : Work H) : Work H :=
  resolveWork RequestMetricIds.reserved extraTags
    [("scenario", sample.scenario), ("protocol", sample.protocol.asStr)] fun tagsProtocol =>
  addWork ids.requestsTotal tagsProtocol 1 <|
  addWork ids.bytesReceivedTotal tagsProtocol sample.bytesReceived <|
  addWork ids.bytesSentTotal tagsProtocol sample.bytesSent <|
  errorsWork ids sample extraTags tagsProtocol <|
  latencyWork ids sample extraTags tagsProtocol next

/-- `record_iteration`. -/
def iterationWork (ids : IterationMetricIds) (sample : IterationSample)
    (extraTags : List (String × String)) (next : Work H) : Work H :=
  let status := if sample.success then "success" else "failure"
  resolveWork IterationMetricIds.reserved extraTags
    [("scenario", sample.scenario), ("status", status)] fun tags =>
  addWork ids.iterationsTotal tags 1 <|
  observeWork ids.iterationDuration tags (recordedMicros sample.duration) next

/-! ### In one go -/

section Run

variable (hdr : HdrHistogram H F) (r : Registry H) (next : Work H)

/-- The steps of `resolve_tags_with` are those of interning the merged tags. -/
theorem resolveWork_eq (reserved : List String) (extraTags base : List (String × String))
    (next : TagSet → Work H) :
    resolveWork reserved extraTags base next =
      .resolveTags (merged reserved extraTags base) next := by
  rw [resolveWork]
  split
  next none =>
    rw [List.isEmpty_iff.mp none]
    simp [merged]
  next => rfl

theorem run_resolveWork (reserved : List String) (extraTags base : List (String × String))
    (next : TagSet → Work H) :
    (resolveWork reserved extraTags base next).run hdr r =
      (next (resolveWith r reserved extraTags base).2).run hdr
        (resolveWith r reserved extraTags base).1 := by
  rw [resolveWork_eq, resolveWith_eq, Work.run_resolveTags]

/-- Run without a break, the steps for the errors do what `record_errors` does. -/
theorem run_errorsWork (ids : RequestMetricIds) (sample : RequestSample)
    (extraTags : List (String × String)) (tagsProtocol : TagSet) :
    (errorsWork ids sample extraTags tagsProtocol next).run hdr r =
      next.run hdr (ids.recordErrors hdr r sample extraTags tagsProtocol) := by
  rw [errorsWork, RequestMetricIds.recordErrors]
  split
  · rfl
  · cases sample.errorKind with
    | none => rfl
    | some kind =>
      rw [addWork, Work.run, run_resolveWork]
      rfl

theorem run_requestWork (ids : RequestMetricIds) (sample : RequestSample)
    (extraTags : List (String × String)) :
    (requestWork ids sample extraTags next).run hdr r =
      next.run hdr (ids.recordRequest hdr r sample extraTags) := by
  rw [requestWork, run_resolveWork, addWork, addWork, addWork]
  simp only [Work.run]
  rw [run_errorsWork, latencyWork, run_resolveWork]
  rfl

theorem run_iterationWork (ids : IterationMetricIds) (sample : IterationSample)
    (extraTags : List (String × String)) :
    (iterationWork ids sample extraTags next).run hdr r =
      next.run hdr (ids.recordIteration hdr r sample extraTags) := by
  rw [iterationWork, run_resolveWork]
  rfl

end Run

/-! ### What a work writes -/

/-- A metric of the run, by number and kind. -/
def OnRun (metric : MetricId) (kind : MetricKind) : Prop :=
  ∃ i name, runMetrics[i]? = some (name, kind) ∧ metric = UInt32.ofNat i

/-- Amounts go to metrics of the run, of their kind, and the operations of custom metrics to
others. -/
def Proper : Work H → Prop
  | .done => True
  | .intern _ next => ∀ id, Proper (next id)
  | .register _ _ next => Proper next
  | .access ⟨metric, _, .amount amount⟩ next => OnRun metric amount.kind ∧ Proper next
  | .access ⟨metric, _, .custom _⟩ next => runMetrics.length ≤ metric.toNat ∧ Proper next

theorem proper_internPairs (tags : List (String × String)) {next : List (KeyId × KeyId) → Work H}
    (proper : ∀ resolved, Proper (next resolved)) : Proper (Work.internPairs tags next) := by
  induction tags generalizing next with
  | nil => exact proper []
  | cons tag rest ih => exact fun key value => ih fun resolved => proper ((key, value) :: resolved)

theorem proper_resolveWork (reserved : List String) (extraTags base : List (String × String))
    {next : TagSet → Work H} (proper : ∀ tags, Proper (next tags)) :
    Proper (resolveWork reserved extraTags base next) := by
  rw [resolveWork_eq]
  exact proper_internPairs _ fun resolved => proper _

/-- The work begins with these entries, and `next` is what follows. -/
structure Writes (work : Work H) (entries : List Entry) (next : Work H) : Prop where
  recordings : ∀ n : Interner, work.recordings n.idOf =
    entries.map (fun entry => entry.at n) ++ next.recordings n.idOf
  interns : ∀ n : Interner, ∀ entry ∈ entries,
    Interner.stringsOf entry.pairs ⊆ work.interns n.idOf
  later : ∀ n : Interner, next.interns n.idOf ⊆ work.interns n.idOf
  proper : Proper next → Proper work

theorem Writes.nil (work : Work H) : Writes work [] work :=
  ⟨fun _ => rfl, by simp, fun _ => List.Subset.refl _, id⟩

/-- One part after the other. -/
theorem Writes.trans {work next last : Work H} {entries more : List Entry}
    (first : Writes work entries next) (second : Writes next more last) :
    Writes work (entries ++ more) last := by
  refine ⟨fun n => ?_, fun n entry member => ?_,
    fun n => List.Subset.trans (second.later n) (first.later n),
    fun proper => first.proper (second.proper proper)⟩
  · rw [first.recordings, second.recordings, List.map_append, List.append_assoc]
  · rcases List.mem_append.mp member with inFirst | inSecond
    · exact first.interns n entry inFirst
    · exact List.Subset.trans (second.interns n entry inSecond) (first.later n)

/-! ### Requests and iterations -/

section Entries

variable (n : Interner) (sample : RequestSample) (extraTags : List (String × String))

/-- What is recorded of a failed request are its entries. -/
theorem recordings_errorsWork (next : Work H) :
    (errorsWork metricIds.request sample extraTags
        (n.tagSet (merged RequestMetricIds.reserved extraTags
          [("scenario", sample.scenario), ("protocol", sample.protocol.asStr)])) next).recordings
        n.idOf =
      (errorEntries sample extraTags).map (fun entry => entry.at n) ++ next.recordings n.idOf := by
  rw [errorsWork, errorEntries]
  split
  · rfl
  · cases sample.errorKind with
    | none => rfl
    | some kind =>
      simp only [addWork, Work.recordings, resolveWork_eq, Work.recordings_resolveTags]
      rfl

theorem recordings_requestWork (next : Work H) :
    (requestWork metricIds.request sample extraTags next).recordings n.idOf =
      (Event.request sample extraTags).entries.map (fun entry => entry.at n) ++
        next.recordings n.idOf := by
  simp only [requestWork, latencyWork, resolveWork_eq, Work.recordings_resolveTags, addWork,
    observeWork, Work.recordings, recordings_errorsWork, Event.entries, List.map_append,
    List.append_assoc]
  rfl

/-- Besides the tags with the protocol, the error counters need those with the kind. -/
theorem interns_errorsWork (tagsProtocol : TagSet) (next : Work H) :
    next.interns n.idOf ⊆
        (errorsWork metricIds.request sample extraTags tagsProtocol next).interns n.idOf ∧
      ∀ entry ∈ errorEntries sample extraTags, Interner.stringsOf entry.pairs ⊆
        Interner.stringsOf (merged RequestMetricIds.reserved extraTags
          [("scenario", sample.scenario), ("protocol", sample.protocol.asStr)]) ++
        (errorsWork metricIds.request sample extraTags tagsProtocol next).interns n.idOf := by
  rw [errorsWork, errorEntries]
  split
  next ok => exact ⟨List.Subset.refl _, by simp⟩
  next =>
    cases sample.errorKind with
    | none => exact ⟨List.Subset.refl _, by simp [addWork, Work.interns]⟩
    -- the strings of the second entry are interned between the two updates
    | some kind =>
      simp only [addWork, Work.interns, resolveWork_eq, Work.interns_resolveTags,
        List.forall_mem_cons]
      refine ⟨List.subset_append_right _ _, List.subset_append_left _ _, ?_, by simp⟩
      exact List.subset_append_of_subset_right _ (List.subset_append_left _ _)

/-- What is recorded for an error is recorded on metrics of the run, with amounts of their kinds. -/
theorem proper_errorsWork (tagsProtocol : TagSet) {next : Work H} (proper : Proper next) :
    Proper (errorsWork metricIds.request sample extraTags tagsProtocol next) := by
  rw [errorsWork]
  split
  · exact proper
  · cases sample.errorKind with
    | none => exact ⟨⟨3, _, rfl, rfl⟩, proper⟩
    | some kind =>
      refine ⟨⟨3, _, rfl, rfl⟩, proper_resolveWork _ _ _ fun tags => ⟨⟨4, _, rfl, rfl⟩, proper⟩⟩

/-- A request interns the strings of all of its entries. -/
theorem interns_requestWork (next : Work H) :
    next.interns n.idOf ⊆ (requestWork metricIds.request sample extraTags next).interns n.idOf ∧
      ∀ entry ∈ (Event.request sample extraTags).entries, Interner.stringsOf entry.pairs ⊆
        (requestWork metricIds.request sample extraTags next).interns n.idOf := by
  rw [requestWork, resolveWork_eq, Work.interns_resolveTags]
  simp only [addWork, Work.interns]
  generalize n.tagSet (merged RequestMetricIds.reserved extraTags _) = tagsProtocol
  have latency : (latencyWork metricIds.request sample extraTags tagsProtocol next).interns n.idOf =
      Interner.stringsOf (merged RequestMetricIds.reserved extraTags
        [("scenario", sample.scenario)]) ++ next.interns n.idOf := by
    rw [latencyWork, resolveWork_eq, Work.interns_resolveTags]
    rfl
  obtain ⟨later, errors⟩ := interns_errorsWork n sample extraTags tagsProtocol
    (latencyWork metricIds.request sample extraTags tagsProtocol next)
  rw [latency, List.append_subset] at later
  refine ⟨List.subset_append_of_subset_right _ later.2, fun entry member => ?_⟩
  simp only [Event.entries, List.mem_append, List.mem_cons, List.not_mem_nil, or_false] at member
  -- all but the errors and the overall latency use the tags with the protocol
  rcases member with ((rfl | rfl | rfl) | inErrors) | rfl | rfl
  · exact List.subset_append_left _ _
  · exact List.subset_append_left _ _
  · exact List.subset_append_left _ _
  · exact errors entry inErrors
  · exact List.subset_append_of_subset_right _ later.1
  · exact List.subset_append_left _ _

/-- A request writes its entries. -/
theorem writes_requestWork (next : Work H) :
    Writes (requestWork metricIds.request sample extraTags next)
      (Event.request sample extraTags).entries next := by
  refine ⟨fun n => recordings_requestWork n sample extraTags next,
    fun n => (interns_requestWork n sample extraTags next).2,
    fun n => (interns_requestWork n sample extraTags next).1, fun proper => ?_⟩
  refine proper_resolveWork _ _ _ fun tags => ⟨⟨0, _, rfl, rfl⟩, ⟨1, _, rfl, rfl⟩,
    ⟨2, _, rfl, rfl⟩, proper_errorsWork _ _ _ (proper_resolveWork _ _ _ fun overall => ?_)⟩
  exact ⟨⟨5, _, rfl, rfl⟩, ⟨5, _, rfl, rfl⟩, proper⟩

end Entries

/-- An iteration writes its entries. -/
theorem writes_iterationWork (sample : IterationSample) (extraTags : List (String × String))
    (next : Work H) :
    Writes (iterationWork metricIds.iteration sample extraTags next)
      (Event.iteration sample extraTags).entries next := by
  refine ⟨fun n => ?_, fun n entry member => ?_, fun n => ?_, fun proper => ?_⟩
  · rw [iterationWork, resolveWork_eq, Work.recordings_resolveTags]
    rfl
  · rw [iterationWork, resolveWork_eq, Work.interns_resolveTags]
    simp only [Event.entries, List.mem_cons, List.not_mem_nil, or_false] at member
    rcases member with rfl | rfl <;> exact List.subset_append_left _ _
  · rw [iterationWork, resolveWork_eq, Work.interns_resolveTags]
    exact List.subset_append_right _ _
  · exact proper_resolveWork _ _ _ fun tags => ⟨⟨6, _, rfl, rfl⟩, ⟨7, _, rfl, rfl⟩, proper⟩

end Wrkr.Core.Accounting
