import Wrkr.Core.MetricsContext
import Wrkr.Core.ScenarioSummary
import Wrkr.Metrics.Summary

/-!
# Checks

`check(value, { name = predicate, ... })` records every predicate of the table on the counter
`checks`, under its name, its outcome, the scenario, the scenario's tags and the current group. A
run does this in between any other use of the registry; what the series of the counter then hold
is the number of checks recorded under the same tags (`counted_run`).
-/
namespace Wrkr.Lua

open Wrkr.Lib Wrkr.Metrics Wrkr.Core Wrkr.Core.Accounting

variable {H F : Type} (hdr : HdrHistogram H F)

/-- What a call of `check` records with: the metric, the current group and the VU. -/
structure CheckRecorder where
  metricChecks : MetricId
  group : Option String
  metricsCtx : MetricsContext

namespace CheckRecorder

/-- The current group comes last. -/
def addGroup (recorder : CheckRecorder) (tags : List (String × String)) : List (String × String) :=
  match recorder.group with
  | some group => if tags.any (·.1 == "group") then tags else tags ++ [("group", group)]
  | none => tags

/-- The tags of `record`, as strings. -/
def tags (recorder : CheckRecorder) (name : String) (passed : Bool) : List (String × String) :=
  let status := if passed then "pass" else "fail"
  let tags := [("name", name), ("status", status)]
  recorder.addGroup (recorder.metricsCtx.mergeBaseTagsIfMissing ["group"] tags)

/-- One look-up, insert and update; here in one step. -/
def record (recorder : CheckRecorder) (r : Registry H) (name : String) (passed : Bool) : Registry H :=
  let (r, tags) := r.resolveTags (recorder.tags name passed)
  r.touch hdr recorder.metricChecks tags (Cell.fetchAdd 1)

end CheckRecorder

/-- The entries of the table in the order of `pairs`: `none` when the key is no string or the value
no function, else the name and what the predicate returns, unless it raises an error. -/
def runChecks (recorder : CheckRecorder) (r : Registry H)
    (checks : List (Option (String × Option Bool))) : Registry H × Bool :=
  checks.foldl (fun (r, allPassed) pair =>
    match pair with
    | none => (r, allPassed)
    | some (name, result) =>
      -- a predicate that raises an error counts as failed
      let passed := result.getD false
      (recorder.record hdr r name passed, allPassed && passed)) (r, true)

/-! ### Runs -/

/-- One recorded check. -/
structure Check where
  metricsCtx : MetricsContext
  group : Option String
  name : String
  passed : Bool
  deriving DecidableEq, Repr

namespace Check

def scenario (check : Check) : String := check.metricsCtx.scenario

def status (check : Check) : String := if check.passed then "pass" else "fail"

/-- The tags that the check is recorded with. -/
def pairs (check : Check) : List (String × String) :=
  CheckRecorder.tags ⟨metricIds.checks, check.group, check.metricsCtx⟩ check.name check.passed

end Check

/-- What a run does with its registry. Requests, iterations, custom metrics and the gauges of the
VUs register metrics, intern strings and record on metrics other than the checks. -/
inductive Step (H : Type)
  | check (metricsCtx : MetricsContext) (group : Option String)
      (checks : List (Option (String × Option Bool)))
  | register (name : String) (kind : MetricKind)
  | intern (key : String)
  | touch (metric : { metric : MetricId // metric ≠ metricIds.checks }) (tags : TagSet)
      (op : Cell H → Cell H)

namespace Step

/-- One step of the run on the registry. -/
def apply (r : Registry H) : Step H → Registry H
  | check metricsCtx group checks => (runChecks hdr ⟨metricIds.checks, group, metricsCtx⟩ r checks).1
  | register name kind => (r.register name kind).1
  | intern key => (r.resolveKey key).1
  | touch metric tags op => r.touch hdr metric.val tags op

/-- The checks of a step. -/
def recorded : Step H → List Check
  | check metricsCtx group checks => checks.filterMap fun pair => pair.map fun (name, result) =>
    ⟨metricsCtx, group, name, result.getD false⟩
  | register _ _ | intern _ | touch _ _ _ => []

end Step

/-- The registry of a run, from the registrations of `RunScenariosContext::new` on. The steps of all
VUs come in one order, so `get_handle` is atomic with the update of its cell; what two first-time
callers of it can lose otherwise is in `SeriesRace.update_lost`. -/
def run (steps : List (Step H)) : Registry H := steps.foldl (Step.apply hdr) registered

/-- All checks that the steps record. -/
def recordedChecks (steps : List (Step H)) : List Check := steps.flatMap Step.recorded

/-! ### The tags of a check -/

section Merging

variable {tags : List (String × String)}

theorem nodup_snoc {tag : String × String} (distinct : (tags.map Prod.fst).Nodup)
    (new : ¬tags.any (·.1 == tag.1)) : ((tags ++ [tag]).map Prod.fst).Nodup := by
  rw [List.map_append, List.nodup_append]
  refine ⟨distinct, List.nodup_singleton _, ?_⟩
  rintro key member _ last rfl
  obtain ⟨old, inTags, isKey⟩ := List.mem_map.mp member
  apply new
  rw [List.any_eq_true]
  exact ⟨old, inTags, by simpa [isKey] using List.mem_singleton.mp last⟩

/-- Merging brings in no key twice. -/
theorem nodup_mergeTag (reservedKeys : List String) (distinct : (tags.map Prod.fst).Nodup)
    (tag : String × String) :
    ((MetricsContext.mergeTag reservedKeys tags tag).map Prod.fst).Nodup := by
  rw [MetricsContext.mergeTag]
  split
  · exact distinct
  · split
    · exact distinct
    next new => exact nodup_snoc distinct new

/-- Merging keeps the tags there are and adds no key twice. -/
theorem merge_spec (reservedKeys : List String) (ctx : MetricsContext)
    (distinct : (tags.map Prod.fst).Nodup) :
    tags ⊆ ctx.mergeScenarioTagsIfMissing reservedKeys tags ∧
      ((ctx.mergeScenarioTagsIfMissing reservedKeys tags).map Prod.fst).Nodup := by
  rw [MetricsContext.mergeScenarioTagsIfMissing]
  generalize ctx.scenarioTags = extra
  -- by induction on the tags of the scenario, with the merged tags generalised
  induction extra generalizing tags with
  | nil => exact ⟨List.Subset.refl _, distinct⟩
  | cons tag rest ih =>
    obtain ⟨kept, nodup⟩ := ih (nodup_mergeTag reservedKeys distinct tag)
    refine ⟨fun old member => kept ?_, nodup⟩
    rw [MetricsContext.mergeTag]
    split
    · exact member
    · split
      · exact member
      · exact List.mem_append_left _ member

/-- The group comes last, and only if there is none. -/
theorem addGroup_spec (recorder : CheckRecorder) (distinct : (tags.map Prod.fst).Nodup) :
    tags ⊆ recorder.addGroup tags ∧ ((recorder.addGroup tags).map Prod.fst).Nodup := by
  rw [CheckRecorder.addGroup]
  split
  · split
    · exact ⟨List.Subset.refl _, distinct⟩
    next new => exact ⟨List.subset_append_left _ _, nodup_snoc distinct new⟩
  · exact ⟨List.Subset.refl _, distinct⟩

end Merging

/-- The tags have different keys, and the name, the outcome and the scenario are as recorded,
whatever the tags of the scenario are. -/
theorem Check.pairs_spec (check : Check) :
    (check.pairs.map Prod.fst).Nodup ∧ ("name", check.name) ∈ check.pairs ∧
      ("status", check.status) ∈ check.pairs ∧ ("scenario", check.scenario) ∈ check.pairs := by
  have base : (([("name", check.name), ("status", check.status), ("scenario", check.scenario)] :
      List (String × String)).map Prod.fst).Nodup := by simp
  -- the name, the outcome and the scenario come first and are never replaced
  obtain ⟨kept, distinct⟩ := merge_spec ["group"] check.metricsCtx base
  obtain ⟨within, nodup⟩ := addGroup_spec ⟨metricIds.checks, check.group, check.metricsCtx⟩ distinct
  exact ⟨nodup, within (kept (by simp)), within (kept (by simp)), within (kept (by simp))⟩

/-! ### What the counter holds -/

/-- The checks whose tags satisfy a predicate, as a later interner sees them. -/
def matchingChecks (n : Interner) (predicate : TagSet → Bool) (checks : List Check) : Nat :=
  checks.countP fun check => predicate (n.tagSet check.pairs)

/-- The series of the counter hold the checks recorded so far. -/
structure Counted (n : Interner) (r : Registry H) (checks : List Check) : Prop where
  orderly : r.Orderly
  tracks : r.Tracks metricIds.checks .counter
  defines : ∃ id, r.Defines metricIds.checks "checks" ⟨id, .counter⟩
  known : ∀ check ∈ checks, ∀ tag ∈ check.pairs, n.Knows tag.1 ∧ n.Knows tag.2
  series : ∀ tags ∈ (r.visitSeries metricIds.checks).map Prod.fst,
    ∃ check ∈ checks, n.tagSet check.pairs = tags
  totals : ∀ predicate, matchingChecks n predicate checks < 2 ^ 64 →
    total predicate (weight hdr .counter) (r.visitSeries metricIds.checks) =
      matchingChecks n predicate checks

variable {hdr} {n : Interner} {r : Registry H} {checks : List Check}

theorem defines_withInterner {metric : MetricId} {name : String} {metricDef : MetricDef}
    (defines : r.Defines metric name metricDef) {interner : Interner}
    (ext : Interner.Extends r.interner interner) :
    (r.withInterner interner).Defines metric name metricDef :=
  ⟨defines.stored, defines.defined, ext _ _ defines.named⟩

/-- Interning changes no series. -/
theorem Counted.withInterner (counted : Counted hdr n r checks) {interner : Interner}
    (ext : Interner.Extends r.interner interner) :
    Counted hdr n (r.withInterner interner) checks := by
  obtain ⟨id, defines⟩ := counted.defines
  exact ⟨counted.orderly.withInterner ext,
    ⟨⟨counted.tracks.registered.stored, counted.tracks.registered.defined⟩, counted.tracks.typed⟩,
    ⟨id, defines_withInterner defines ext⟩, counted.known, counted.series, counted.totals⟩

/-- Another metric does not touch the checks. -/
theorem Counted.register (counted : Counted hdr n r checks) (name : String) (kind : MetricKind) :
    Counted hdr n (r.register name kind).1 checks := by
  obtain ⟨tracks, visited⟩ := counted.tracks.register counted.orderly name kind
  obtain ⟨id, defines⟩ := counted.defines
  -- a registration defines another name or finds a known one
  refine ⟨counted.orderly.register name kind, tracks, ⟨id, tracks.registered.stored, ?_, ?_⟩,
    counted.known, visited ▸ counted.series, visited ▸ counted.totals⟩
  · rcases r.register_cases name kind with same | ⟨-, same⟩
    · rw [same]
      exact defines.defined
    · have low := (List.getElem?_eq_some_iff.mp defines.defined).1
      rw [same, Registry.define, List.getElem?_append_left low]
      exact defines.defined
  · rw [Registry.register_interner]
    exact Interner.getOrIntern_extends _ _ _ _ defines.named

/-- Nor does a recording on another metric. -/
theorem Counted.touch (counted : Counted hdr n r checks) {metric : MetricId}
    (other : metric ≠ metricIds.checks) (tags : TagSet) (op : Cell H → Cell H) :
    Counted hdr n (r.touch hdr metric tags op) checks := by
  have visited := counted.orderly.visitSeries_touch_of_ne hdr (Ne.symm other) tags op
  obtain ⟨id, defines⟩ := counted.defines
  have orderly := counted.orderly.touch hdr metric tags op
  -- recording on another metric leaves the counter registered
  have kept : (r.touch hdr metric tags op).Registered metricIds.checks .counter := by
    cases stored : r.storage.get? metric with
    | none =>
      rw [Registry.touch_of_absent hdr stored]
      exact counted.tracks.registered
    | some series =>
      obtain ⟨kind, registered⟩ := counted.orderly.registered
        (by simp [stored] : (r.storage.get? metric).isSome)
      exact registered.touch hdr counted.tracks.registered tags op
  refine ⟨orderly, ⟨kept, visited ▸ counted.tracks.typed⟩, ⟨id, kept.stored, ?_, ?_⟩, counted.known,
    visited ▸ counted.series, visited ▸ counted.totals⟩
  · rw [Registry.touch_defs]
    exact defines.defined
  · rw [Registry.touch_interner]
    exact defines.named

/-- One check adds one to the series of its tags. -/
theorem Counted.add (lawful : hdr.Lawful) (counted : Counted hdr n r checks) (check : Check)
    (knows : ∀ tag ∈ check.pairs, n.Knows tag.1 ∧ n.Knows tag.2) :
    Counted hdr n (r.touch hdr metricIds.checks (n.tagSet check.pairs) (Cell.fetchAdd 1))
      (checks ++ [check]) := by
  let rec' : Recording := ⟨metricIds.checks, n.tagSet check.pairs, .add 1⟩
  have on : r.Tracks rec'.metric rec'.amount.kind := counted.tracks
  obtain ⟨id, defines⟩ := counted.defines
  have tracks : (r.touch hdr rec'.metric rec'.tags (rec'.amount.apply hdr)).Tracks
      metricIds.checks .counter :=
    counted.tracks.touch counted.orderly.wf on.registered
  refine ⟨counted.orderly.touch hdr _ _ _, tracks, ⟨id, tracks.registered.stored, ?_, ?_⟩, ?_, ?_, ?_⟩
  · rw [Registry.touch_defs]
    exact defines.defined
  · rw [Registry.touch_interner]
    exact defines.named
  · intro old member
    rcases List.mem_append.mp member with inOld | last
    · exact counted.known old inOld
    · rw [List.mem_singleton.mp last]
      exact knows
  · intro tags member
    have hosts : r.Hosts [rec'] := by
      intro rec member
      rw [List.mem_singleton.mp member]
      exact on
    -- the series of the check is there afterwards, any other was there before
    rcases (Registry.keys_applyAll counted.orderly.wf hosts metricIds.checks tags).mp member with
      old | ⟨rec, isRec, -, isTags⟩
    · obtain ⟨before, inOld, same⟩ := counted.series tags old
      exact ⟨before, List.mem_append_left _ inOld, same⟩
    · rw [List.mem_singleton.mp isRec] at isTags
      exact ⟨check, List.mem_append_right _ (List.mem_singleton_self _), isTags⟩
  · intro predicate fits
    have size : Registry.recorded hdr metricIds.checks predicate [rec'] =
        matchingChecks n predicate [check] := by
      simp [Registry.recorded, matchingChecks, rec', Amount.size, List.countP_singleton]
    have both : matchingChecks n predicate (checks ++ [check]) =
        matchingChecks n predicate checks + matchingChecks n predicate [check] := List.countP_append
    rw [both] at fits ⊢
    have before := counted.totals predicate (by omega)
    -- below 2^64 the counter does not wrap
    have added := Registry.total_touch lawful counted.orderly.wf on counted.tracks predicate
      (by rw [before, size]; exact fits)
    rw [before, size] at added
    exact added

/-! ### Whole runs -/

theorem evolves_record (recorder : CheckRecorder) (r : Registry H) (name : String) (passed : Bool) :
    Registry.Evolves hdr r (recorder.record hdr r name passed) :=
  (Registry.Evolves.of_operation (.resolveTags r _)).trans (.touch _ _ _ _)

theorem record_interner (recorder : CheckRecorder) (r : Registry H) (name : String) (passed : Bool) :
    (recorder.record hdr r name passed).interner =
      (r.interner.internPairs (recorder.tags name passed)).1 :=
  Registry.touch_interner ..

theorem runChecks_nil (recorder : CheckRecorder) (r : Registry H) :
    runChecks hdr recorder r [] = (r, true) := rfl

/-- The first check of a table and then the others; one without a result counts as failed. -/
theorem runChecks_cons (recorder : CheckRecorder) (r : Registry H) (name : String)
    (result : Option Bool) (rest : List (Option (String × Option Bool))) :
    (runChecks hdr recorder r (some (name, result) :: rest)).1 =
      (runChecks hdr recorder (recorder.record hdr r name (result.getD false)) rest).1 := by
  have registry (allPassed allPassed' : Bool) (r : Registry H) :
      (rest.foldl (fun (r, allPassed) pair =>
        match pair with
        | none => (r, allPassed)
        | some (name, result) =>
          let passed := Option.getD result false
          (recorder.record hdr r name passed, allPassed && passed)) (r, allPassed)).1 =
      (rest.foldl (fun (r, allPassed) pair =>
        match pair with
        | none => (r, allPassed)
        | some (name, result) =>
          let passed := Option.getD result false
          (recorder.record hdr r name passed, allPassed && passed)) (r, allPassed')).1 := by
    -- whether all passed so far has no influence on the registry
    induction rest generalizing r allPassed allPassed' with
    | nil => rfl
    | cons pair rest ih =>
      cases pair with
      | none => exact ih allPassed allPassed' r
      | some pair => exact ih _ _ _
  exact registry _ _ _

/-- A table of checks is a part of the history of the registry. -/
theorem evolves_runChecks (recorder : CheckRecorder) (r : Registry H)
    (table : List (Option (String × Option Bool))) :
    Registry.Evolves hdr r (runChecks hdr recorder r table).1 := by
  induction table generalizing r with
  | nil => exact .refl r
  | cons pair rest ih =>
    cases pair with
    | none => exact ih r
    | some pair =>
      rw [runChecks_cons]
      exact (evolves_record recorder r pair.1 _).trans (ih _)

/-- One more check. -/
theorem Counted.record (lawful : hdr.Lawful) (counted : Counted hdr n r checks) (check : Check)
    (ext : Interner.Extends (CheckRecorder.record hdr ⟨metricIds.checks, check.group,
      check.metricsCtx⟩ r check.name check.passed).interner n) :
    Counted hdr n (CheckRecorder.record hdr ⟨metricIds.checks, check.group, check.metricsCtx⟩ r
      check.name check.passed) (checks ++ [check]) := by
  rw [CheckRecorder.record] at ext ⊢
  dsimp only at ext ⊢
  rw [Registry.touch_interner] at ext
  -- the tag set of the check, seen from the later interner
  obtain ⟨isTags, knows⟩ := Registry.resolveTags_spec _ ext
  have interned := counted.withInterner (Interner.internPairs_extends r.interner check.pairs)
  rw [isTags]
  exact interned.add lawful check knows

/-- All checks of a table, by induction over it. -/
theorem Counted.runChecks (lawful : hdr.Lawful) (metricsCtx : MetricsContext)
    (group : Option String) (table : List (Option (String × Option Bool)))
    (counted : Counted hdr n r checks)
    (ext : Interner.Extends (runChecks hdr ⟨metricIds.checks, group, metricsCtx⟩ r table).1.interner
      n) :
    Counted hdr n (runChecks hdr ⟨metricIds.checks, group, metricsCtx⟩ r table).1
      (checks ++ (Step.check metricsCtx group table : Step H).recorded) := by
  induction table generalizing r checks with
  | nil =>
    rw [Step.recorded, List.filterMap_nil, List.append_nil]
    exact counted
  | cons pair rest ih =>
    cases pair with
    -- a pair that is no check is passed over
    | none => exact ih counted ext
    | some pair =>
      obtain ⟨name, result⟩ := pair
      rw [runChecks_cons] at ext ⊢
      have recorded := counted.record lawful ⟨metricsCtx, group, name, result.getD false⟩
        ((evolves_runChecks _ _ rest).interner.1.trans ext)
      have later := ih recorded ext
      rw [List.append_assoc] at later
      exact later

theorem evolves_apply (r : Registry H) (step : Step H) : Registry.Evolves hdr r (step.apply hdr r) := by
  cases step with
  | check metricsCtx group table => exact evolves_runChecks _ r table
  | register name kind => exact .of_operation (.register r name kind)
  | intern key => exact .of_operation (.resolveKey r key)
  | touch metric tags op => exact .touch r _ tags op

/-- Whatever the step is. -/
theorem Counted.apply (lawful : hdr.Lawful) (counted : Counted hdr n r checks) (step : Step H)
    (ext : Interner.Extends (step.apply hdr r).interner n) :
    Counted hdr n (step.apply hdr r) (checks ++ step.recorded) := by
  cases step with
  | check metricsCtx group table => exact counted.runChecks lawful metricsCtx group table ext
  | register name kind =>
    rw [Step.recorded, List.append_nil]
    exact counted.register name kind
  | intern key =>
    rw [Step.recorded, List.append_nil]
    exact counted.withInterner (Interner.getOrIntern_extends r.interner key)
  | touch metric tags op =>
    rw [Step.recorded, List.append_nil]
    exact counted.touch metric.property tags op

theorem evolves_foldl (r : Registry H) (steps : List (Step H)) :
    Registry.Evolves hdr r (steps.foldl (Step.apply hdr) r) := by
  induction steps generalizing r with
  | nil => exact .refl r
  | cons step rest ih => exact (evolves_apply r step).trans (ih _)

/-- The registrations of the run. -/
theorem orderly_registerMetrics {r : Registry H} (orderly : r.Orderly) :
    (registerMetrics r).1.Orderly := by
  have registers {r : Registry H} (orderly : r.Orderly) (name : String) (kind : MetricKind) :
      ∃ r' id, r.register name kind = (r', id) ∧ r'.Orderly :=
    ⟨_, _, rfl, orderly.register name kind⟩
  obtain ⟨r₀, _, eq₀, o₀⟩ := registers orderly "requests_total" .counter
  obtain ⟨r₁, _, eq₁, o₁⟩ := registers o₀ "bytes_received_total" .counter
  obtain ⟨r₂, _, eq₂, o₂⟩ := registers o₁ "bytes_sent_total" .counter
  obtain ⟨r₃, _, eq₃, o₃⟩ := registers o₂ "request_errors_total" .counter
  obtain ⟨r₄, _, eq₄, o₄⟩ := registers o₃ "request_errors_by_kind_total" .counter
  obtain ⟨r₅, _, eq₅, o₅⟩ := registers o₄ "request_latency" .histogram
  obtain ⟨r₆, _, eq₆, o₆⟩ := registers o₅ "iterations_total" .counter
  obtain ⟨r₇, _, eq₇, o₇⟩ := registers o₆ "iteration_duration" .histogram
  obtain ⟨r₈, _, eq₈, o₈⟩ := registers o₇ "checks" .counter
  simp only [registerMetrics, RequestMetricIds.register, IterationMetricIds.register, eq₀, eq₁, eq₂,
    eq₃, eq₄, eq₅, eq₆, eq₇, eq₈]
  exact o₈

/-- Before the first step nothing is recorded. -/
theorem counted_registered (n : Interner) : Counted hdr n registered [] := by
  obtain ⟨tracks, none⟩ := registered_catalog.tracks (H := H) (by decide) (i := 8) rfl
  have checks : UInt32.ofNat 8 = metricIds.checks := rfl
  rw [checks] at tracks none
  refine ⟨orderly_registerMetrics Registry.orderly_default, tracks,
    ⟨_, registered_catalog.defines (by decide) (i := 8) rfl⟩, by simp, by simp [none], ?_⟩
  intro predicate _
  simp [none, matchingChecks]

/-- After any run the counter holds the checks that were recorded. -/
theorem counted_run (lawful : hdr.Lawful) (steps : List (Step H))
    (ext : Interner.Extends (run hdr steps).interner n) :
    Counted hdr n (run hdr steps) (recordedChecks steps) := by
  have loop (steps : List (Step H)) (r : Registry H) (checks : List Check)
      (counted : Counted hdr n r checks)
      (ext : Interner.Extends (steps.foldl (Step.apply hdr) r).interner n) :
      Counted hdr n (steps.foldl (Step.apply hdr) r) (checks ++ recordedChecks steps) := by
    -- by induction on the steps, for any registry that counts the checks before them
    induction steps generalizing r checks with
    | nil => simpa [recordedChecks] using counted
    | cons step rest ih =>
      have applied := counted.apply lawful step ((evolves_foldl _ rest).interner.1.trans ext)
      have later := ih (step.apply hdr r) (checks ++ step.recorded) applied ext
      rw [List.append_assoc] at later
      exact later
  exact loop steps registered [] (counted_registered n) ext

end Wrkr.Lua
