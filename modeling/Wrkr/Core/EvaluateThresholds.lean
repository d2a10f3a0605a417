import Wrkr.Core.ThresholdExpr
import Wrkr.Core.ThresholdsEval
import Wrkr.Lib.Fallible
import Wrkr.Metrics.Agg

/-!
# Evaluating thresholds

`evaluate_thresholds` takes the sets in turn, looks the metric of each up and then parses and
compares its expressions one after the other. So an expression that does not parse is an error only
if its metric is found (`evaluate_error_iff`), and the violations of a run are those of its
expressions, each evaluated alone in the registry of its turn (`evaluate_ok_eq`).
-/
namespace Wrkr.Core

open Wrkr.Lib Wrkr.Metrics
open Accounting (exactBits ratioBits)

variable {H : Type} (hdr : HdrHistogram H UInt64) (ratio : UInt64 → UInt64 → UInt64)
  (parseF64 : List Char → Option UInt64)

/-- A violation as it is reported. Without an observed value there was nothing to compare. -/
structure ThresholdViolation where
  metric : String
  tags : List (String × String)
  expression : String
  observed : Option UInt64
  deriving DecidableEq, Repr

/-- The evaluation as a whole fails on the first expression that cannot be parsed. -/
inductive ThresholdEvalError
  | invalidThresholdExpr (metric error : String)
  deriving DecidableEq, Repr

/-- `compare`. -/
def ThresholdOp.compare (observed : UInt64) (op : ThresholdOp) (expected : UInt64) : Bool :=
  match op with
  | .lt => Ieee.lt observed expected
  | .lte => Ieee.le observed expected
  | .gt => Ieee.lt expected observed
  | .gte => Ieee.le expected observed
  | .eq => Ieee.eq observed expected

/-- The body of the loop over the expressions of a set. -/
def evaluateExpr (metrics : Registry H) (set : ThresholdSet) (metricId : MetricId)
    (kind : MetricKind) (selector : TagSelector) (out : List ThresholdViolation) (exprRaw : String) :
    Except ThresholdEvalError (List ThresholdViolation) :=
  match parseThresholdExpr parseF64 exprRaw with
  | .error error => .error (.invalidThresholdExpr set.metric error)
  | .ok expr =>
    let observed := if selector.anySeries metrics metricId then
      observedValue hdr ratio metrics metricId kind expr.agg selector else none
    let passed := observed.any fun v => ThresholdOp.compare v expr.op expr.value
    if passed then .ok out else .ok (out ++ [⟨set.metric, set.tags, exprRaw, observed⟩])

/-- The body of the loop over the sets. -/
def evaluateSet (metrics : Registry H) (out : List ThresholdViolation) (set : ThresholdSet) :
    Registry H × Except ThresholdEvalError (List ThresholdViolation) :=
  let (metrics, selector) := TagSelector.new metrics set.tags
  let (metrics, found) := metrics.lookupMetric set.metric
  (metrics,
    match found with
    -- all expressions fail, and none is parsed
    | none => .ok (out ++ set.expressions.map fun expr => ⟨set.metric, set.tags, expr, none⟩)
    | some (metricId, kind) =>
      set.expressions.foldlM
        (evaluateExpr hdr ratio parseF64 metrics set metricId kind selector) out)

/-- The loop over the sets: the registry grows by what is interned for each of them. -/
def evaluateFrom (metrics : Registry H) (out : List ThresholdViolation) :
    List ThresholdSet → Registry H × Except ThresholdEvalError (List ThresholdViolation)
  | [] => (metrics, .ok out)
  | set :: sets =>
    match evaluateSet hdr ratio parseF64 metrics out set with
    | (metrics, .ok out) => evaluateFrom metrics out sets
    | (metrics, .error error) => (metrics, .error error)

/-- All sets in the order in which they are given. -/
def evaluateThresholds (metrics : Registry H) (sets : List ThresholdSet) :
    Registry H × Except ThresholdEvalError (List ThresholdViolation) :=
  evaluateFrom hdr ratio parseF64 metrics [] sets

/-! ### Turns -/

/-- The metric of a set, with what looking it up leaves of the registry. -/
def lookUp (metrics : Registry H) (set : ThresholdSet) : Registry H × Option (MetricId × MetricKind) :=
  (TagSelector.new metrics set.tags).1.lookupMetric set.metric

/-- The sets with the registry as it is when their turn comes. Evaluating a set interns the strings
of its tags and of its metric. -/
def turns (metrics : Registry H) : List ThresholdSet → List (Registry H × ThresholdSet)
  | [] => []
  | set :: sets => (metrics, set) :: turns (lookUp metrics set).1 sets

/-- One expression of a set, as if it had no other. -/
def evaluateAlone (turn : Registry H × ThresholdSet) (exprRaw : String) :
    Except ThresholdEvalError (List ThresholdViolation) :=
  (evaluateSet hdr ratio parseF64 turn.1 [] { turn.2 with expressions := [exprRaw] }).2

theorem evaluateExpr_push (metrics : Registry H) (set : ThresholdSet) (metricId : MetricId)
    (kind : MetricKind) (selector : TagSelector) (out : List ThresholdViolation) (exprRaw : String) :
    evaluateExpr hdr ratio parseF64 metrics set metricId kind selector out exprRaw =
      (evaluateExpr hdr ratio parseF64 metrics set metricId kind selector [] exprRaw).map
        (out ++ ·) := by
  unfold evaluateExpr
  cases parseThresholdExpr parseF64 exprRaw with
  | error error => rfl
  | ok expr =>
    dsimp only
    split_ifs <;> simp [Except.map]

/-- Where the metric of the set is not found, no expression is parsed. -/
theorem evaluateAlone_eq (turn : Registry H × ThresholdSet) (exprRaw : String) :
    evaluateAlone hdr ratio parseF64 turn exprRaw =
      match (lookUp turn.1 turn.2).2 with
      | none => .ok [⟨turn.2.metric, turn.2.tags, exprRaw, none⟩]
      | some (metricId, kind) =>
        evaluateExpr hdr ratio parseF64 (lookUp turn.1 turn.2).1 turn.2 metricId kind
          (TagSelector.new turn.1 turn.2.tags).2 [] exprRaw := by
  unfold evaluateAlone evaluateSet lookUp
  dsimp only
  cases (Registry.lookupMetric _ _).2 with
  | none => rfl
  | some found =>
    dsimp only
    rw [List.foldlM_cons]
    exact bind_pure _

/-- A set reports what its expressions do when each is alone. -/
theorem evaluateSet_eq (metrics : Registry H) (out : List ThresholdViolation) (set : ThresholdSet) :
    evaluateSet hdr ratio parseF64 metrics out set =
      ((lookUp metrics set).1,
        (set.expressions.mapM (evaluateAlone hdr ratio parseF64 (metrics, set))).map
          fun pushed => out ++ pushed.flatten) := by
  have alone : evaluateAlone hdr ratio parseF64 (metrics, set) = _ :=
    funext (evaluateAlone_eq hdr ratio parseF64 (metrics, set))
  rw [alone]
  unfold evaluateSet lookUp
  dsimp only
  congr 1
  cases (Registry.lookupMetric _ _).2 with
  | none =>
    -- without a metric every expression is a violation
    have all := List.mapM_pure (m := Except ThresholdEvalError) (l := set.expressions)
      (f := fun expr => [(⟨set.metric, set.tags, expr, none⟩ : ThresholdViolation)])
    simp only [pure, Except.pure] at all
    simp only [all, Except.map]
    rw [List.map_eq_flatMap, List.flatMap_def]
  | some found =>
    exact foldlM_push (evaluateExpr_push hdr ratio parseF64 _ set found.1 found.2 _) _ out

/-- The loop adds, set by set, what each of them gives with the registry of its turn. -/
theorem evaluateFrom_eq (metrics : Registry H) (out : List ThresholdViolation)
    (sets : List ThresholdSet) :
    (evaluateFrom hdr ratio parseF64 metrics out sets).2 =
      ((turns metrics sets).mapM fun turn =>
        (evaluateSet hdr ratio parseF64 turn.1 [] turn.2).2).map fun pushed =>
          out ++ pushed.flatten := by
  induction sets generalizing metrics out with
  | nil => simp [evaluateFrom, turns, pure, Except.pure, Except.map]
  | cons set sets ih =>
    rw [evaluateFrom, turns, List.mapM_cons, evaluateSet_eq, evaluateSet_eq]
    -- the first error ends the loop over the sets as well
    cases set.expressions.mapM (evaluateAlone hdr ratio parseF64 (metrics, set)) with
    | error error => rfl
    | ok pushed =>
      simp only [Except.map, ih, bind, Except.bind]
      generalize (turns (lookUp metrics set).1 sets).mapM (fun turn =>
        (evaluateSet hdr ratio parseF64 turn.1 [] turn.2).2) = rest
      cases rest <;> simp [pure, Except.pure]

/-! ### Errors -/

/-- Some expression of the set does not parse. -/
def ThresholdSet.Rejected (set : ThresholdSet) : Prop :=
  ∃ raw ∈ set.expressions, ∃ error, parseThresholdExpr parseF64 raw = .error error

/-- An expression is only parsed when its metric is registered. -/
theorem evaluateAlone_error_iff (turn : Registry H × ThresholdSet) (exprRaw : String) :
    (∃ error, evaluateAlone hdr ratio parseF64 turn exprRaw = .error error) ↔
      (lookUp turn.1 turn.2).2.isSome ∧
        ∃ error, parseThresholdExpr parseF64 exprRaw = .error error := by
  rw [evaluateAlone_eq]
  cases (lookUp turn.1 turn.2).2 with
  | none => simp
  -- parsing is the only thing that can fail
  | some found =>
    simp only [evaluateExpr, Option.isSome_some, true_and]
    cases parseThresholdExpr parseF64 exprRaw with
    | error error => simp
    | ok expr =>
      dsimp only
      split_ifs <;> simp

/-- An evaluation fails on a rejected expression of a set whose metric is found. -/
theorem evaluate_error_iff (metrics : Registry H) (sets : List ThresholdSet) :
    (∃ error, (evaluateThresholds hdr ratio parseF64 metrics sets).2 = .error error) ↔
      ∃ turn ∈ turns metrics sets,
        (lookUp turn.1 turn.2).2.isSome ∧ turn.2.Rejected parseF64 := by
  rw [evaluateThresholds, evaluateFrom_eq, map_isError_iff, mapM_isError_iff]
  refine exists_congr fun turn => and_congr_right fun _ => ?_
  rw [evaluateSet_eq, map_isError_iff, mapM_isError_iff]
  simp only [evaluateAlone_error_iff, ThresholdSet.Rejected]
  constructor
  · rintro ⟨raw, member, found, rejected⟩
    exact ⟨found, raw, member, rejected⟩
  · rintro ⟨found, raw, member, rejected⟩
    exact ⟨raw, member, found, rejected⟩

theorem map_snd_turns (metrics : Registry H) (sets : List ThresholdSet) :
    (turns metrics sets).map Prod.snd = sets := by
  induction sets generalizing metrics with
  | nil => rfl
  | cons set sets ih => rw [turns, List.map_cons, ih]

theorem lookUp_evolves {F : Type} (hdr : HdrHistogram H F) (metrics : Registry H)
    (set : ThresholdSet) : Registry.Evolves hdr metrics (lookUp metrics set).1 :=
  (TagSelector.new_evolves hdr metrics set.tags).step (.lookupMetric _ set.metric)

theorem lookUp_withInterner (metrics : Registry H) (set : ThresholdSet) :
    ∃ interner, (lookUp metrics set).1 = metrics.withInterner interner := by
  obtain ⟨interner, isNew⟩ := TagSelector.new_withInterner metrics set.tags
  rw [lookUp, isNew]
  exact ⟨_, rfl⟩

theorem lookUp_defs (metrics : Registry H) (set : ThresholdSet) :
    (lookUp metrics set).1.defs = metrics.defs := by
  obtain ⟨interner, isNew⟩ := lookUp_withInterner metrics set
  rw [isNew]
  rfl

/-- Until the turn of a set comes, strings are interned and nothing is registered. -/
theorem turns_evolves {F : Type} (hdr : HdrHistogram H F) {metrics : Registry H}
    {sets : List ThresholdSet} {turn : Registry H × ThresholdSet}
    (member : turn ∈ turns metrics sets) :
    Registry.Evolves hdr metrics turn.1 ∧ turn.1.defs = metrics.defs := by
  induction sets generalizing metrics with
  | nil => cases member
  | cons set sets ih =>
    rcases List.mem_cons.mp member with rfl | later
    · exact ⟨.refl metrics, rfl⟩
    · obtain ⟨evolves, defs⟩ := ih later
      exact ⟨(lookUp_evolves hdr metrics set).trans evolves, defs.trans (lookUp_defs metrics set)⟩

/-- In a registry with ids to spare, a set finds its metric if it has been registered. -/
theorem lookUp_isSome_iff_hasMetric {metrics : Registry H} {sets : List ThresholdSet}
    {turn : Registry H × ThresholdSet} (member : turn ∈ turns metrics sets)
    (reachable : Registry.Evolves hdr Registry.default metrics)
    (few : (lookUp turn.1 turn.2).1.interner.vec.length ≤ 2 ^ 32) :
    (lookUp turn.1 turn.2).2.isSome ↔ metrics.HasMetric turn.2.metric := by
  obtain ⟨evolves, defs⟩ := turns_evolves hdr member
  have selector := TagSelector.new_evolves hdr turn.1 turn.2.tags
  have wf := ((reachable.trans evolves).trans (lookUp_evolves hdr turn.1 turn.2)).interner.2
    Interner.wf_new
  obtain ⟨interner, isNew⟩ := TagSelector.new_withInterner turn.1 turn.2.tags
  -- earlier turns intern strings and define no metric
  refine Registry.lookupMetric_isSome_iff_hasMetric (reachable.named Registry.named_default) ?_
    (evolves.trans selector).interner.1 _ ⟨wf, few⟩
  rw [isNew]
  exact defs

/-- Syntax that does not parse is an error unless it is that of metrics only that are not found:
every expression of those counts as failed. In a registry with ids to spare, these are the metrics
that have not been registered. -/
theorem syntax_reported_iff (metrics : Registry H) (sets : List ThresholdSet) :
    (((∃ error, (evaluateThresholds hdr ratio parseF64 metrics sets).2 = .error error) ↔
          ∃ set ∈ sets, set.Rejected parseF64) ↔
        ((∃ set ∈ sets, set.Rejected parseF64) → ∃ turn ∈ turns metrics sets,
          (lookUp turn.1 turn.2).2.isSome ∧ turn.2.Rejected parseF64)) ∧
      (Registry.Evolves hdr Registry.default metrics → ∀ turn ∈ turns metrics sets,
        (lookUp turn.1 turn.2).1.interner.vec.length ≤ 2 ^ 32 →
          ((lookUp turn.1 turn.2).2.isSome ↔ metrics.HasMetric turn.2.metric)) := by
  constructor
  · rw [evaluate_error_iff]
    constructor
    · exact Iff.mpr
    · refine fun reported => ⟨?_, reported⟩
      -- an error is always one of a set with such an expression
      rintro ⟨turn, member, -, rejected⟩
      have inSets : turn.2 ∈ sets := by
        rw [← map_snd_turns metrics sets]
        exact List.mem_map_of_mem member
      exact ⟨turn.2, inSets, rejected⟩
  · exact fun reachable turn member few => lookUp_isSome_iff_hasMetric hdr member reachable few

/-- A threshold without an operator. -/
def noOperator : ThresholdSet := ⟨"rps", [], ["oops"]⟩

theorem rejected_noOperator : noOperator.Rejected parseWhole :=
  ⟨"oops", by decide, "invalid threshold (missing operator): oops", by decide⟩

/-- A registry with the one metric `rps`. -/
def withRps : Registry (List UInt64) := (Registry.default.register "rps" .counter).1

theorem syntax_reported_registered :
    ((∃ error, (evaluateThresholds exactBits ratioBits parseWhole withRps [noOperator]).2 =
        .error error) ↔ ∃ set ∈ [noOperator], set.Rejected parseWhole) ∧
      withRps.HasMetric "rps" := by
  obtain ⟨reported, defined⟩ := syntax_reported_iff exactBits ratioBits parseWhole withRps [noOperator]
  have found : (lookUp withRps noOperator).2.isSome := by decide
  have here : (withRps, noOperator) ∈ turns withRps [noOperator] := List.mem_cons_self
  refine ⟨reported.mpr fun _ => ⟨_, here, found, rejected_noOperator⟩, ?_⟩
  exact (defined (.of_operation (.register _ "rps" .counter)) _ here (by decide)).mp found

/-- Without the metric, the same threshold is not an error: it is a violation. -/
theorem syntax_not_reported :
    (evaluateThresholds exactBits ratioBits parseWhole Registry.default [noOperator]).2 =
        .ok [⟨"rps", [], "oops", none⟩] ∧
      ¬((∃ error, (evaluateThresholds exactBits ratioBits parseWhole Registry.default
          [noOperator]).2 = .error error) ↔ ∃ set ∈ [noOperator], set.Rejected parseWhole) := by
  have violated : (evaluateThresholds exactBits ratioBits parseWhole Registry.default
      [noOperator]).2 = .ok [⟨"rps", [], "oops", none⟩] := by rfl
  refine ⟨violated, fun same => ?_⟩
  obtain ⟨error, failed⟩ := same.mpr ⟨noOperator, List.mem_cons_self, rejected_noOperator⟩
  rw [violated] at failed
  cases failed

/-! ### Percentiles -/

/-- What one expression of a set adds to the violations. -/
def report (turn : Registry H × ThresholdSet) (exprRaw : String) : List ThresholdViolation :=
  match evaluateAlone hdr ratio parseF64 turn exprRaw with
  | .ok violations => violations
  | .error _ => []

/-- The violations of a run are those of its expressions, each alone in the registry of its turn. -/
theorem evaluate_ok_eq {metrics : Registry H} {sets : List ThresholdSet}
    {out : List ThresholdViolation}
    (ok : (evaluateThresholds hdr ratio parseF64 metrics sets).2 = .ok out) :
    out = (turns metrics sets).flatMap fun turn =>
      turn.2.expressions.flatMap (report hdr ratio parseF64 turn) := by
  rw [evaluateThresholds, evaluateFrom_eq] at ok
  refine flatMap_of_push ?_ ok
  intro turn violations evaluated
  rw [evaluateSet_eq] at evaluated
  refine (flatMap_of_push ?_ evaluated).symm
  intro exprRaw violations alone
  rw [report, alone]

/-- Some series that the set matches has a histogram with a value. -/
def HasSample (turn : Registry H × ThresholdSet) (metricId : MetricId) : Prop :=
  ∃ h ∈ matchingHistograms turn.1 metricId (TagSelector.new turn.1 turn.2.tags).2.matchesTags,
    hdr.len h ≠ 0

/-- The percentile of the merged histograms is compared: if the comparison fails, it is reported. -/
def PercentileCompared (turn : Registry H × ThresholdSet) (metricId : MetricId) (exprRaw : String)
    (percent : UInt32) (op : ThresholdOp) (value : UInt64) : Prop :=
  let merged :=
    mergedHistogram hdr turn.1 metricId (TagSelector.new turn.1 turn.2.tags).2.matchesTags
  let observed := hdr.ofU64 (hdr.valueAtPercent merged percent.toNat)
  report hdr ratio parseF64 turn exprRaw =
    if ThresholdOp.compare observed op value then []
    else [⟨turn.2.metric, turn.2.tags, exprRaw, some observed⟩]

/-- The percentiles that a summary has. -/
def summarized : List UInt32 := [50, 75, 90, 95, 99]

theorem lookUp_visitSeries (metrics : Registry H) (set : ThresholdSet) :
    (lookUp metrics set).1.visitSeries = metrics.visitSeries := by
  obtain ⟨interner, isNew⟩ := lookUp_withInterner metrics set
  rw [isNew]
  rfl

/-- A percentile has a value in the five cases that are summarized, and in no other. -/
theorem observedValue_p (saturating : hdr.SaturatingAdd) (metrics : Registry H)
    (metricId : MetricId) (selector : TagSelector) (percent : UInt32)
    (sample : ∃ h ∈ matchingHistograms metrics metricId selector.matchesTags, hdr.len h ≠ 0) :
    observedValue hdr ratio metrics metricId .histogram (.p percent) selector =
      if percent ∈ summarized then
        some (hdr.ofU64 (hdr.valueAtPercent
          (mergedHistogram hdr metrics metricId selector.matchesTags) percent.toNat))
      else none := by
  have nonempty : matchingHistograms metrics metricId selector.matchesTags ≠ [] := by
    obtain ⟨h, member, -⟩ := sample
    exact List.ne_nil_of_mem member
  -- a sample in one of the series is in the merged histogram, even if adding saturates
  have values : hdr.len (mergedHistogram hdr metrics metricId selector.matchesTags) > 0 := by
    exact UInt64.pos_iff_ne_zero.mpr (len_merged_ne_zero hdr saturating (.inr sample))
  simp only [observedValue, foldHistogramSummary_eq hdr nonempty, Option.bind_some,
    summarizeHistogram, values, if_true]
  by_cases inside : percent ∈ summarized
  · rw [if_pos inside]
    simp only [summarized, List.mem_cons, List.not_mem_nil, or_false] at inside
    rcases inside with rfl | rfl | rfl | rfl | rfl <;> rfl
  · rw [if_neg inside]
    simp only [summarized, List.mem_cons, List.not_mem_nil, or_false, not_or] at inside
    simp [inside]

/-- An accepted percentile is compared if the summary has it. -/
theorem percentileCompared_iff (saturating : hdr.SaturatingAdd) {turn : Registry H × ThresholdSet}
    {metricId : MetricId} {exprRaw : String} {percent : UInt32} {op : ThresholdOp} {value : UInt64}
    (parsed : parseThresholdExpr parseF64 exprRaw = .ok ⟨.p percent, op, value⟩)
    (found : (lookUp turn.1 turn.2).2 = some (metricId, .histogram))
    (sample : HasSample hdr turn metricId) :
    PercentileCompared hdr ratio parseF64 turn metricId exprRaw percent op value ↔
      percent ∈ summarized := by
  have visits := lookUp_visitSeries turn.1 turn.2
  -- the registry that is read has the series of the turn
  have histograms (predicate : TagSet → Bool) :
      matchingHistograms (lookUp turn.1 turn.2).1 metricId predicate =
        matchingHistograms turn.1 metricId predicate := by
    rw [matchingHistograms, visits, matchingHistograms]
  have merged (predicate : TagSet → Bool) :
      mergedHistogram hdr (lookUp turn.1 turn.2).1 metricId predicate =
        mergedHistogram hdr turn.1 metricId predicate := by
    rw [mergedHistogram, histograms, mergedHistogram]
  have anySeries : (TagSelector.new turn.1 turn.2.tags).2.anySeries (lookUp turn.1 turn.2).1
      metricId = true := by
    obtain ⟨h, member, -⟩ := sample
    obtain ⟨e, isSeries, -⟩ := List.mem_filterMap.mp member
    rw [TagSelector.anySeries, visits, List.any_eq_true]
    exact ⟨e, List.mem_filter.mp isSeries⟩
  have observed := observedValue_p hdr ratio saturating (lookUp turn.1 turn.2).1 metricId
    (TagSelector.new turn.1 turn.2.tags).2 percent (by rw [histograms]; exact sample)
  rw [merged] at observed
  rw [PercentileCompared, report, evaluateAlone_eq, found]
  simp only [evaluateExpr, parsed, anySeries, if_true, observed]
  by_cases inside : percent ∈ summarized
  · simp only [inside, if_true, Option.any_some, iff_true]
    split_ifs <;> rfl
  -- nothing is observed, so what is reported is not the percentile
  · simp only [inside, if_false, Option.any_none, Bool.false_eq_true, List.nil_append, iff_false]
    split_ifs <;> simp

/-- In every run, wherever an accepted percentile meets a histogram with values: it is compared if
and only if the summary has it. -/
theorem percentile_evaluated_iff (saturating : hdr.SaturatingAdd) (metrics : Registry H)
    (sets : List ThresholdSet) :
    (∀ out, (evaluateThresholds hdr ratio parseF64 metrics sets).2 = .ok out →
        out = (turns metrics sets).flatMap fun turn =>
          turn.2.expressions.flatMap (report hdr ratio parseF64 turn)) ∧
      ∀ turn ∈ turns metrics sets, ∀ exprRaw ∈ turn.2.expressions, ∀ percent op value metricId,
        parseThresholdExpr parseF64 exprRaw = .ok ⟨.p percent, op, value⟩ →
        (lookUp turn.1 turn.2).2 = some (metricId, .histogram) → HasSample hdr turn metricId →
          (PercentileCompared hdr ratio parseF64 turn metricId exprRaw percent op value ↔
            percent ∈ summarized) :=
  ⟨fun _ ok => evaluate_ok_eq hdr ratio parseF64 ok, fun _ _ _ _ _ _ _ _ parsed found sample =>
    percentileCompared_iff hdr ratio parseF64 saturating parsed found sample⟩

/-- The exact histograms with counts that saturate. -/
def saturatingBits : HdrHistogram (List UInt64) UInt64 :=
  { exactBits with len := fun h => Query.cap h.length }

theorem saturatingAdd_saturatingBits : saturatingBits.SaturatingAdd := by
  have nonzero (h : List UInt64) : saturatingBits.len h ≠ 0 ↔ h ≠ [] := by
    rw [← List.length_pos_iff_ne_nil, ne_eq, ← UInt64.toNat_inj]
    change ¬(Query.cap h.length).toNat = 0 ↔ _
    rw [Query.cap_toNat]
    omega
  intro a b
  rw [nonzero, nonzero, nonzero]
  change _ → b ++ a ≠ []
  simp only [ne_eq, List.append_eq_nil_iff]
  tauto

/-- One latency of ten microseconds. -/
def withLatency : Registry (List UInt64) :=
  let (metrics, metricId) := Registry.default.register "latency" .histogram
  metrics.touch saturatingBits metricId TagSet.empty (Cell.record saturatingBits 10)

/-- The latency with the expression. -/
def latencyThreshold (expr : String) : ThresholdSet := ⟨"latency", [], [expr]⟩

theorem hasSample_withLatency (expr : String) :
    HasSample saturatingBits (withLatency, latencyThreshold expr) 0 := by
  have values : [10] ∈ matchingHistograms withLatency 0 TagSelector.all.matchesTags := by decide
  exact ⟨[10], values, by decide⟩

theorem percentile_evaluated_ninety_five :
    PercentileCompared saturatingBits ratioBits parseWhole
      (withLatency, latencyThreshold "p(95) < 100") 0 "p(95) < 100" 95 .lt (Ieee.ofU64 100) :=
  ((percentile_evaluated_iff saturatingBits ratioBits parseWhole saturatingAdd_saturatingBits
    withLatency [latencyThreshold "p(95) < 100"]).2 _ List.mem_cons_self _ List.mem_cons_self 95 .lt
    (Ieee.ofU64 100) 0 (by decide +kernel) (by decide) (hasSample_withLatency _)).mpr (by decide)

/-- The 80th percentile of the latency is ten, but nothing is compared with the bound. -/
theorem percentile_not_evaluated :
    parseThresholdExpr parseWhole "p(80) < 100" = .ok ⟨.p 80, .lt, Ieee.ofU64 100⟩ ∧
      HasSample saturatingBits (withLatency, latencyThreshold "p(80) < 100") 0 ∧
      (evaluateThresholds saturatingBits ratioBits parseWhole withLatency
        [latencyThreshold "p(80) < 100"]).2 = .ok [⟨"latency", [], "p(80) < 100", none⟩] ∧
      ¬PercentileCompared saturatingBits ratioBits parseWhole
        (withLatency, latencyThreshold "p(80) < 100") 0 "p(80) < 100" 80 .lt (Ieee.ofU64 100) := by
  have parsed : parseThresholdExpr parseWhole "p(80) < 100" = .ok ⟨.p 80, .lt, Ieee.ofU64 100⟩ := by
    decide +kernel
  have sample := hasSample_withLatency "p(80) < 100"
  refine ⟨parsed, sample, by decide +kernel, ?_⟩
  -- 80 is none of the five percentiles
  rw [percentileCompared_iff saturatingBits ratioBits parseWhole saturatingAdd_saturatingBits parsed
    (by decide) sample]
  decide

end Wrkr.Core
