import Wrkr.Cli.Output
import Wrkr.Lua.Check

/-!
# The checks gate

Three readers of the counter `checks` have to agree: the query behind the failed checks of a
scenario summary, which compares ids and groups by name; the JSON line, which compares strings and
regroups by name, group and tags; the totals of the human summary, from which the exit code follows
as well. Each of them sums the counter over the series whose tags satisfy a predicate, and after a
run that sum is the number of recorded checks whose tags do.
-/
namespace Wrkr.Cli

open Wrkr.Lib Wrkr.Metrics Wrkr.Core Wrkr.Core.Accounting Wrkr.Lua

variable {H F : Type} {hdr : HdrHistogram H F}

/-- The checks of a scenario with an outcome. -/
def outcomes (checks : List Check) (scenario : String) (passed : Bool) : Nat :=
  checks.countP fun check => check.scenario = scenario && check.passed = passed

/-- The checks of a scenario. -/
def checksOf (checks : List Check) (scenario : String) : Nat :=
  checks.countP fun check => check.scenario = scenario

/-- Every check has passed or failed. -/
theorem outcomes_add (checks : List Check) (scenario : String) :
    outcomes checks scenario true + outcomes checks scenario false = checksOf checks scenario := by
  induction checks with
  | nil => rfl
  | cons check rest ih =>
    have step (passed : Bool) : outcomes (check :: rest) scenario passed =
        outcomes rest scenario passed +
          if check.scenario = scenario ∧ check.passed = passed then 1 else 0 := by
      simp [outcomes, List.countP_cons]
    have whole : checksOf (check :: rest) scenario =
        checksOf rest scenario + if check.scenario = scenario then 1 else 0 := by
      simp [checksOf, List.countP_cons]
    rw [step, step, whole, ← ih]
    -- a check of the scenario counts on one side, another one on none
    by_cases here : check.scenario = scenario
    · cases check.passed
      · simp only [here, Bool.false_eq_true, and_false, and_self, ↓reduceIte]
        omega
      · simp only [here, Bool.true_eq_false, and_false, and_self, ↓reduceIte]
        omega
    · simp [here]

/-! ### The tags of a check, resolved -/

section Tags

variable {n : Interner} (ample : n.Ample) {check : Check}
  (knows : ∀ tag ∈ check.pairs, n.Knows tag.1 ∧ n.Knows tag.2)

include ample knows

theorem get_of_pair {key value : String} (member : (key, value) ∈ check.pairs) :
    (n.tagSet check.pairs).get (n.idOf key) = some (n.idOf value) := by
  apply Interner.tagSet_get_of_mem ample knows member
  intro value' member'
  -- no key occurs twice, so there is no other value to find
  have distinct := check.pairs_spec.1
  have first := (HashTable.lookup_eq_some_iff_mem distinct key value).mpr member
  have second := (HashTable.lookup_eq_some_iff_mem distinct key value').mpr member'
  exact Option.some.inj (second.symm.trans first)

/-- The filters of the failed checks of a known scenario. -/
theorem failedOf_check {keys : TagKeys} (scenarioKey : keys.scenario = n.idOf "scenario")
    (statusKey : keys.status = n.idOf "status") (failValue : keys.fail = n.idOf "fail")
    (fail : n.Knows "fail") {scenario : String} (known : n.Knows scenario) :
    failedOf keys (n.idOf scenario) (n.tagSet check.pairs) =
      (decide (check.scenario = scenario) && decide (check.passed = false)) := by
  obtain ⟨-, -, status, ofScenario⟩ := check.pairs_spec
  rw [failedOf, scenarioKey, statusKey, failValue, get_of_pair ample knows ofScenario,
    get_of_pair ample knows status]
  have sameScenario : n.idOf check.scenario = n.idOf scenario ↔ check.scenario = scenario :=
    ⟨ample.idOf_inj (knows _ ofScenario).2 known, fun same => same ▸ rfl⟩
  have sameStatus : n.idOf check.status = n.idOf "fail" ↔ check.passed = false := by
    rw [Check.status]
    cases outcome : check.passed with
    | false => simp
    -- the query would take a passed check only if "pass" and "fail" had one id
    | true =>
      have word : check.status = "pass" := by simp [Check.status, outcome]
      have known := (knows _ status).2
      rw [word] at known
      simp only [↓reduceIte, Bool.true_eq_false, iff_false]
      intro same
      have collision := ample.idOf_inj known fail same
      exact absurd collision (by decide)
  simp [sameScenario, sameStatus]

/-- What the loop over the tags of a series of checks finds. -/
theorem labels_check :
    (Labels.of (n.resolveTagSet (n.tagSet check.pairs))).scenario = some check.scenario ∧
      (Labels.of (n.resolveTagSet (n.tagSet check.pairs))).name = some check.name ∧
      (Labels.of (n.resolveTagSet (n.tagSet check.pairs))).status = some check.status := by
  obtain ⟨distinct, name, status, ofScenario⟩ := check.pairs_spec
  have perm := ample.resolveTagSet knows
  -- the order of the resolved tags is that of the ids; the labels do not depend on it
  have nodup : ((n.resolveTagSet (n.tagSet check.pairs)).map Prod.fst).Nodup :=
    (perm.map Prod.fst).nodup_iff.mpr distinct
  exact ⟨Labels.of_mem nodup Labels.scenario_read (perm.mem_iff.mpr ofScenario),
    Labels.of_mem nodup Labels.name_read (perm.mem_iff.mpr name),
    Labels.of_mem nodup Labels.status_read (perm.mem_iff.mpr status)⟩

end Tags

/-! ### The query -/

section Readers

variable {n : Interner} {r : Registry H} {checks : List Check} (counted : Counted hdr n r checks)
  (ample : n.Ample) (isLast : r.interner = n)

include counted ample isLast

theorem resolves_name {keys : TagKeys} (nameKey : keys.name = n.idOf "name") :
    ∀ e ∈ r.visitSeries metricIds.checks, ((e.1.get keys.name).bind r.resolveKeyId).isSome := by
  intro e member
  -- every series comes from a check, and a check has a name
  obtain ⟨check, recorded, isTags⟩ := counted.series e.1 (List.mem_map_of_mem member)
  have knows := counted.known check recorded
  obtain ⟨-, name, -, -⟩ := check.pairs_spec
  rw [← isTags, nameKey, get_of_pair ample knows name, Option.bind_some, Registry.resolveKeyId,
    isLast, ample.resolve (knows _ name).2.get?]
  rfl

/-- The failed checks of a scenario summary. -/
theorem computeChecksFailed_counts {keys : TagKeys}
    (scenarioKey : keys.scenario = n.idOf "scenario") (statusKey : keys.status = n.idOf "status")
    (nameKey : keys.name = n.idOf "name") (failValue : keys.fail = n.idOf "fail")
    (fail : n.Knows "fail") {scenario : String} (known : n.Knows scenario)
    (fits : outcomes checks scenario false < 2 ^ 64) :
    (computeChecksFailed r metricIds.checks keys (n.idOf scenario)).1.toNat =
        outcomes checks scenario false ∧
      Query.countSum (computeChecksFailed r metricIds.checks keys (n.idOf scenario)).2 =
        outcomes checks scenario false := by
  -- a check passes the filter when it failed in the scenario, since the ids are those of the
  -- strings
  have sameCount : matchingChecks n (failedOf keys (n.idOf scenario)) checks =
      outcomes checks scenario false := by
    apply List.countP_congr
    intro check recorded
    rw [failedOf_check ample (counted.known check recorded) scenarioKey statusKey failValue fail
      known]
  have holds : total (failedOf keys (n.idOf scenario)) Cell.counterValue
      (r.visitSeries metricIds.checks) = outcomes checks scenario false :=
    (counted.totals _ (sameCount ▸ fits)).trans sameCount
  have both := computeChecksFailed_spec (r := r) (by rw [holds]; exact fits)
    (resolves_name counted ample isLast nameKey)
  rwa [holds] at both

/-! ### The list of series -/

/-- The series of a scenario and an outcome, by their strings. -/
def outcomeOf (n : Interner) (scenario : String) (passed : Bool) (tags : TagSet) : Bool :=
  (Labels.of (n.resolveTagSet tags)).scenario = some scenario &&
    (Labels.of (n.resolveTagSet tags)).status = some (if passed then "pass" else "fail")

/-- What the JSON line counts is what was recorded. -/
theorem sum_seriesCount (ratio : UInt64 → UInt64 → F) (scenario : String) (passed : Bool)
    (fits : outcomes checks scenario passed < 2 ^ 64) :
    ((r.summarize hdr ratio).map (seriesCount scenario passed)).sum =
      outcomes checks scenario passed := by
  obtain ⟨id, defines⟩ := counted.defines
  have sameCount : matchingChecks n (outcomeOf n scenario passed) checks =
      outcomes checks scenario passed := by
    apply List.countP_congr
    intro check recorded
    obtain ⟨isScenario, -, isStatus⟩ := labels_check ample (counted.known check recorded)
    rw [outcomeOf, isScenario, isStatus, Check.status]
    cases passed <;> cases check.passed <;> simp
  have others (m : MetricSeriesSummary F) (other : m.name ≠ "checks") :
      seriesCount scenario passed m = 0 := by
    simp [seriesCount, checkSeries, other]
  -- a series of checks is counted under the scenario and the outcome of its check
  have each : ∀ e ∈ r.visitSeries metricIds.checks,
      seriesCount scenario passed (r.summarizeSeries hdr ratio ⟨id, .counter⟩ e) =
        if outcomeOf n scenario passed e.1 then Cell.counterValue e.2 else 0 := by
    rintro ⟨tags, cell⟩ member
    obtain ⟨check, recorded, isTags⟩ := counted.series tags (List.mem_map_of_mem member)
    obtain ⟨isScenario, isName, isStatus⟩ := labels_check ample (counted.known check recorded)
    rw [isTags] at isScenario isName isStatus
    have named : n.resolve id = some "checks" := ample.resolve (isLast ▸ defines.named)
    have typed := counted.tracks.typed _ member
    cases cell with
    | counter v =>
      simp [seriesCount, checkSeries, Registry.summarizeSeries, Cell.summarize, named, isLast,
        isScenario, isName, isStatus, outcomeOf, Cell.counterValue, Cell.counter?]
    -- the metric is a counter
    | gauge v => cases typed
    | rate total hits => cases typed
    | histogram h => cases typed
  rw [counted.orderly.sum_summarize hdr ratio (isLast ▸ ample) defines others,
    List.map_congr_left each]
  exact (counted.totals _ (sameCount ▸ fits)).trans sameCount

end Readers

/-! ### The summary of a run -/

/-- The registry and the summary at the end of a run. -/
def finish (hdr : HdrHistogram H F) (ratio : UInt64 → UInt64 → F) (steps : List (Step H))
    (scenarioNames : List String) : Registry H × RunSummary F :=
  buildRunSummary hdr ratio (run hdr steps) metricIds scenarioNames

/-- What the reports and the exit code have to say about the checks of a run. -/
structure GateAgrees (checks : List Check) (thresholdsFailed : Bool) (summary : RunSummary F) :
    Prop where
  failed : ∀ s ∈ summary.scenarios,
    s.checksFailedTotal.toNat = outcomes checks s.scenario false ∧
      Query.countSum s.checksFailed = outcomes checks s.scenario false ∧
      ((parseChecksFromMetricSeries summary.metrics)[s.scenario]?.getD .zero).failed =
        s.checksFailedTotal
  json : ∀ scenario,
    let checksSummary := (parseChecksFromMetricSeries summary.metrics)[scenario]?.getD .zero
    checksSummary.passed.toNat + checksSummary.failed.toNat = checksSummary.total.toNat ∧
      checksSummary.total.toNat = checksOf checks scenario
  totals : (buildSummaryLine summary).totals.checksFailedTotal =
    (humanTotals summary).checksFailedTotal
  exit : (qualityGates summary thresholdsFailed = .checksFailed ∨
      qualityGates summary thresholdsFailed = .checksAndThresholdsFailed) ↔
    ∃ s ∈ summary.scenarios, ∃ check ∈ checks, check.scenario = s.scenario ∧ check.passed = false

theorem computeScenarioSummary_scenario (computer : MetricComputer) (r : Registry H) (name : String) :
    (computer.computeScenarioSummary hdr r name).2.scenario = name := rfl

/-- One summary, as computed on a registry with an interner in between. -/
structure Reported (computer : MetricComputer) (r : Registry H) (last : Interner)
    (s : ScenarioSummary F) (n : Interner) : Prop where
  since : Interner.Extends r.interner n
  later : Interner.Extends n last
  wf : r.interner.Wf → n.Wf
  knows : n.Knows s.scenario
  total : s.checksFailedTotal = (computeChecksFailed (r.withInterner n) computer.checksMetric
    computer.keys (n.idOf s.scenario)).1
  byName : s.checksFailed = (computeChecksFailed (r.withInterner n) computer.checksMetric
    computer.keys (n.idOf s.scenario)).2

theorem reported_computeScenarioSummary (computer : MetricComputer) (r : Registry H)
    (name : String) {last : Interner}
    (later : Interner.Extends (r.resolveKey name).1.interner last) :
    Reported computer r last (computer.computeScenarioSummary hdr r name).2
      (r.interner.getOrIntern name).1 := by
  have value := (Registry.resolveKey_spec name (Interner.Extends.refl (r.resolveKey name).1.interner)).1
  refine ⟨Interner.getOrIntern_extends r.interner name, later, fun wf => wf.getOrIntern name,
    Interner.knows_getOrIntern r.interner name, ?_, ?_⟩
  · exact congrArg (fun id => (computeChecksFailed _ _ _ id).1) value
  · exact congrArg (fun id => (computeChecksFailed _ _ _ id).2) value

theorem reported_self (computer : MetricComputer) (r : Registry H) (name : String) :
    Reported computer r (r.interner.getOrIntern name).1
      (computer.computeScenarioSummary hdr r name).2 (r.interner.getOrIntern name).1 :=
  reported_computeScenarioSummary computer r name (Interner.Extends.refl _)

variable (hdr) in
/-- The summaries of all scenarios change nothing but the interner. -/
theorem computeScenarioSummaries_spec (computer : MetricComputer) (names : List String)
    (r : Registry H) :
    (∃ n, (computeScenarioSummaries hdr computer r names).1 = r.withInterner n ∧
        Interner.Extends r.interner n ∧ (r.interner.Wf → n.Wf)) ∧
      ∀ s ∈ (computeScenarioSummaries hdr computer r names).2,
        ∃ n, Reported computer r (computeScenarioSummaries hdr computer r names).1.interner s n := by
  induction names generalizing r with
  | nil =>
    refine ⟨⟨r.interner, rfl, Interner.Extends.refl _, id⟩, ?_⟩
    intro s member
    cases member
  -- the first summary interns its name, the rest is computed from there
  | cons name rest ih =>
    let r₁ : Registry H := (r.resolveKey name).1
    obtain ⟨⟨n, isLast, ext, wf⟩, inRest⟩ := ih r₁
    have first : Interner.Extends r.interner r₁.interner :=
      Interner.getOrIntern_extends r.interner name
    refine ⟨⟨n, isLast, first.trans ext, fun wf₀ => wf (wf₀.getOrIntern name)⟩, ?_⟩
    intro s member
    rw [computeScenarioSummaries_cons] at member
    rcases List.mem_cons.mp member with rfl | later
    · have toLast : Interner.Extends r₁.interner
          (computeScenarioSummaries hdr computer r₁ rest).1.interner := by
        rw [isLast]
        exact ext
      exact ⟨_, reported_computeScenarioSummary computer r name toLast⟩
    · obtain ⟨m, reported⟩ := inRest s later
      exact ⟨m, first.trans reported.since, reported.later,
        fun wf₀ => reported.wf (wf₀.getOrIntern name), reported.knows, reported.total,
        reported.byName⟩

/-! ### Reports and the exit code -/

/-- The totals of both reports add up the same failed checks. -/
theorem totals_agree (summary : RunSummary F)
    (same : ∀ s ∈ summary.scenarios,
      ((parseChecksFromMetricSeries summary.metrics)[s.scenario]?.getD .zero).failed =
        s.checksFailedTotal) :
    (buildSummaryLine summary).totals.checksFailedTotal =
      (humanTotals summary).checksFailedTotal := by
  rw [buildSummaryLine, humanTotals]
  -- both reports run over the same list with the same saturation
  generalize parseChecksFromMetricSeries summary.metrics = byScenario at same ⊢
  generalize summary.scenarios = scenarios at same ⊢
  have loop (scenarios : List (ScenarioSummary F)) (json : JsonTotals) (human : Totals)
      (same : ∀ s ∈ scenarios, (byScenario[s.scenario]?.getD .zero).failed = s.checksFailedTotal)
      (start : json.checksFailedTotal = human.checksFailedTotal) :
      (scenarios.foldl (fun totals s => totals.add s byScenario[s.scenario]?)
          json).checksFailedTotal = (scenarios.foldl Totals.add human).checksFailedTotal := by
    induction scenarios generalizing json human with
    | nil => exact start
    | cons s rest ih =>
      apply ih _ _ fun later inRest => same later (List.mem_cons_of_mem _ inRest)
      have here := same s (List.mem_cons_self ..)
      simp only [JsonTotals.add, Totals.add, start]
      cases found : byScenario[s.scenario]? with
      -- here the JSON line takes the count of the summary itself
      | none => rfl
      | some checks =>
        rw [found] at here
        rw [Option.map_some, Option.getD_some]
        exact congrArg (Metrics.saturatingAdd _) here
  exact loop scenarios _ _ same rfl

theorem signals_iff (summary : RunSummary F) (thresholdsFailed : Bool) :
    (qualityGates summary thresholdsFailed = .checksFailed ∨
        qualityGates summary thresholdsFailed = .checksAndThresholdsFailed) ↔
      ∃ s ∈ summary.scenarios, 0 < s.checksFailedTotal.toNat := by
  have any : (summary.scenarios.any fun s => s.checksFailedTotal > 0) = true ↔
      ∃ s ∈ summary.scenarios, 0 < s.checksFailedTotal.toNat := by
    simp [UInt64.lt_iff_toNat_lt]
  rw [qualityGates, ← any]
  generalize (summary.scenarios.any fun s => s.checksFailedTotal > 0) = checksFailed
  cases checksFailed <;> cases thresholdsFailed <;> simp [ExitCode.fromQualityGates]

theorem outcomes_pos {checks : List Check} {scenario : String} {passed : Bool} :
    0 < outcomes checks scenario passed ↔
      ∃ check ∈ checks, check.scenario = scenario ∧ check.passed = passed := by
  simp [outcomes, List.countP_pos_iff]

/-! ### Agreement -/

section Agreement

variable (hdr : HdrHistogram H F) (ratio : UInt64 → UInt64 → F) (steps : List (Step H))
  (scenarioNames : List String)

theorem finish_eq :
    finish hdr ratio steps scenarioNames =
      let computed := computeScenarioSummaries hdr (summaryComputer (run hdr steps) metricIds)
        (TagKeys.new (run hdr steps)).1 scenarioNames
      (computed.1, ⟨computed.2, computed.1.summarize hdr ratio⟩) :=
  buildRunSummary_eq hdr ratio (run hdr steps) metricIds scenarioNames

/-- The keys of the computer change nothing but the interner. -/
theorem tagKeys_withInterner (r : Registry H) (n : Interner) :
    (TagKeys.new r).1.withInterner n = r.withInterner n := by
  rw [tagKeys_registry]
  rfl

theorem wf_run : (run hdr steps).interner.Wf := by
  rw [run]
  exact (evolves_foldl registered steps).interner.2 registered_catalog.interner

theorem extends_finish :
    Interner.Extends (run hdr steps).interner (finish hdr ratio steps scenarioNames).1.interner ∧
      (finish hdr ratio steps scenarioNames).1.interner.Wf ∧
      (finish hdr ratio steps scenarioNames).1 =
        (run hdr steps).withInterner (finish hdr ratio steps scenarioNames).1.interner := by
  obtain ⟨⟨n, isLast, ext, wf⟩, -⟩ := computeScenarioSummaries_spec hdr
    (summaryComputer (run hdr steps) metricIds) scenarioNames (TagKeys.new (run hdr steps)).1
  have keys := (evolves_tagKeys hdr (run hdr steps)).interner
  rw [finish_eq]
  dsimp only
  rw [isLast]
  exact ⟨keys.1.trans ext, wf (keys.2 (wf_run hdr steps)), tagKeys_withInterner _ n⟩

variable {hdr ratio steps scenarioNames}

theorem ample_finish
    (few : (finish hdr ratio steps scenarioNames).1.interner.vec.length ≤ 2 ^ 32) :
    (finish hdr ratio steps scenarioNames).1.interner.Ample :=
  ⟨(extends_finish hdr ratio steps scenarioNames).2.1, few⟩

theorem outcomes_fit (fits : ∀ scenario, checksOf (recordedChecks steps) scenario < 2 ^ 64)
    (scenario : String) (passed : Bool) :
    outcomes (recordedChecks steps) scenario passed < 2 ^ 64 := by
  have sum := outcomes_add (recordedChecks steps) scenario
  have bound := fits scenario
  cases passed <;> omega

/-- The JSON line reads the registry as it is at the end. -/
theorem holds_finish (lawful : hdr.Lawful)
    (few : (finish hdr ratio steps scenarioNames).1.interner.vec.length ≤ 2 ^ 32)
    (fits : ∀ scenario, checksOf (recordedChecks steps) scenario < 2 ^ 64) (scenario : String) :
    ((parseChecksFromMetricSeries
      (finish hdr ratio steps scenarioNames).2.metrics)[scenario]?.getD .zero).Holds
      (outcomes (recordedChecks steps) scenario true)
      (outcomes (recordedChecks steps) scenario false) := by
  have ample := ample_finish few
  obtain ⟨extLast, -, isRun⟩ := extends_finish hdr ratio steps scenarioNames
  have counted := (counted_run lawful steps extLast).withInterner extLast
  rw [← isRun] at counted
  -- the summaries of the series add up to the checks of either outcome
  have passed := sum_seriesCount counted ample rfl ratio scenario true
    (outcomes_fit fits scenario true)
  have failed := sum_seriesCount counted ample rfl ratio scenario false
    (outcomes_fit fits scenario false)
  have holds := holds_parseChecks
    ((finish hdr ratio steps scenarioNames).1.summarize hdr ratio) scenario (by
      rw [passed, failed, outcomes_add]
      exact fits scenario)
  rw [passed, failed] at holds
  exact holds

/-- Each summary was computed with the interner of its time. -/
theorem counts_finish (lawful : hdr.Lawful)
    (few : (finish hdr ratio steps scenarioNames).1.interner.vec.length ≤ 2 ^ 32)
    (fits : ∀ scenario, checksOf (recordedChecks steps) scenario < 2 ^ 64) :
    ∀ s ∈ (finish hdr ratio steps scenarioNames).2.scenarios,
      s.checksFailedTotal.toNat = outcomes (recordedChecks steps) s.scenario false ∧
        Query.countSum s.checksFailed = outcomes (recordedChecks steps) s.scenario false := by
  intro s member
  have ample := ample_finish few
  rw [finish_eq] at member ample
  obtain ⟨n, reported⟩ := (computeScenarioSummaries_spec hdr
    (summaryComputer (run hdr steps) metricIds) scenarioNames
    (TagKeys.new (run hdr steps)).1).2 s member
  have keys := (evolves_tagKeys hdr (run hdr steps)).interner
  have ext := keys.1.trans reported.since
  -- that interner came before the last one, so its ids were not reused either
  have ampleThere : n.Ample :=
    ample.of_extends (reported.wf (keys.2 (wf_run hdr steps))) reported.later
  have counted := (counted_run lawful steps ext).withInterner ext
  obtain ⟨⟨scenarioKey, -⟩, -, ⟨statusKey, -⟩, ⟨nameKey, -⟩, failKey, fail⟩ :=
    tagKeys_spec (run hdr steps) reported.since
  rw [reported.total, reported.byName, tagKeys_withInterner]
  exact computeChecksFailed_counts counted ampleThere rfl scenarioKey statusKey nameKey failKey
    fail reported.knows (outcomes_fit fits s.scenario false)

end Agreement

/-- After a run of at most 2^32 different strings and fewer than 2^64 checks of each scenario, every
report and the exit code say the same about the checks. -/
theorem checks_gate_agrees (lawful : hdr.Lawful) (ratio : UInt64 → UInt64 → F)
    (steps : List (Step H)) (scenarioNames : List String) (thresholdsFailed : Bool)
    (few : (finish hdr ratio steps scenarioNames).1.interner.vec.length ≤ 2 ^ 32)
    (fits : ∀ scenario, checksOf (recordedChecks steps) scenario < 2 ^ 64) :
    GateAgrees (recordedChecks steps) thresholdsFailed
      (finish hdr ratio steps scenarioNames).2 := by
  have json (scenario : String) := holds_finish lawful few fits scenario
  have query := counts_finish lawful few fits
  have agree : ∀ s ∈ (finish hdr ratio steps scenarioNames).2.scenarios,
      ((parseChecksFromMetricSeries
        (finish hdr ratio steps scenarioNames).2.metrics)[s.scenario]?.getD .zero).failed =
        s.checksFailedTotal := by
    intro s member
    apply UInt64.toNat_inj.mp
    rw [(json s.scenario).failed, (query s member).1]
  refine ⟨?_, ?_, totals_agree _ agree, ?_⟩
  · intro s member
    exact ⟨(query s member).1, (query s member).2, agree s member⟩
  · intro scenario
    have holds := json scenario
    refine ⟨?_, ?_⟩
    · rw [holds.passed, holds.failed, holds.total]
    · rw [holds.total, outcomes_add]
  -- the gate is open when some summary has a failed check
  · rw [signals_iff]
    constructor
    · rintro ⟨s, member, positive⟩
      rw [(query s member).1] at positive
      exact ⟨s, member, outcomes_pos.mp positive⟩
    · rintro ⟨s, member, failed⟩
      refine ⟨s, member, ?_⟩
      rw [(query s member).1]
      exact outcomes_pos.mpr failed

/-- Two scenarios, one of which sets reserved tags. -/
def reservedChecks : List (Step (List UInt64)) :=
  [.check ⟨"checkout", [("status", "pass"), ("group", "x"), ("region", "eu")]⟩ (some "pay")
      [some ("paid", some false), none, some ("fast", none), some ("paid", some true)],
    .register "basket" .gauge,
    .check ⟨"login", []⟩ none [some ("paid", some true)]]

theorem checks_gate_agrees_reserved_tags :
    GateAgrees (recordedChecks reservedChecks) true
        (finish HdrHistogram.exact (fun _ _ => 0) reservedChecks ["checkout", "login"]).2 ∧
      outcomes (recordedChecks reservedChecks) "checkout" false = 2 := by
  have few : (finish HdrHistogram.exact (fun _ _ => 0) reservedChecks
      ["checkout", "login"]).1.interner.vec.length ≤ 2 ^ 32 := by decide +kernel
  have fits (scenario : String) : checksOf (recordedChecks reservedChecks) scenario < 2 ^ 64 := by
    have bound : checksOf (recordedChecks reservedChecks) scenario ≤ 4 := List.countP_le_length
    omega
  exact ⟨checks_gate_agrees HdrHistogram.lawful_exact (fun _ _ => 0) reservedChecks
    ["checkout", "login"] true few fits, by decide⟩

/-! ### Reused ids -/

theorem asked_interner (r : Registry H) (name : String) :
    ((TagKeys.new r).1.interner.getOrIntern name).1 =
      r.interner.internAll ["scenario", "protocol", "status", "name", "fail", name] := by
  rw [tagKeys_registry]
  exact (Interner.internAll_append r.interner ["scenario", "protocol", "status", "name", "fail"]
    [name]).symm

section Asked

variable (hdr : HdrHistogram H F) (steps : List (Step H)) (name : String)

/-- The interner with which the failed checks of a single scenario are asked for. -/
def askedInterner : Interner := ((TagKeys.new (run hdr steps)).1.interner.getOrIntern name).1

/-- The filters of the query, whichever strings have the ids. -/
def askedFailed (n : Interner) (tags : TagSet) : Bool :=
  tags.get (n.idOf "scenario") = some (n.idOf name) &&
    tags.get (n.idOf "status") = some (n.idOf "fail")

theorem reported_asked :
    Reported (summaryComputer (run hdr steps) metricIds) (TagKeys.new (run hdr steps)).1
      (askedInterner hdr steps name)
      ((summaryComputer (run hdr steps) metricIds).computeScenarioSummary hdr
        (TagKeys.new (run hdr steps)).1 name).2
      (askedInterner hdr steps name) := by
  rw [askedInterner]
  exact reported_self _ _ name

variable {hdr steps name}

/-- The query counts what passes its filters, whether or not ids are reused. -/
theorem matching_of_agrees (lawful : hdr.Lawful) {ratio : UInt64 → UInt64 → F}
    {thresholdsFailed : Bool}
    (agrees : GateAgrees (recordedChecks steps) thresholdsFailed
      (finish hdr ratio steps [name]).2)
    (named : ∀ check ∈ recordedChecks steps,
      ((((askedInterner hdr steps name).tagSet check.pairs).get
        ((askedInterner hdr steps name).idOf "name")).bind
          (askedInterner hdr steps name).resolve).isSome)
    (fits : matchingChecks (askedInterner hdr steps name)
      (askedFailed name (askedInterner hdr steps name)) (recordedChecks steps) < 2 ^ 64) :
    matchingChecks (askedInterner hdr steps name) (askedFailed name (askedInterner hdr steps name))
      (recordedChecks steps) = outcomes (recordedChecks steps) name false := by
  have reported := reported_asked hdr steps name
  have ext := (evolves_tagKeys hdr (run hdr steps)).interner.1.trans reported.since
  have counted := (counted_run lawful steps ext).withInterner ext
  obtain ⟨⟨scenarioKey, -⟩, -, ⟨statusKey, -⟩, ⟨nameKey, -⟩, failKey, -⟩ :=
    tagKeys_spec (run hdr steps) reported.since
  have total := reported.total
  have member : ((summaryComputer (run hdr steps) metricIds).computeScenarioSummary hdr
      (TagKeys.new (run hdr steps)).1 name).2 ∈ (finish hdr ratio steps [name]).2.scenarios := by
    rw [finish_eq]
    dsimp only
    rw [computeScenarioSummaries_cons]
    exact List.mem_cons_self ..
  have claimed := (agrees.failed _ member).1
  rw [total, tagKeys_withInterner, computeScenarioSummary_scenario] at claimed
  clear agrees member total reported ext
  generalize askedInterner hdr steps name = n at *
  -- whatever strings the ids stand for, the query compares the ids
  have filters : failedOf (TagKeys.new (run hdr steps)).2 (n.idOf name) = askedFailed name n := by
    funext tags
    rw [failedOf, scenarioKey, statusKey, failKey, askedFailed]
  have holds := counted.totals _ fits
  have named (e : TagSet × Cell H)
      (visited : e ∈ ((run hdr steps).withInterner n).visitSeries metricIds.checks) :
      ((e.1.get (TagKeys.new (run hdr steps)).2.name).bind
        ((run hdr steps).withInterner n).resolveKeyId).isSome := by
    obtain ⟨check, recorded, isTags⟩ := counted.series e.1 (List.mem_map_of_mem visited)
    rw [← isTags, nameKey]
    exact named check recorded
  have below : total (failedOf (TagKeys.new (run hdr steps)).2 (n.idOf name)) Cell.counterValue
      (((run hdr steps).withInterner n).visitSeries metricIds.checks) < 2 ^ 64 := by
    rw [filters]
    exact holds ▸ fits
  have answered := (computeChecksFailed_spec below named).1
  rw [filters] at answered
  exact (holds.symm.trans answered.symm).trans claimed

end Asked

/-- A failed check of "A", then many other strings. -/
def crowdedCheck (m : Nat) : List (Step (List UInt64)) :=
  .check ⟨"A", []⟩ none [some ("ok", some false)] :: (crowd m).map .intern

/-- The check of the run. -/
def failedCheck : Check := ⟨⟨"A", []⟩, none, "ok", false⟩

/-- The strings of the run before the crowd. -/
def checkStrings : List String :=
  runMetrics.map Prod.fst ++ ["name", "ok", "status", "fail", "scenario", "A"]

/-- The interner with which the failed checks of "B" are asked for. -/
def crowdedInterner (m : Nat) : Interner := askedInterner HdrHistogram.exact (crowdedCheck m) "B"

/-- The strings of the run are those of the check and then those of the crowd. -/
theorem interner_run_crowdedCheck (m : Nat) :
    (run HdrHistogram.exact (crowdedCheck m)).interner =
      (registered : Registry (List UInt64)).interner.internAll
        (Interner.stringsOf failedCheck.pairs ++ crowd m) := by
  have interned (strings : List String) (r : Registry (List UInt64)) :
      ((strings.map Step.intern).foldl (Step.apply HdrHistogram.exact) r).interner =
        r.interner.internAll strings := by
    induction strings generalizing r with
    | nil => rfl
    | cons s rest ih => exact ih _
  -- the check interns its tags, then the crowd comes
  have checked (r : Registry (List UInt64)) :
      (Step.apply HdrHistogram.exact r (.check ⟨"A", []⟩ none [some ("ok", some false)])).interner =
        (r.interner.internPairs failedCheck.pairs).1 := by
    rw [Step.apply, runChecks_cons, runChecks_nil, record_interner]
    rfl
  rw [run, crowdedCheck, List.foldl_cons, interned, checked, Interner.internAll_append,
    ← Interner.internPairs_fst]

theorem wf_crowdedInterner (m : Nat) : (crowdedInterner m).Wf :=
  ((evolves_tagKeys HdrHistogram.exact (run HdrHistogram.exact (crowdedCheck m))).interner.2
    (wf_run HdrHistogram.exact _)).getOrIntern "B"

/-- The strings in the order of their ids: `"B"` is the one that comes after all others. -/
theorem vec_crowdedInterner (m : Nat) :
    (crowdedInterner m).vec = checkStrings ++ crowd m ++ ["protocol", "B"] := by
  have names : (registered : Registry (List UInt64)).interner.vec = runMetrics.map Prod.fst :=
    registered_catalog.names
  have all : crowdedInterner m =
      (registered : Registry (List UInt64)).interner.internAll
        (Interner.stringsOf failedCheck.pairs ++ crowd m ++
          ["scenario", "protocol", "status", "name", "fail", "B"]) := by
    rw [Interner.internAll_append, ← interner_run_crowdedCheck, crowdedInterner, askedInterner,
      asked_interner]
  have distinct : (checkStrings ++ crowd m ++ ["protocol", "B"]).Nodup := by
    have fixed : ∀ s ∈ checkStrings ++ ["protocol", "B"], s.toList.any (· != 'a') = true := by
      decide
    have nodup : (checkStrings ++ ["protocol", "B"]).Nodup := by decide
    rw [List.append_assoc, (List.perm_append_comm.append_left _).nodup_iff, ← List.append_assoc,
      List.nodup_append]
    refine ⟨nodup, nodup_crowd m, ?_⟩
    rintro s inFixed _ inCrowd rfl
    exact not_mem_crowd m (fixed s inFixed) inCrowd
  have before := (List.nodup_append.mp distinct).1
  have known : ∀ s ∈ ["scenario", "status", "name", "fail"], s ∈ checkStrings ++ crowd m := by
    intro s member
    apply List.mem_append_left
    revert member
    revert s
    decide
  -- all strings of the check are new
  have strings : (Interner.stringsOf failedCheck.pairs).foldl Interner.appendNew
      (runMetrics.map Prod.fst) = checkStrings := by decide
  rw [all, registered_catalog.interner.vec_internAll, names, List.foldl_append, List.foldl_append,
    strings, Interner.foldl_appendNew_of_nodup _ _ before]
  generalize checkStrings ++ crowd m = vec at *
  simp only [List.mem_cons, List.not_mem_nil, or_false, forall_eq_or_imp, forall_eq] at known
  obtain ⟨scenario, status, name, fail⟩ := known
  -- of the keys of the query only the protocol is new, and then the scenario
  have new : "protocol" ∉ vec ∧ "B" ∉ vec := by
    rw [List.nodup_append] at distinct
    exact ⟨fun member => distinct.2.2 _ member _ (by simp) rfl,
      fun member => distinct.2.2 _ member _ (by simp) rfl⟩
  simp [Interner.appendNew, scenario, status, name, fail, new]

/-- The ids of the strings before the crowd. -/
theorem idOf_checkStrings (m : Nat) {i : Nat} {s : String} (here : checkStrings[i]? = some s) :
    (crowdedInterner m).idOf s = UInt32.ofNat i := by
  apply (wf_crowdedInterner m).idOf_eq
  have low : i < checkStrings.length := (List.getElem?_eq_some_iff.mp here).1
  rw [vec_crowdedInterner, List.append_assoc, List.getElem?_append_left low]
  exact here

/-- "B" reuses the id of "A". -/
theorem idOf_B {m : Nat} (full : m + 2 = 2 ^ 32) : (crowdedInterner m).idOf "B" = 14 := by
  have number : (crowdedInterner m).idOf "B" = UInt32.ofNat (16 + m) := by
    apply (wf_crowdedInterner m).idOf_eq
    have length : (checkStrings ++ crowd m).length = 15 + m := by
      rw [List.length_append, crowd, List.length_map, List.length_range]
      rfl
    have last : 16 + m - (15 + m) = 1 := by omega
    rw [vec_crowdedInterner, List.getElem?_append_right (by omega), length, last]
    rfl
  -- the id wraps around to that of "A"
  have wraps : 16 + m = 2 ^ 32 + 14 := by omega
  rw [number, wraps]
  rfl

/-- The ids of the tags of the failed check are small. -/
theorem tagSet_failedCheck (m : Nat) :
    (crowdedInterner m).tagSet failedCheck.pairs = ⟨[(9, 10), (11, 12), (13, 14)]⟩ := by
  have pairs : failedCheck.pairs = [("name", "ok"), ("status", "fail"), ("scenario", "A")] := by
    decide
  have name : (crowdedInterner m).idOf "name" = 9 := idOf_checkStrings m (i := 9) rfl
  have ok : (crowdedInterner m).idOf "ok" = 10 := idOf_checkStrings m (i := 10) rfl
  have status : (crowdedInterner m).idOf "status" = 11 := idOf_checkStrings m (i := 11) rfl
  have fail : (crowdedInterner m).idOf "fail" = 12 := idOf_checkStrings m (i := 12) rfl
  have scenario : (crowdedInterner m).idOf "scenario" = 13 := idOf_checkStrings m (i := 13) rfl
  have first : (crowdedInterner m).idOf "A" = 14 := idOf_checkStrings m (i := 14) rfl
  rw [Interner.tagSet, pairs]
  simp only [List.map_cons, List.map_nil, Interner.idsOf, name, ok, status, fail, scenario, first]
  decide

theorem recordedChecks_crowdedCheck (m : Nat) : recordedChecks (crowdedCheck m) = [failedCheck] := by
  have none : ((crowd m).map (Step.intern (H := List UInt64))).flatMap Step.recorded = [] := by
    rw [List.flatMap_eq_nil_iff]
    rintro step member
    obtain ⟨key, -, rfl⟩ := List.mem_map.mp member
    rfl
  rw [recordedChecks, crowdedCheck, List.flatMap_cons, none]
  rfl

/-- With `2 ^ 32` strings before it, `"B"` gets the id of the scenario `"A"` again, and so its
failed check. -/
theorem misreported {m : Nat} (full : m + 2 = 2 ^ 32) (ratio : UInt64 → UInt64 → Float) :
    ¬ GateAgrees (recordedChecks (crowdedCheck m)) false
      (finish HdrHistogram.exact ratio (crowdedCheck m) ["B"]).2 := by
  intro agrees
  have tags := tagSet_failedCheck m
  have name : (crowdedInterner m).idOf "name" = 9 := idOf_checkStrings m (i := 9) rfl
  have status : (crowdedInterner m).idOf "status" = 11 := idOf_checkStrings m (i := 11) rfl
  have fail : (crowdedInterner m).idOf "fail" = 12 := idOf_checkStrings m (i := 12) rfl
  have scenario : (crowdedInterner m).idOf "scenario" = 13 := idOf_checkStrings m (i := 13) rfl
  have second := idOf_B full
  have resolved : (crowdedInterner m).resolve 10 = some "ok" := by
    rw [Interner.resolve, vec_crowdedInterner, List.append_assoc,
      List.getElem?_append_left (by decide)]
    rfl
  rw [crowdedInterner] at tags name status fail scenario second resolved
  -- the tags of the check of "A" pass the filters for "B"
  have passes : matchingChecks (askedInterner HdrHistogram.exact (crowdedCheck m) "B")
      (askedFailed "B" (askedInterner HdrHistogram.exact (crowdedCheck m) "B")) [failedCheck] = 1 := by
    have found : askedFailed "B" (askedInterner HdrHistogram.exact (crowdedCheck m) "B")
        ⟨[(9, 10), (11, 12), (13, 14)]⟩ = true := by
      rw [askedFailed, scenario, second, status, fail]
      decide
    rw [matchingChecks, List.countP_singleton, tags, found]
    rfl
  have all := matching_of_agrees HdrHistogram.lawful_exact agrees
  rw [recordedChecks_crowdedCheck, passes] at all
  have claimed := all (by
    intro check member
    rw [List.mem_singleton.mp member, tags, name]
    have get : TagSet.get ⟨[(9, 10), (11, 12), (13, 14)]⟩ 9 = some 10 := by decide
    rw [get, Option.bind_some, resolved]
    rfl) (by decide)
  exact absurd claimed (by decide)

/-- A failed check of "A" and 2^32 - 2 other strings are reported as a failed check of "B". -/
theorem gate_blames_other_scenario :
    (∀ scenario, checksOf (recordedChecks (crowdedCheck 4294967294)) scenario < 2 ^ 64) ∧
      ¬ GateAgrees (recordedChecks (crowdedCheck 4294967294)) false
        (finish HdrHistogram.exact (fun _ _ => 0) (crowdedCheck 4294967294) ["B"]).2 := by
  have fits (scenario : String) :
      checksOf (recordedChecks (crowdedCheck 4294967294)) scenario < 2 ^ 64 := by
    rw [recordedChecks_crowdedCheck]
    have bound : checksOf [failedCheck] scenario ≤ 1 := List.countP_le_length
    omega
  exact ⟨fits, misreported (by decide) (fun _ _ => 0)⟩

end Wrkr.Cli
