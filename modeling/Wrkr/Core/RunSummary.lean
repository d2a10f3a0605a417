import Wrkr.Core.ScenarioSummary
import Wrkr.Metrics.Summary

/-!
# Run summaries

`build_run_summary` answers for every scenario of the run by queries and adds the list of all
series. Both read the same registry: in between only the names of scenarios are interned. The
failed checks of a scenario are grouped by the name of the check; the total is that of all groups,
and so is the sum over the names as long as every series of the counter has a name.
-/
namespace Wrkr.Core

open Wrkr.Lib Wrkr.Metrics Accounting

variable {H F : Type} (hdr : HdrHistogram H F) (ratio : UInt64 → UInt64 → F)

/-- The threshold violations of the summary are left out. -/
structure RunSummary (F : Type) where
  scenarios : List (ScenarioSummary F)
  metrics : List (MetricSeriesSummary F)

/-- The scenarios in the order in which they are given; each may intern its name. -/
def computeScenarioSummaries (computer : MetricComputer) (r : Registry H) :
    List String → Registry H × List (ScenarioSummary F)
  | [] => (r, [])
  | name :: rest =>
    let (r, summary) := computer.computeScenarioSummary hdr r name
    let (r, summaries) := computeScenarioSummaries computer r rest
    (r, summary :: summaries)

theorem computeScenarioSummaries_cons (computer : MetricComputer) (r : Registry H) (name : String)
    (rest : List String) :
    (computeScenarioSummaries hdr computer r (name :: rest)).2 =
      (computer.computeScenarioSummary hdr r name).2 ::
        (computeScenarioSummaries hdr computer (r.resolveKey name).1 rest).2 := rfl

/-- The scenarios first, then the metrics. -/
def buildRunSummary (r : Registry H) (ids : MetricIds) (scenarioNames : List String) :
    Registry H × RunSummary F :=
  let (r, computer) := MetricComputer.new r ids.request ids.iteration ids.checks
  let (r, scenarios) := computeScenarioSummaries hdr computer r scenarioNames
  (r, ⟨scenarios, r.summarize hdr ratio⟩)

/-- The computer of the summary. -/
def summaryComputer (r : Registry H) (ids : MetricIds) : MetricComputer :=
  ⟨ids.request, ids.iteration, ids.checks, (TagKeys.new r).2⟩

theorem buildRunSummary_eq (r : Registry H) (ids : MetricIds) (scenarioNames : List String) :
    buildRunSummary hdr ratio r ids scenarioNames =
      let computed := computeScenarioSummaries hdr (summaryComputer r ids) (TagKeys.new r).1
        scenarioNames
      (computed.1, ⟨computed.2, computed.1.summarize hdr ratio⟩) := rfl

/-! ### Failed checks -/

section ChecksFailed

variable (r : Registry H) (keys : TagKeys) (scenarioValue : KeyId)

/-- The filters of the failed checks. -/
def failedOf (tags : TagSet) : Bool :=
  tags.get keys.scenario = some scenarioValue && tags.get keys.status = some keys.fail

/-- One group of `compute_checks_failed`. -/
def addFailed (acc : UInt64 × HashTable String UInt64) (group : TagSet × UInt64) :
    UInt64 × HashTable String UInt64 :=
  (Metrics.saturatingAdd acc.1 group.2,
    match (group.1.get keys.name).bind r.resolveKeyId with
    | none => acc.2
    | some name => Query.addToGroup acc.2 name group.2)

/-- The failed checks of a scenario, grouped by the names of the checks. -/
def failedQuery (checksMetric : MetricId) : Query H :=
  (((r.query checksMetric).whereEq keys.scenario scenarioValue).whereEq keys.status
    keys.fail).groupBy [keys.name]

/-- The query and then a loop over its groups. -/
theorem computeChecksFailed_eq (checksMetric : MetricId) :
    computeChecksFailed r checksMetric keys scenarioValue =
      (failedQuery r keys scenarioValue checksMetric).sumCounter.entries.foldl (addFailed r keys)
        (0, HashTable.empty) := by
  rw [computeChecksFailed, failedQuery]
  congr 1
  funext acc group
  obtain ⟨total, byName⟩ := acc
  obtain ⟨tags, v⟩ := group
  simp only [addFailed]
  cases named : (tags.get keys.name).bind r.resolveKeyId with
  | none => rfl
  | some name =>
    simp only [Query.addToGroup]
    cases byName.get? name <;> rfl

theorem matchesTags_failedQuery (checksMetric : MetricId) (tags : TagSet) :
    (failedQuery r keys scenarioValue checksMetric).matchesTags tags =
      failedOf keys scenarioValue tags := by
  simp [failedQuery, Registry.query, Query.whereEq, Query.groupBy, Query.matchesTags, failedOf,
    TagFilter.matchesTags]

/-- A group keeps the name of its series. -/
theorem groupKey_failedQuery (checksMetric : MetricId) (tags : TagSet) :
    ((failedQuery r keys scenarioValue checksMetric).groupKey tags).get keys.name =
      tags.get keys.name := by
  have single : (failedQuery r keys scenarioValue checksMetric).groupKey tags =
      ⟨[keys.name].filterMap fun key => (tags.get key).map fun value => (key, value)⟩ := rfl
  rw [single, List.filterMap_cons]
  cases tags.get keys.name with
  | none => rfl
  | some value => simp [TagSet.get]

variable {r keys scenarioValue}

/-- The total and the sum over the names are both the total of the failed checks. -/
theorem computeChecksFailed_spec {checksMetric : MetricId}
    (fits : total (failedOf keys scenarioValue) Cell.counterValue (r.visitSeries checksMetric) <
      2 ^ 64)
    (named : ∀ e ∈ r.visitSeries checksMetric, ((e.1.get keys.name).bind r.resolveKeyId).isSome) :
    (computeChecksFailed r checksMetric keys scenarioValue).1.toNat =
        total (failedOf keys scenarioValue) Cell.counterValue (r.visitSeries checksMetric) ∧
      Query.countSum (computeChecksFailed r checksMetric keys scenarioValue).2 =
        total (failedOf keys scenarioValue) Cell.counterValue (r.visitSeries checksMetric) := by
  have filters : (failedQuery r keys scenarioValue checksMetric).matchesTags =
      failedOf keys scenarioValue := funext (matchesTags_failedQuery r keys scenarioValue checksMetric)
  have groups : Query.countSum (failedQuery r keys scenarioValue checksMetric).sumCounter =
      total (failedOf keys scenarioValue) Cell.counterValue (r.visitSeries checksMetric) := by
    rw [Query.countSum_sumCounter _ (by rw [filters]; exact fits), filters]
    rfl
  -- a group has the tags of one of its series, so it has a name as well
  have resolved (group : TagSet × UInt64)
      (member : group ∈ (failedQuery r keys scenarioValue checksMetric).sumCounter.entries) :
      ((group.1.get keys.name).bind r.resolveKeyId).isSome := by
    have inside := ((failedQuery r keys scenarioValue checksMetric).sumCounter.get?_eq_some_iff
      group.1 group.2).mpr member
    obtain ⟨e, visited, -, isGroup⟩ := Query.group_of_sumCounter (Option.isSome_of_eq_some inside)
    rw [← isGroup, groupKey_failedQuery]
    exact named e visited
  -- by induction on the groups: what is added to the total is added to one of the names
  have loop (entries : List (TagSet × UInt64)) (acc : UInt64 × HashTable String UInt64)
      (resolved : ∀ group ∈ entries, ((group.1.get keys.name).bind r.resolveKeyId).isSome)
      (same : acc.1.toNat = Query.countSum acc.2)
      (bounded : acc.1.toNat + (entries.map fun group => group.2.toNat).sum < 2 ^ 64) :
      let after := entries.foldl (addFailed r keys) acc
      after.1.toNat = acc.1.toNat + (entries.map fun group => group.2.toNat).sum ∧
        after.1.toNat = Query.countSum after.2 := by
    induction entries generalizing acc with
    | nil => exact ⟨rfl, same⟩
    | cons group rest ih =>
      rw [List.map_cons, List.sum_cons] at bounded ⊢
      obtain ⟨name, isName⟩ := Option.isSome_iff_exists.mp (resolved group (List.mem_cons_self ..))
      have total : (addFailed r keys acc group).1.toNat = acc.1.toNat + group.2.toNat := by
        rw [addFailed, saturatingAdd_toNat]
        omega
      have byName : Query.countSum (addFailed r keys acc group).2 =
          Query.countSum acc.2 + group.2.toNat := by
        rw [addFailed, isName]
        exact Query.countSum_addToGroup _ _ _ (by omega)
      obtain ⟨sum, equal⟩ := ih (addFailed r keys acc group)
        (fun later inRest => resolved later (List.mem_cons_of_mem _ inRest)) (by omega) (by omega)
      exact ⟨by rw [List.foldl_cons, sum, total]; omega, equal⟩
  rw [computeChecksFailed_eq]
  obtain ⟨sum, equal⟩ := loop _ (0, HashTable.empty) resolved rfl (by
    change 0 + Query.countSum (failedQuery r keys scenarioValue checksMetric).sumCounter < 2 ^ 64
    omega)
  rw [← equal, sum]
  have isTotal : 0 + Query.countSum (failedQuery r keys scenarioValue checksMetric).sumCounter =
      total (failedOf keys scenarioValue) Cell.counterValue (r.visitSeries checksMetric) := by
    omega
  exact ⟨isTotal, isTotal⟩

end ChecksFailed

end Wrkr.Core
