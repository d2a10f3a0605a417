import Wrkr.Core.RunSummary
import Wrkr.Lib.OrderedMap

/-!
# Reports and the exit code

The JSON line does not read the failed checks of a scenario off its summary: it regroups the series
of the counter `checks` by their strings, first by scenario, name, group and remaining tags, then by
scenario. The human totals and the exit code read the summaries.
-/
namespace Wrkr.Cli

open Wrkr.Lib Wrkr.Metrics Wrkr.Core

variable {F : Type}

/-! ### Checks of the JSON line -/

/-- What tells the series of checks apart. -/
structure SeriesKey where
  scenario : String
  name : String
  group : Option String
  tags : List (String × String)
  deriving DecidableEq, Repr

/-- How many checks of a series have passed and failed. -/
structure Acc where
  passed : UInt64
  failed : UInt64
  deriving DecidableEq, Repr

structure JsonCheckSeriesSummary where
  name : String
  group : Option String
  tags : Std.TreeMap String String
  passed : UInt64
  failed : UInt64

/-- The checks of a scenario, in total and by series. -/
structure JsonChecksSummary where
  total : UInt64
  passed : UInt64
  failed : UInt64
  bySeries : List JsonCheckSeriesSummary

def JsonChecksSummary.zero : JsonChecksSummary := ⟨0, 0, 0, []⟩

/-- What the loop over the tags of a series collects. -/
structure Labels where
  scenario : Option String
  name : Option String
  status : Option String
  group : Option String
  tags : List (String × String)
  deriving DecidableEq, Repr

/-- One step of the loop over the tags. -/
def Labels.read (labels : Labels) (tag : String × String) : Labels :=
  -- a later tag of the same key wins
  match tag.1 with
  | "scenario" => { labels with scenario := some tag.2 }
  | "name" => { labels with name := some tag.2 }
  | "status" => { labels with status := some tag.2 }
  | "group" => { labels with group := some tag.2 }
  | _ => { labels with tags := labels.tags ++ [tag] }

/-- The labels that are of interest, and the rest of the tags. -/
def Labels.of (tags : List (String × String)) : Labels :=
  tags.foldl Labels.read ⟨none, none, none, none, []⟩

/-- Pairs of strings in the order of `sort`. -/
def pairLe (a b : String × String) : Bool := a.1 < b.1 || a.1 == b.1 && a.2 ≤ b.2

/-- The key, the outcome and the count of a series of checks; other series are skipped. -/
def checkSeries (m : MetricSeriesSummary F) : Option (SeriesKey × String × UInt64) :=
  if m.name ≠ "checks" then none
  else if m.kind ≠ .counter then none
  else
    match m.values with
    -- a series without one of the three labels is skipped as well
    | .counter n => do
      let labels := Labels.of m.tags
      let scenario ← labels.scenario
      let name ← labels.name
      let status ← labels.status
      some (⟨scenario, name, labels.group, labels.tags.mergeSort pairLe⟩, status, n)
    | _ => none

/-- Counts saturate. -/
def Acc.add (acc : Acc) (status : String) (n : UInt64) : Acc :=
  match status with
  | "pass" => { acc with passed := Metrics.saturatingAdd acc.passed n }
  | "fail" => { acc with failed := Metrics.saturatingAdd acc.failed n }
  -- a status that is neither is dropped
  | _ => acc

/-- One turn of the loop over the metric series. -/
def addSeries (byKey : HashTable SeriesKey Acc) (m : MetricSeriesSummary F) :
    HashTable SeriesKey Acc :=
  match checkSeries m with
  | none => byKey
  | some (key, status, n) => byKey.insert key (((byKey.get? key).getD ⟨0, 0⟩).add status n)

/-- One entry of the table, under its scenario. -/
def addEntry (byScenario : Std.TreeMap String JsonChecksSummary) (entry : SeriesKey × Acc) :
    Std.TreeMap String JsonChecksSummary :=
  let series : JsonCheckSeriesSummary :=
    ⟨entry.1.name, entry.1.group, collect entry.1.tags, entry.2.passed, entry.2.failed⟩
  -- `or_insert_with`: a scenario starts from zero
  let summary := byScenario[entry.1.scenario]?.getD .zero
  byScenario.insert entry.1.scenario
    { passed := Metrics.saturatingAdd summary.passed series.passed
      failed := Metrics.saturatingAdd summary.failed series.failed
      total := Metrics.saturatingAdd summary.total
        (Metrics.saturatingAdd series.passed series.failed)
      bySeries := summary.bySeries ++ [series] }

/-- The key that the series of a scenario are sorted by. -/
def JsonCheckSeriesSummary.sortKey (series : JsonCheckSeriesSummary) : String × String × String :=
  (series.name, series.group.getD "",
    ",".intercalate (series.tags.toList.map fun (k, v) => k ++ "=" ++ v))

/-- The order of the series: by name, then by group, then by the other tags. -/
def seriesLe (a b : JsonCheckSeriesSummary) : Bool :=
  let (name, group, tags) := a.sortKey
  let (name', group', tags') := b.sortKey
  name < name' || name == name' && (group < group' || group == group' && tags ≤ tags')

def JsonChecksSummary.sorted (summary : JsonChecksSummary) : JsonChecksSummary :=
  { summary with bySeries := summary.bySeries.mergeSort seriesLe }

/-- Two passes: the counters are added up by series, and the series by scenario. -/
def parseChecksFromMetricSeries (series : List (MetricSeriesSummary F)) :
    Std.TreeMap String JsonChecksSummary :=
  let byKey := series.foldl addSeries HashTable.empty
  (byKey.entries.foldl addEntry ∅).map fun _ summary => summary.sorted

/-! ### The JSON line -/

/-- The executor and the latencies are left out. -/
structure JsonScenarioSummary where
  scenario : String
  requestsTotal : UInt64
  failedRequestsTotal : UInt64
  bytesReceivedTotal : UInt64
  bytesSentTotal : UInt64
  iterationsTotal : UInt64
  checks : Option JsonChecksSummary

structure JsonTotals where
  requestsTotal : UInt64
  failedRequestsTotal : UInt64
  bytesReceivedTotal : UInt64
  bytesSentTotal : UInt64
  iterationsTotal : UInt64
  checksFailedTotal : UInt64
  deriving DecidableEq, Repr

structure JsonSummaryLine where
  scenarios : List JsonScenarioSummary
  totals : JsonTotals

/-- A scenario on the totals, with the failed checks that the JSON line reports for it. -/
def JsonTotals.add (totals : JsonTotals) (s : ScenarioSummary F)
    (checks : Option JsonChecksSummary) : JsonTotals where
  requestsTotal := Metrics.saturatingAdd totals.requestsTotal s.requestsTotal
  failedRequestsTotal := Metrics.saturatingAdd totals.failedRequestsTotal s.failedRequestsTotal
  bytesReceivedTotal := Metrics.saturatingAdd totals.bytesReceivedTotal s.bytesReceivedTotal
  bytesSentTotal := Metrics.saturatingAdd totals.bytesSentTotal s.bytesSentTotal
  iterationsTotal := Metrics.saturatingAdd totals.iterationsTotal s.iterationsTotal
  -- without checks in the series the count of the summary stands in
  checksFailedTotal := Metrics.saturatingAdd totals.checksFailedTotal
    ((checks.map JsonChecksSummary.failed).getD s.checksFailedTotal)

/-- The scenarios with their checks, and the totals over all of them. -/
def buildSummaryLine (summary : RunSummary F) : JsonSummaryLine :=
  let checksByScenario := parseChecksFromMetricSeries summary.metrics
  { scenarios := summary.scenarios.map fun s =>
      { scenario := s.scenario
        requestsTotal := s.requestsTotal
        failedRequestsTotal := s.failedRequestsTotal
        bytesReceivedTotal := s.bytesReceivedTotal
        bytesSentTotal := s.bytesSentTotal
        iterationsTotal := s.iterationsTotal
        checks := checksByScenario[s.scenario]? }
    totals := summary.scenarios.foldl (fun totals s => totals.add s checksByScenario[s.scenario]?)
      ⟨0, 0, 0, 0, 0, 0⟩ }

/-! ### The human totals -/

structure Totals where
  requestsTotal : UInt64
  failedRequestsTotal : UInt64
  bytesReceivedTotal : UInt64
  bytesSentTotal : UInt64
  iterationsTotal : UInt64
  checksFailedTotal : UInt64
  deriving DecidableEq, Repr

/-- One turn of the loop of the human summary. -/
def Totals.add (totals : Totals) (s : ScenarioSummary F) : Totals where
  requestsTotal := Metrics.saturatingAdd totals.requestsTotal s.requestsTotal
  failedRequestsTotal := Metrics.saturatingAdd totals.failedRequestsTotal s.failedRequestsTotal
  bytesReceivedTotal := Metrics.saturatingAdd totals.bytesReceivedTotal s.bytesReceivedTotal
  bytesSentTotal := Metrics.saturatingAdd totals.bytesSentTotal s.bytesSentTotal
  iterationsTotal := Metrics.saturatingAdd totals.iterationsTotal s.iterationsTotal
  checksFailedTotal := Metrics.saturatingAdd totals.checksFailedTotal s.checksFailedTotal

/-- The totals at the end of the human summary. -/
def humanTotals (summary : RunSummary F) : Totals :=
  summary.scenarios.foldl Totals.add ⟨0, 0, 0, 0, 0, 0⟩

/-! ### Exit codes -/

/-- The exit codes of the command line. -/
inductive ExitCode
  | success
  | checksFailed
  | thresholdsFailed
  | checksAndThresholdsFailed
  | scriptError
  | invalidInput
  | runtimeError
  deriving DecidableEq, Repr

namespace ExitCode

/-- Checks and thresholds that have failed make a code of their own together. -/
def fromQualityGates (checksFailed thresholdsFailed : Bool) : ExitCode :=
  match checksFailed, thresholdsFailed with
  | false, false => .success
  | true, false => .checksFailed
  | false, true => .thresholdsFailed
  | true, true => .checksAndThresholdsFailed

end ExitCode

/-- The end of `run`; whether a threshold is violated is not read off the summary here. -/
def qualityGates (summary : RunSummary F) (thresholdsFailed : Bool) : ExitCode :=
  .fromQualityGates (summary.scenarios.any fun s => s.checksFailedTotal > 0) thresholdsFailed

/-! ### Labels -/

theorem Labels.scenario_read (labels : Labels) (tag : String × String) :
    (labels.read tag).scenario = if tag.1 = "scenario" then some tag.2 else labels.scenario := by
  rw [Labels.read]
  split <;> simp_all

theorem Labels.name_read (labels : Labels) (tag : String × String) :
    (labels.read tag).name = if tag.1 = "name" then some tag.2 else labels.name := by
  rw [Labels.read]
  split <;> simp_all

theorem Labels.status_read (labels : Labels) (tag : String × String) :
    (labels.read tag).status = if tag.1 = "status" then some tag.2 else labels.status := by
  rw [Labels.read]
  split <;> simp_all

/-- A label is the last value of its key. -/
theorem Labels.foldl_read {label : Labels → Option String} {key : String}
    (reads : ∀ labels tag, label (labels.read tag) = if tag.1 = key then some tag.2 else label labels)
    (tags : List (String × String)) (labels : Labels) :
    label (tags.foldl Labels.read labels) =
      ((HashTable.lastWith Prod.fst key tags).map Prod.snd).or (label labels) := by
  induction tags generalizing labels with
  | nil => rfl
  | cons tag rest ih =>
    rw [List.foldl_cons, ih, reads, HashTable.lastWith]
    -- the rest of the tags decides, and the first one only if the key is not among them
    cases HashTable.lastWith Prod.fst key rest with
    | some later => rfl
    | none => split <;> rfl

/-- With different keys it is the value of its key. -/
theorem Labels.of_mem {label : Labels → Option String} {key value : String}
    {tags : List (String × String)} (distinct : (tags.map Prod.fst).Nodup)
    (reads : ∀ labels tag, label (labels.read tag) = if tag.1 = key then some tag.2 else label labels)
    (member : (key, value) ∈ tags) : label (Labels.of tags) = some value := by
  have found := HashTable.lastWith_of_nodup Prod.fst distinct member
  rw [Labels.of, Labels.foldl_read reads, found]
  rfl

/-! ### What the regrouping counts -/

def Acc.count (acc : Acc) (passed : Bool) : UInt64 := if passed then acc.passed else acc.failed

/-- The checks of a scenario with an outcome that a series holds. -/
def seriesCount (scenario : String) (passed : Bool) (m : MetricSeriesSummary F) : Nat :=
  match checkSeries m with
  | none => 0
  | some (key, status, n) =>
    if key.scenario = scenario ∧ status = (if passed then "pass" else "fail") then n.toNat else 0

/-- The checks of a scenario with an outcome that an entry of the table holds. -/
def keyCount (scenario : String) (passed : Bool) (key : SeriesKey) (acc : Acc) : Nat :=
  if key.scenario = scenario then (acc.count passed).toNat else 0

theorem Acc.count_add (acc : Acc) (status : String) (n : UInt64) (passed : Bool) :
    (acc.add status n).count passed =
      if status = (if passed then "pass" else "fail") then Metrics.saturatingAdd (acc.count passed) n
      else acc.count passed := by
  by_cases pass : status = "pass"
  · subst pass
    cases passed <;> simp [Acc.add, Acc.count]
  · by_cases fail : status = "fail"
    · subst fail
      cases passed <;> simp [Acc.add, Acc.count]
    · cases passed <;> simp [Acc.add, pass, fail]

section Regrouping

variable {scenario : String}

/-- A series adds its count to the table, whether its key is there already or not. -/
theorem sumOf_addSeries {passed : Bool} (byKey : HashTable SeriesKey Acc)
    (m : MetricSeriesSummary F)
    (fits : byKey.sumOf (keyCount scenario passed) + seriesCount scenario passed m < 2 ^ 64) :
    (addSeries byKey m).sumOf (keyCount scenario passed) =
      byKey.sumOf (keyCount scenario passed) + seriesCount scenario passed m := by
  rw [addSeries]
  rw [seriesCount] at fits ⊢
  cases read : checkSeries m with
  | none => rfl
  | some check =>
    obtain ⟨key, status, n⟩ := check
    rw [read] at fits
    dsimp only at fits ⊢
    -- the insert trades what the key held for the same with the count on top
    have traded := byKey.sumOf_insert (keyCount scenario passed) key
      (((byKey.get? key).getD ⟨0, 0⟩).add status n)
    have held : ((byKey.get? key).map (keyCount scenario passed key)).getD 0 =
        keyCount scenario passed key ((byKey.get? key).getD ⟨0, 0⟩) := by
      cases byKey.get? key with
      | none => cases passed <;> simp [keyCount, Acc.count]
      | some acc => rfl
    -- the entry is part of the sum, so its counter is far from saturation
    have within : keyCount scenario passed key ((byKey.get? key).getD ⟨0, 0⟩) ≤
        byKey.sumOf (keyCount scenario passed) := by
      cases found : byKey.get? key with
      | none => cases passed <;> simp [keyCount, Acc.count]
      | some acc => exact HashTable.weight_le_sumOf found _
    have added : keyCount scenario passed key (((byKey.get? key).getD ⟨0, 0⟩).add status n) =
        keyCount scenario passed key ((byKey.get? key).getD ⟨0, 0⟩) +
          if key.scenario = scenario ∧ status = (if passed then "pass" else "fail") then n.toNat
          else 0 := by
      simp only [keyCount, Acc.count_add] at within ⊢
      -- the count goes on top only for this scenario and this outcome
      by_cases here : key.scenario = scenario
      · by_cases word : status = (if passed then "pass" else "fail")
        · simp only [here, word, and_self, ↓reduceIte] at fits within ⊢
          rw [saturatingAdd_toNat]
          omega
        · simp only [here, word, and_false, ↓reduceIte, Nat.add_zero]
      · simp only [here, false_and, ↓reduceIte, Nat.add_zero]
    rw [held, added] at traded
    omega

/-- The whole loop, as long as nothing saturates. -/
theorem sumOf_foldl_addSeries {passed : Bool} (series : List (MetricSeriesSummary F))
    (byKey : HashTable SeriesKey Acc)
    (fits : byKey.sumOf (keyCount scenario passed) +
      (series.map (seriesCount scenario passed)).sum < 2 ^ 64) :
    (series.foldl addSeries byKey).sumOf (keyCount scenario passed) =
      byKey.sumOf (keyCount scenario passed) + (series.map (seriesCount scenario passed)).sum := by
  induction series generalizing byKey with
  | nil => rfl
  | cons m rest ih =>
    rw [List.map_cons, List.sum_cons] at fits ⊢
    -- the bound on the whole sum covers the first series
    have step : (addSeries byKey m).sumOf (keyCount scenario passed) =
        byKey.sumOf (keyCount scenario passed) + seriesCount scenario passed m :=
      sumOf_addSeries byKey m (by omega)
    rw [List.foldl_cons, ih _ (by omega), step]
    omega

/-- A summary with these counts. -/
structure JsonChecksSummary.Holds (summary : JsonChecksSummary) (passes fails : Nat) : Prop where
  passed : summary.passed.toNat = passes
  failed : summary.failed.toNat = fails
  total : summary.total.toNat = passes + fails

/-- A series adds its counts to its scenario, and nothing to the others. -/
theorem holds_addEntry {byScenario : Std.TreeMap String JsonChecksSummary} {passed failed : Nat}
    (holds : (byScenario[scenario]?.getD .zero).Holds passed failed) (entry : SeriesKey × Acc)
    (fits : passed + keyCount scenario true entry.1 entry.2 +
      (failed + keyCount scenario false entry.1 entry.2) < 2 ^ 64) :
    ((addEntry byScenario entry)[scenario]?.getD .zero).Holds
      (passed + keyCount scenario true entry.1 entry.2)
      (failed + keyCount scenario false entry.1 entry.2) := by
  rw [addEntry, Std.TreeMap.getElem?_insert]
  -- an entry of another scenario leaves the lookup alone
  by_cases here : entry.1.scenario = scenario
  · subst here
    simp only [Std.compare_self, keyCount, Acc.count, ↓reduceIte, Option.getD_some,
      Bool.false_eq_true] at fits ⊢
    obtain ⟨isPassed, isFailed, isTotal⟩ := holds
    refine ⟨?_, ?_, ?_⟩
    · rw [saturatingAdd_toNat]
      omega
    · rw [saturatingAdd_toNat]
      omega
    · rw [saturatingAdd_toNat, saturatingAdd_toNat]
      omega
  · have other : compare entry.1.scenario scenario ≠ .eq := by
      simpa using here
    simp only [keyCount, here, other, ↓reduceIte, Nat.add_zero]
    exact holds

/-- The whole second pass. -/
theorem holds_foldl_addEntry (entries : List (SeriesKey × Acc))
    {byScenario : Std.TreeMap String JsonChecksSummary} {passed failed : Nat}
    (holds : (byScenario[scenario]?.getD .zero).Holds passed failed)
    (fits : passed + (entries.map fun e => keyCount scenario true e.1 e.2).sum +
      (failed + (entries.map fun e => keyCount scenario false e.1 e.2).sum) < 2 ^ 64) :
    ((entries.foldl addEntry byScenario)[scenario]?.getD .zero).Holds
      (passed + (entries.map fun e => keyCount scenario true e.1 e.2).sum)
      (failed + (entries.map fun e => keyCount scenario false e.1 e.2).sum) := by
  -- by induction on the entries, with the counts so far generalised
  induction entries generalizing byScenario passed failed with
  | nil => exact holds
  | cons entry rest ih =>
    simp only [List.map_cons, List.sum_cons, ← Nat.add_assoc] at fits ⊢
    have step := holds_addEntry holds entry (by omega)
    exact ih step (by omega)

/-- The JSON line counts the checks of a scenario in all series of the list. -/
theorem holds_parseChecks (series : List (MetricSeriesSummary F)) (scenario : String)
    (fits : (series.map (seriesCount scenario true)).sum +
      (series.map (seriesCount scenario false)).sum < 2 ^ 64) :
    ((parseChecksFromMetricSeries series)[scenario]?.getD .zero).Holds
      (series.map (seriesCount scenario true)).sum
      (series.map (seriesCount scenario false)).sum := by
  -- first table: by key, exact for both outcomes
  have grouped (passed : Bool) (fits : (series.map (seriesCount scenario passed)).sum < 2 ^ 64) :
      (series.foldl addSeries HashTable.empty).sumOf (keyCount scenario passed) =
        (series.map (seriesCount scenario passed)).sum := by
    rw [sumOf_foldl_addSeries series _ (by simpa using fits), HashTable.sumOf_empty, Nat.zero_add]
  have isPassed := grouped true (by omega)
  have isFailed := grouped false (by omega)
  have empty : ((∅ : Std.TreeMap String JsonChecksSummary)[scenario]?.getD .zero).Holds 0 0 := by
    rw [Std.TreeMap.getElem?_emptyc]
    exact ⟨rfl, rfl, rfl⟩
  -- second table: by scenario
  have unsorted := holds_foldl_addEntry
    (series.foldl addSeries HashTable.empty).entries empty (by
      rw [HashTable.sumOf] at isPassed isFailed
      omega)
  rw [← HashTable.sumOf.eq_def, ← HashTable.sumOf.eq_def, isPassed, isFailed, Nat.zero_add,
    Nat.zero_add] at unsorted
  rw [parseChecksFromMetricSeries, Std.TreeMap.getElem?_map]
  -- sorting the series of a scenario leaves its counts alone
  cases found : ((series.foldl addSeries HashTable.empty).entries.foldl addEntry
      ∅)[scenario]? with
  | none =>
    rw [found] at unsorted
    exact unsorted
  | some summary =>
    rw [found] at unsorted
    exact ⟨unsorted.passed, unsorted.failed, unsorted.total⟩

end Regrouping

end Wrkr.Cli
