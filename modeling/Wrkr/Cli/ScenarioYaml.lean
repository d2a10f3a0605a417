import Wrkr.Core.Scenarios
import Wrkr.Lib.HashTable
import Wrkr.Lib.OrderedMap

/-!
# Scenario documents

`build_doc_from_resolved_scenarios` writes the resolved scenarios as a document,
`scenario_yaml_into_options` reads an entry of one back as the options of a scenario. Resolving
what was exported, without a command line, gives the same scenarios
(`exported_scenarios_reimport`). The text of the document is the serializer's: a document here is
the value that is written and read.
-/
namespace Wrkr.Cli

open Wrkr.Core Wrkr.Lib

/-- A duration with the format of the YAML files. -/
structure YamlDuration where
  intoInner : Duration
  deriving DecidableEq, Repr

structure StageYaml where
  target : UInt64
  duration : YamlDuration
  deriving DecidableEq, Repr

/-- A scenario as it stands in a file, where everything can be left out. -/
structure ScenarioYaml where
  name : Option String
  exec : Option String
  tags : Std.TreeMap String String
  executor : Option String
  vus : Option UInt64
  iterations : Option UInt64
  duration : Option YamlDuration
  startVus : Option UInt64
  stages : List StageYaml
  startRate : Option UInt64
  timeUnit : Option YamlDuration
  preAllocatedVus : Option UInt64
  maxVus : Option UInt64

/-- One expression, or a list of them. -/
inductive ThresholdExprYaml
  | one (expr : String)
  | many (exprs : List String)
  deriving DecidableEq, Repr

structure ScenarioDocYamlFlat where
  scenario : ScenarioYaml
  thresholds : Std.TreeMap String ThresholdExprYaml

structure ScenarioDocYamlMulti where
  scenarios : List ScenarioYaml
  thresholds : Std.TreeMap String ThresholdExprYaml

/-- A scenario of a file as options, with a name if it has none. -/
def scenarioYamlIntoOptions (scenario : ScenarioYaml) (defaultName : String) : ScenarioOptions where
  name := scenario.name.getD defaultName
  exec := scenario.exec
  -- a `BTreeMap` iterates in the order of its keys
  tags := scenario.tags.toList
  executor := scenario.executor
  vus := scenario.vus
  iterations := scenario.iterations
  duration := scenario.duration.map YamlDuration.intoInner
  startVus := scenario.startVus
  stages := scenario.stages.map fun s => ⟨s.duration.intoInner, s.target⟩
  startRate := scenario.startRate
  timeUnit := scenario.timeUnit.map YamlDuration.intoInner
  preAllocatedVus := scenario.preAllocatedVus
  maxVus := scenario.maxVus

/-! ### Export of thresholds -/

/-- The key of a threshold: the metric, and its tags in braces. -/
def renderMetricKey (metric : String) (tags : List (String × String)) : String :=
  if tags = [] then metric
  else metric ++ "\x7b" ++ String.intercalate "," (tags.map fun (k, v) => k ++ "=" ++ v) ++ "\x7d"

/-- A single expression is written without a list. -/
def renderExpressions (expressions : List String) : ThresholdExprYaml :=
  match expressions with
  | [expr] => .one expr
  | exprs => .many exprs

/-- Collected into a map by key, so of two sets with one key the later one is kept. -/
def renderThresholds (sets : List ThresholdSet) : Std.TreeMap String ThresholdExprYaml :=
  collect (sets.map fun s => (renderMetricKey s.metric s.tags, renderExpressions s.expressions))

/-! ### Import of thresholds -/

def ThresholdExprYaml.expressions : ThresholdExprYaml → List String
  | .one s => [s]
  | .many v => v

/-- One entry of `parse_thresholds_map`. -/
def parseThreshold : String × ThresholdExprYaml → Except String ThresholdSet
  | (metricKey, v) =>
    match parseThresholdMetricKey metricKey with
    | .error e => .error ("invalid threshold metric key `" ++ metricKey ++ "`: " ++ e)
    | .ok (metric, tags) =>
      if v.expressions = [] then
        .error ("invalid thresholds for `" ++ metricKey ++ "`: empty list")
      else .ok ⟨metric, tags, v.expressions⟩

/-- The keys are parsed in their order, up to the first that is none. -/
def parseThresholdsMap (raw : Std.TreeMap String ThresholdExprYaml) :
    Except String (List ThresholdSet) :=
  raw.toList.mapM parseThreshold

/-! ### Export of scenarios -/

def stageYaml (st : Stage) : StageYaml := ⟨st.target, ⟨st.duration⟩⟩

/-- The `scenario` of `build_doc_from_resolved_scenario`. -/
def resolvedScenarioYaml (s : ScenarioConfig) : ScenarioYaml :=
  let tags := collect s.metricsCtx.scenarioTags
  match s.executor with
  | .constantVus vus =>
    { name := some s.metricsCtx.scenario
      exec := some s.exec
      tags
      executor := some "constant-vus"
      vus := some vus
      iterations := s.iterations
      duration := s.duration.map YamlDuration.mk
      startVus := none
      stages := []
      startRate := none
      timeUnit := none
      preAllocatedVus := none
      maxVus := none }
  -- the duration of a ramping scenario is that of its stages, and is not written
  | .rampingVus startVus stages =>
    { name := some s.metricsCtx.scenario
      exec := some s.exec
      tags
      executor := some "ramping-vus"
      vus := none
      iterations := none
      duration := none
      startVus := some startVus
      stages := stages.map stageYaml
      startRate := none
      timeUnit := none
      preAllocatedVus := none
      maxVus := none }
  | .rampingArrivalRate startRate timeUnit preAllocatedVus maxVus stages =>
    { name := some s.metricsCtx.scenario
      exec := some s.exec
      tags
      executor := some "ramping-arrival-rate"
      vus := none
      iterations := none
      duration := none
      startVus := none
      stages := stages.map stageYaml
      startRate := some startRate
      timeUnit := some ⟨timeUnit⟩
      preAllocatedVus := some preAllocatedVus
      maxVus := some maxVus }

/-- One scenario, with the thresholds beside it. -/
def buildDocFromResolvedScenario (s : ScenarioConfig) (thresholds : List ThresholdSet) :
    ScenarioDocYamlFlat :=
  ⟨resolvedScenarioYaml s, renderThresholds thresholds⟩

def buildDocFromResolvedScenarios (scenarios : List ScenarioConfig)
    (thresholds : List ThresholdSet) : ScenarioDocYamlMulti :=
  ⟨scenarios.map fun s => (buildDocFromResolvedScenario s []).scenario,
    renderThresholds thresholds⟩

/-! ### Reimport -/

/-- The scenario with its tags in the order of the document. -/
def reordered (s : ScenarioConfig) : ScenarioConfig :=
  { s with metricsCtx := ⟨s.metricsCtx.scenario, (collect s.metricsCtx.scenarioTags).toList⟩ }

theorem stages_reimported (stages : List Stage) :
    stages.map ((fun s : StageYaml => (⟨s.duration.intoInner, s.target⟩ : Stage)) ∘ stageYaml) =
      stages :=
  List.map_id stages

/-- An exported scenario is resolved to itself: every check was passed before, and what was left
out of the document is derived again. -/
theorem resolveScenario_exported {s : ScenarioConfig} (resolved : Resolved s)
    (thresholds : List ThresholdSet) (defaultName : String) (scenarios : List ScenarioOptions) :
    resolveScenario { scenarios } {} (scenarioYamlIntoOptions
      (buildDocFromResolvedScenario s thresholds).scenario defaultName) = .ok (reordered s) := by
  obtain ⟨exec, ⟨name, tags⟩, executor, iterations, duration⟩ := s
  cases executor with
  | constantVus vus =>
    obtain ⟨some, positive⟩ := resolved
    have kind : ScenarioExecutorKind.fromStr "constant-vus" = .some .constantVus := by decide
    -- a duration is wrapped for the document and unwrapped again
    have same : (duration.map YamlDuration.mk).map YamlDuration.intoInner = duration := by
      cases duration <;> rfl
    simp [resolveScenario, scenarioYamlIntoOptions, buildDocFromResolvedScenario,
      resolvedScenarioYaml, kind, ScenarioExecutorKind.isRamping, resolveConstantVus, some,
      positive, same, reordered]
  | rampingVus startVus stages =>
    -- iterations and duration were derived, so they are not free
    obtain ⟨some, positive, total, rfl, rfl⟩ := resolved
    have kind : ScenarioExecutorKind.fromStr "ramping-vus" = .some .rampingVus := by decide
    simp [resolveScenario, scenarioYamlIntoOptions, buildDocFromResolvedScenario,
      resolvedScenarioYaml, kind, resolveRampingVus, stages_reimported, some, positive, total,
      reordered]
  | rampingArrivalRate startRate timeUnit preAllocatedVus maxVus stages =>
    obtain ⟨some, unit, positive, most, total, rfl, rfl⟩ := resolved
    have kind : ScenarioExecutorKind.fromStr "ramping-arrival-rate" = .some .rampingArrivalRate := by
      decide
    simp [resolveScenario, scenarioYamlIntoOptions, buildDocFromResolvedScenario,
      resolvedScenarioYaml, kind, resolveRampingArrivalRate, stages_reimported, some, unit,
      positive, most, total, reordered]

/-- The scenarios agree in everything but the order of their tags. -/
structure SameScenario (s s' : ScenarioConfig) : Prop where
  name : s'.metricsCtx.scenario = s.metricsCtx.scenario
  exec : s'.exec = s.exec
  executor : s'.executor = s.executor
  iterations : s'.iterations = s.iterations
  duration : s'.duration = s.duration
  tags (key : String) :
    s'.metricsCtx.scenarioTags.lookup key = s.metricsCtx.scenarioTags.lookup key

theorem sameScenario_reordered {s : ScenarioConfig}
    (distinct : (s.metricsCtx.scenarioTags.map Prod.fst).Nodup) : SameScenario s (reordered s) where
  name := rfl
  exec := rfl
  executor := rfl
  iterations := rfl
  duration := rfl
  tags := HashTable.lookup_perm distinct (toList_collect_perm distinct)

/-- Whatever the script options and the command line resolve to, its export resolves to the same
scenarios, in the same order, without either. -/
theorem exported_scenarios_reimport {o : ScriptOptions} {c : RunConfig} {scenarios : List ScenarioConfig}
    (resolved : scenariosFromOptions o c = .ok scenarios)
    (distinct : ∀ s ∈ scenarios, (s.metricsCtx.scenarioTags.map Prod.fst).Nodup)
    (thresholds : List ThresholdSet) (defaultName : Nat → String) :
    ∃ scenarios', scenariosFromOptions
        { scenarios := (buildDocFromResolvedScenarios scenarios thresholds).scenarios.mapIdx
            fun idx s => scenarioYamlIntoOptions s (defaultName idx) } {} = .ok scenarios' ∧
      List.Forall₂ SameScenario scenarios scenarios' := by
  obtain ⟨some, checked⟩ := scenariosFromOptions_resolved resolved
  refine ⟨scenarios.map reordered, ?_, ?_⟩
  · have nonempty : (buildDocFromResolvedScenarios scenarios thresholds).scenarios.mapIdx
        (fun idx s => scenarioYamlIntoOptions s (defaultName idx)) ≠ [] := by
      simpa [buildDocFromResolvedScenarios] using some
    -- place by place: the scenario at `i` is exported to the entry at `i`
    rw [scenariosFromOptions, if_pos nonempty, mapM_eq_ok, List.forall₂_iff_get]
    refine ⟨by simp [buildDocFromResolvedScenarios], fun i left right => ?_⟩
    have bound : i < scenarios.length := by simpa using right
    simp only [buildDocFromResolvedScenarios, List.get_eq_getElem, List.getElem_mapIdx,
      List.getElem_map]
    exact resolveScenario_exported (checked _ (List.getElem_mem bound)) _ _ _
  · rw [List.forall₂_map_right_iff, List.forall₂_same]
    exact fun s member => sameScenario_reordered (distinct s member)

/-- A ramping scenario with tags that `--vus 3` turns into a constant one. -/
theorem exported_scenario_reimports_overridden :
    ∃ scenarios', scenariosFromOptions
        { scenarios := (buildDocFromResolvedScenarios
            [⟨"Load", ⟨"peak", [("team", "web"), ("env", "ci")]⟩, .constantVus 3, none, none⟩]
            []).scenarios.mapIdx fun _ s => scenarioYamlIntoOptions s "main" } {} =
        .ok scenarios' ∧
      List.Forall₂ SameScenario
        [⟨"Load", ⟨"peak", [("team", "web"), ("env", "ci")]⟩, .constantVus 3, none, none⟩]
        scenarios' := by
  -- the override has won over the executor and the stages of the script
  have resolved : scenariosFromOptions
      { scenarios := [{
          name := "peak"
          exec := some "Load"
          tags := [("team", "web"), ("env", "ci")]
          executor := some "ramping-vus"
          stages := [⟨Duration.fromSecs 10, 5⟩] }] } { vus := some 3 } =
      .ok [⟨"Load", ⟨"peak", [("team", "web"), ("env", "ci")]⟩, .constantVus 3, none, none⟩] := by
    decide
  exact exported_scenarios_reimport resolved (by decide) [] fun _ => "main"

end Wrkr.Cli
