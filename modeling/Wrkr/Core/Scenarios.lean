import Mathlib.Tactic.SplitIfs
import Wrkr.Core.Config
import Wrkr.Lib.Fallible

/-!
# Resolving scenarios

`scenarios_from_options` merges the script's scenarios with its top-level options and with the
overrides of the command line. Whatever comes out passes the checks of its executor again
(`Resolved`), without the top-level options and overrides that it was made with.
-/
namespace Wrkr.Core

open Wrkr.Lib

/-- The stages one after the other. -/
def totalDuration (stages : List Stage) : Duration :=
  stages.foldl (fun acc st => acc.saturatingAdd st.duration) Duration.zero

/-- The largest target, zero without stages. -/
def maxTarget (stages : List Stage) : UInt64 :=
  ((stages.map Stage.target).max?).getD 0

section Resolve

variable (opts : ScriptOptions) (cfg : RunConfig)

/-- The constant VUs that the script asked for, or that the command line forces on a ramping
scenario. -/
def resolveConstantVus (s : ScenarioOptions) (exec : String) (metricsCtx : MetricsContext) :
    Except Error ScenarioConfig :=
  -- the command line, then the scenario, then the script
  let vus := ((cfg.vus.or s.vus).or opts.vus).getD 1
  let iterations := (cfg.iterations.or s.iterations).or opts.iterations
  let duration := (cfg.duration.or s.duration).or opts.duration
  if vus = 0 then .error .invalidVus
  else if iterations = some 0 then .error .invalidIterations
  else .ok ⟨exec, metricsCtx, .constantVus vus, iterations, duration⟩

/-- Refused with iterations, without stages, without a VU at any level, or when the stages last no
time. -/
def resolveRampingVus (s : ScenarioOptions) (exec : String) (metricsCtx : MetricsContext) :
    Except Error ScenarioConfig :=
  let startVus := s.startVus.getD 0
  let total := totalDuration s.stages
  if s.iterations.isSome ∨ opts.iterations.isSome then .error .invalidIterations
  else if s.stages = [] then .error .invalidStages
  else if Max.max (maxTarget s.stages) startVus = 0 then .error .invalidVus
  else if total.isZero then .error .invalidStages
  else .ok ⟨exec, metricsCtx, .rampingVus startVus s.stages, none, some total⟩

/-- Refused as ramping VUs are, and besides without a time unit, without pre-allocated VUs, or with
a maximum below them. -/
def resolveRampingArrivalRate (s : ScenarioOptions) (exec : String) (metricsCtx : MetricsContext) :
    Except Error ScenarioConfig :=
  let startRate := s.startRate.getD 0
  let timeUnit := s.timeUnit.getD (Duration.fromSecs 1)
  let preAllocatedVus := s.preAllocatedVus.getD 1
  -- without a maximum the pool does not grow
  let maxVus := s.maxVus.getD preAllocatedVus
  let total := totalDuration s.stages
  if s.iterations.isSome ∨ opts.iterations.isSome then .error .invalidIterations
  else if s.stages = [] then .error .invalidStages
  else if timeUnit.isZero then .error .invalidTimeUnit
  else if preAllocatedVus = 0 then .error .invalidPreAllocatedVus
  else if maxVus < preAllocatedVus then .error .invalidMaxVus
  else if total.isZero then .error .invalidStages
  else .ok ⟨exec, metricsCtx,
    .rampingArrivalRate startRate timeUnit preAllocatedVus maxVus s.stages, none, some total⟩

/-- The body of the loop over `opts.scenarios`. -/
def resolveScenario (s : ScenarioOptions) : Except Error ScenarioConfig :=
  let cliOverridesSet := cfg.vus.isSome || cfg.iterations.isSome || cfg.duration.isSome
  let exec := s.exec.getD "Default"
  let metricsCtx := ⟨s.name, s.tags⟩
  match ScenarioExecutorKind.fromStr (s.executor.getD "constant-vus") with
  | none => .error .invalidExecutor
  | some executorKind =>
    -- an override on the command line turns a ramping scenario into a constant one
    if cliOverridesSet && executorKind.isRamping then resolveConstantVus opts cfg s exec metricsCtx
    else match executorKind with
    | .constantVus => resolveConstantVus opts cfg s exec metricsCtx
    | .rampingVus => resolveRampingVus opts s exec metricsCtx
    | .rampingArrivalRate => resolveRampingArrivalRate opts s exec metricsCtx

/-- The one scenario of a script without `Options.scenarios`. -/
def resolveDefault : Except Error ScenarioConfig :=
  let vus := (cfg.vus.or opts.vus).getD 1
  -- one iteration unless the run is bounded by its duration
  let iterations := (cfg.iterations.or opts.iterations).or
    (if (cfg.duration.or opts.duration).isSome then none else some 1)
  let duration := cfg.duration.or opts.duration
  if vus = 0 then .error .invalidVus
  else if iterations = some 0 then .error .invalidIterations
  else .ok ⟨"Default", ⟨"Default", []⟩, .constantVus vus, iterations, duration⟩

/-- Each scenario of the script, or the default one if there is none. -/
def scenariosFromOptions : Except Error (List ScenarioConfig) :=
  if opts.scenarios ≠ [] then opts.scenarios.mapM (resolveScenario opts cfg)
  else (resolveDefault opts cfg).map ([·])

end Resolve

/-! ### What is resolved -/

/-- The checks of `scenarios_from_options`, and the fields that it derives from the others. -/
def Resolved (s : ScenarioConfig) : Prop :=
  match s.executor with
  | .constantVus vus => vus ≠ 0 ∧ s.iterations ≠ some 0
  | .rampingVus startVus stages =>
    stages ≠ [] ∧ Max.max (maxTarget stages) startVus ≠ 0 ∧ (totalDuration stages).isZero = false ∧
      s.iterations = none ∧ s.duration = some (totalDuration stages)
  | .rampingArrivalRate _ timeUnit preAllocatedVus maxVus stages =>
    stages ≠ [] ∧ timeUnit.isZero = false ∧ preAllocatedVus ≠ 0 ∧ ¬maxVus < preAllocatedVus ∧
      (totalDuration stages).isZero = false ∧ s.iterations = none ∧
      s.duration = some (totalDuration stages)

variable {opts : ScriptOptions} {cfg : RunConfig}

theorem resolveConstantVus_resolved {s : ScenarioOptions} {exec : String} {ctx : MetricsContext}
    {out : ScenarioConfig} (ok : resolveConstantVus opts cfg s exec ctx = .ok out) :
    Resolved out := by
  simp only [resolveConstantVus] at ok
  split_ifs at ok with vus iterations
  cases ok
  exact ⟨vus, iterations⟩

theorem resolveRampingVus_resolved {s : ScenarioOptions} {exec : String} {ctx : MetricsContext}
    {out : ScenarioConfig} (ok : resolveRampingVus opts s exec ctx = .ok out) : Resolved out := by
  simp only [resolveRampingVus] at ok
  split_ifs at ok with iterations stages vus total
  cases ok
  exact ⟨stages, vus, by simpa using total, rfl, rfl⟩

theorem resolveRampingArrivalRate_resolved {s : ScenarioOptions} {exec : String}
    {ctx : MetricsContext} {out : ScenarioConfig}
    (ok : resolveRampingArrivalRate opts s exec ctx = .ok out) : Resolved out := by
  simp only [resolveRampingArrivalRate] at ok
  split_ifs at ok with iterations stages timeUnit preAllocated most total
  cases ok
  exact ⟨stages, by simpa using timeUnit, preAllocated, most, by simpa using total, rfl, rfl⟩

/-- Whatever is resolved has passed the checks of its executor. -/
theorem resolveScenario_resolved {s : ScenarioOptions} {out : ScenarioConfig}
    (ok : resolveScenario opts cfg s = .ok out) : Resolved out := by
  simp only [resolveScenario] at ok
  split at ok
  · cases ok
  · split_ifs at ok
    · exact resolveConstantVus_resolved ok
    · split at ok
      · exact resolveConstantVus_resolved ok
      · exact resolveRampingVus_resolved ok
      · exact resolveRampingArrivalRate_resolved ok

theorem resolveDefault_resolved {out : ScenarioConfig} (ok : resolveDefault opts cfg = .ok out) :
    Resolved out := by
  simp only [resolveDefault] at ok
  -- only that the number of iterations is not zero matters
  generalize (cfg.iterations.or opts.iterations).or _ = iterations at ok
  split_ifs at ok with vus positive
  cases ok
  exact ⟨vus, positive⟩

/-- Every resolved scenario passes the checks of its own executor. -/
theorem scenariosFromOptions_resolved {scenarios : List ScenarioConfig}
    (ok : scenariosFromOptions opts cfg = .ok scenarios) :
    scenarios ≠ [] ∧ ∀ s ∈ scenarios, Resolved s := by
  rw [scenariosFromOptions] at ok
  split_ifs at ok with some
  -- a script with scenarios has as many resolved ones
  · constructor
    · rintro rfl
      exact some (List.forall₂_nil_right_iff.mp (mapM_eq_ok.mp ok))
    · intro s member
      obtain ⟨options, -, resolved⟩ := exists_of_mem_mapM ok member
      exact resolveScenario_resolved resolved
  · cases resolved : resolveDefault opts cfg with
    | error e =>
      rw [resolved] at ok
      cases ok
    | ok s =>
      rw [resolved] at ok
      cases ok
      simpa using resolveDefault_resolved resolved

/-! ### The contract with the runner -/

/-- What the gate, the pacer and the schedule of a scenario rely on. -/
def Runnable (s : ScenarioConfig) : Prop :=
  match s.executor with
  | .constantVus vus => 1 ≤ vus ∧ s.iterations ≠ some 0
  | .rampingVus startVus stages =>
    stages ≠ [] ∧ 1 ≤ Max.max (maxTarget stages) startVus ∧ s.iterations = none ∧
      s.duration = some (totalDuration stages) ∧ 0 < (totalDuration stages).nanos
  | .rampingArrivalRate _ timeUnit preAllocatedVus maxVus stages =>
    stages ≠ [] ∧ 0 < timeUnit.nanos ∧ 1 ≤ preAllocatedVus ∧ preAllocatedVus ≤ maxVus ∧
      s.iterations = none ∧ s.duration = some (totalDuration stages) ∧
      0 < (totalDuration stages).nanos

/-- The values of the command line that are there are the scenario's values. -/
def CliWins (cfg : RunConfig) (s : ScenarioConfig) : Prop :=
  (∀ vus, cfg.vus = some vus → s.executor = .constantVus vus) ∧
    (∀ iterations, cfg.iterations = some iterations → s.iterations = some iterations) ∧
    ∀ duration, cfg.duration = some duration → s.duration = some duration

/-- The kind without its values. -/
def ScenarioExecutor.kind : ScenarioExecutor → ScenarioExecutorKind
  | .constantVus _ => .constantVus
  | .rampingVus _ _ => .rampingVus
  | .rampingArrivalRate _ _ _ _ _ => .rampingArrivalRate

/-- The entry of a scenario of the script, under its own name, function and tags. -/
def EntryOf (options : ScenarioOptions) (s : ScenarioConfig) : Prop :=
  s.metricsCtx = ⟨options.name, options.tags⟩ ∧ s.exec = options.exec.getD "Default"

/-- The executor that the options name, by any of its aliases. -/
def NamesKind (options : ScenarioOptions) (s : ScenarioConfig) : Prop :=
  ScenarioExecutorKind.fromStr (options.executor.getD "constant-vus") = some s.executor.kind

theorem one_le_iff_ne_zero {n : UInt64} : 1 ≤ n ↔ n ≠ 0 := by
  rw [UInt64.le_iff_toNat_le, Ne, ← UInt64.toNat_inj]
  change 1 ≤ n.toNat ↔ ¬n.toNat = 0
  omega

theorem Duration.pos_of_isZero {d : Duration} (nonzero : d.isZero = false) : 0 < d.nanos := by
  simp only [Duration.isZero, beq_eq_false_iff_ne] at nonzero
  omega

/-- What has passed the checks can be run. -/
theorem runnable_of_resolved {s : ScenarioConfig} (resolved : Resolved s) : Runnable s := by
  obtain ⟨exec, ctx, executor, iterations, duration⟩ := s
  cases executor with
  | constantVus vus => exact ⟨one_le_iff_ne_zero.mpr resolved.1, resolved.2⟩
  | rampingVus startVus stages =>
    obtain ⟨some, vus, total, none, sum⟩ := resolved
    exact ⟨some, one_le_iff_ne_zero.mpr vus, none, sum, Duration.pos_of_isZero total⟩
  | rampingArrivalRate rate timeUnit preAllocated most stages =>
    obtain ⟨some, unit, pre, le, total, none, sum⟩ := resolved
    exact ⟨some, Duration.pos_of_isZero unit, one_le_iff_ne_zero.mpr pre, UInt64.not_lt.mp le,
      none, sum, Duration.pos_of_isZero total⟩

theorem resolveConstantVus_wins {s : ScenarioOptions} {exec : String} {ctx : MetricsContext}
    {out : ScenarioConfig} (ok : resolveConstantVus opts cfg s exec ctx = .ok out) :
    CliWins cfg out := by
  simp only [resolveConstantVus] at ok
  split_ifs at ok
  cases ok
  refine ⟨fun vus given => ?_, fun iterations given => ?_, fun duration given => ?_⟩ <;>
    simp [given]

/-- A constant executor, in the scenario's name. -/
theorem resolveConstantVus_entry {s : ScenarioOptions} {exec : String} {ctx : MetricsContext}
    {out : ScenarioConfig} (ok : resolveConstantVus opts cfg s exec ctx = .ok out) :
    out.metricsCtx = ctx ∧ out.exec = exec ∧ out.executor.kind = .constantVus := by
  simp only [resolveConstantVus] at ok
  split_ifs at ok
  cases ok
  exact ⟨rfl, rfl, rfl⟩

theorem resolveRampingVus_entry {s : ScenarioOptions} {exec : String} {ctx : MetricsContext}
    {out : ScenarioConfig} (ok : resolveRampingVus opts s exec ctx = .ok out) :
    out.metricsCtx = ctx ∧ out.exec = exec ∧ out.executor.kind = .rampingVus := by
  simp only [resolveRampingVus] at ok
  split_ifs at ok
  cases ok
  exact ⟨rfl, rfl, rfl⟩

theorem resolveRampingArrivalRate_entry {s : ScenarioOptions} {exec : String}
    {ctx : MetricsContext} {out : ScenarioConfig}
    (ok : resolveRampingArrivalRate opts s exec ctx = .ok out) :
    out.metricsCtx = ctx ∧ out.exec = exec ∧ out.executor.kind = .rampingArrivalRate := by
  simp only [resolveRampingArrivalRate] at ok
  split_ifs at ok
  cases ok
  exact ⟨rfl, rfl, rfl⟩

/-- Without an override the command line has nothing to win with. -/
theorem cliWins_of_no_override
    (no_override : (cfg.vus.isSome || cfg.iterations.isSome || cfg.duration.isSome) = false)
    (s : ScenarioConfig) : CliWins cfg s := by
  simp only [Bool.or_eq_false_iff, Option.isSome_eq_false_iff, Option.isNone_iff_eq_none]
    at no_override
  obtain ⟨⟨vus, iterations⟩, duration⟩ := no_override
  simp [CliWins, vus, iterations, duration]

/-- The command line overrides the scenario. -/
theorem resolveScenario_wins {s : ScenarioOptions} {out : ScenarioConfig}
    (ok : resolveScenario opts cfg s = .ok out) : CliWins cfg out := by
  simp only [resolveScenario] at ok
  split at ok
  · cases ok
  · rename_i kind named
    split_ifs at ok with override
    · exact resolveConstantVus_wins ok
    · cases kind with
      | constantVus => exact resolveConstantVus_wins ok
      -- a ramping executor is left only without an override
      | rampingVus => exact cliWins_of_no_override (by simpa [ScenarioExecutorKind.isRamping]
          using override) out
      | rampingArrivalRate => exact cliWins_of_no_override (by
          simpa [ScenarioExecutorKind.isRamping] using override) out

/-- The name, the function and the tags are those of the script. -/
theorem resolveScenario_entry {s : ScenarioOptions} {out : ScenarioConfig}
    (ok : resolveScenario opts cfg s = .ok out) : EntryOf s out := by
  simp only [resolveScenario] at ok
  split at ok
  · cases ok
  · rename_i kind named
    split_ifs at ok with override
    · exact ⟨(resolveConstantVus_entry ok).1, (resolveConstantVus_entry ok).2.1⟩
    · cases kind with
      | constantVus => exact ⟨(resolveConstantVus_entry ok).1, (resolveConstantVus_entry ok).2.1⟩
      | rampingVus => exact ⟨(resolveRampingVus_entry ok).1, (resolveRampingVus_entry ok).2.1⟩
      | rampingArrivalRate =>
        exact ⟨(resolveRampingArrivalRate_entry ok).1, (resolveRampingArrivalRate_entry ok).2.1⟩

/-- Without anything on the command line the executor is the one that was named. -/
theorem resolveScenario_kind {s : ScenarioOptions} {out : ScenarioConfig}
    (ok : resolveScenario opts {} s = .ok out) : NamesKind s out := by
  simp only [resolveScenario] at ok
  split at ok
  · cases ok
  · rename_i kind named
    simp only [Option.isSome_none, Bool.or_false, Bool.false_and, Bool.false_eq_true,
      if_false] at ok
    rw [NamesKind, named]
    cases kind with
    | constantVus => rw [(resolveConstantVus_entry ok).2.2]
    | rampingVus => rw [(resolveRampingVus_entry ok).2.2]
    | rampingArrivalRate => rw [(resolveRampingArrivalRate_entry ok).2.2]

/-- The command line overrides the options of the script as well. -/
theorem resolveDefault_wins {out : ScenarioConfig} (ok : resolveDefault opts cfg = .ok out) :
    CliWins cfg out := by
  simp only [resolveDefault] at ok
  -- the fallback for the iterations does not matter where the command line gives them
  generalize (if (cfg.duration.or opts.duration).isSome then none else some (1 : UInt64)) =
    fallback at ok
  split_ifs at ok
  cases ok
  refine ⟨fun vus given => ?_, fun iterations given => ?_, fun duration given => ?_⟩ <;>
    simp [given]

theorem resolveDefault_entry {out : ScenarioConfig} (ok : resolveDefault opts cfg = .ok out) :
    out.metricsCtx = ⟨"Default", []⟩ ∧ out.exec = "Default" ∧
      out.executor.kind = .constantVus := by
  simp only [resolveDefault] at ok
  generalize (cfg.iterations.or opts.iterations).or _ = iterations at ok
  split_ifs at ok
  cases ok
  exact ⟨rfl, rfl, rfl⟩

/-- One entry for each scenario of the script, or the default one; each can be run, carries the
values of the command line, and without any keeps the executor that it names. -/
theorem scenariosFromOptions_contract (opts : ScriptOptions) (cfg : RunConfig)
    (scenarios : List ScenarioConfig) (ok : scenariosFromOptions opts cfg = .ok scenarios) :
    (opts.scenarios ≠ [] → List.Forall₂ EntryOf opts.scenarios scenarios) ∧
    (opts.scenarios = [] → ∃ s, scenarios = [s] ∧ s.metricsCtx = ⟨"Default", []⟩ ∧
      s.exec = "Default" ∧ s.executor.kind = .constantVus) ∧
    (∀ s ∈ scenarios, Runnable s ∧ CliWins cfg s) ∧
    (cfg = {} → opts.scenarios ≠ [] → List.Forall₂ NamesKind opts.scenarios scenarios) := by
  have runnable : ∀ s ∈ scenarios, Runnable s := fun s member =>
    runnable_of_resolved ((scenariosFromOptions_resolved ok).2 s member)
  rw [scenariosFromOptions] at ok
  split_ifs at ok with some
  · have each := mapM_eq_ok.mp ok
    refine ⟨fun _ => each.imp fun _ _ => resolveScenario_entry, fun none => absurd none some,
      fun s member => ⟨runnable s member, ?_⟩, ?_⟩
    · obtain ⟨options, -, resolved⟩ := exists_of_mem_mapM ok member
      exact resolveScenario_wins resolved
    -- an override can change the kind, so this part is without any
    · rintro rfl -
      exact each.imp fun _ _ => resolveScenario_kind
  -- without scenarios there is one, made of the other options
  · cases resolved : resolveDefault opts cfg with
    | error e =>
      rw [resolved] at ok
      cases ok
    | ok s =>
      rw [resolved] at ok
      cases ok
      refine ⟨fun more => absurd more some, fun _ => ⟨s, rfl, resolveDefault_entry resolved⟩,
        fun other member => ⟨runnable other member, ?_⟩, fun _ more => absurd more some⟩
      rw [List.mem_singleton.mp member]
      exact resolveDefault_wins resolved

/-- A ramping scenario and one with a fixed number of VUs. -/
def rampThenHold : ScriptOptions where
  vus := some 2
  scenarios :=
    [{ name := "ramp", executor := some "ramping-vus", stages := [⟨.fromSecs 10, 5⟩] },
      { name := "hold", exec := some "Hold", duration := some (.fromSecs 3) }]

/-- Both scenarios are resolved in their order, with the executors that they name. With an override
of the command line the ramping one is constant and both have the overriding number of VUs. -/
theorem scenariosFromOptions_contract_ramp :
    (∃ scenarios, scenariosFromOptions rampThenHold {} = .ok scenarios ∧
        List.Forall₂ EntryOf rampThenHold.scenarios scenarios ∧
        List.Forall₂ NamesKind rampThenHold.scenarios scenarios ∧ ∀ s ∈ scenarios, Runnable s) ∧
      ∃ scenarios, scenariosFromOptions rampThenHold { vus := some 7 } = .ok scenarios ∧
        scenarios.map ScenarioConfig.executor = [.constantVus 7, .constantVus 7] ∧
        ∀ s ∈ scenarios, CliWins { vus := some 7 } s := by
  have plain : scenariosFromOptions rampThenHold {} =
      .ok [⟨"Default", ⟨"ramp", []⟩, .rampingVus 0 [⟨.fromSecs 10, 5⟩], none, some (.fromSecs 10)⟩,
        ⟨"Hold", ⟨"hold", []⟩, .constantVus 2, none, some (.fromSecs 3)⟩] := by decide
  have overridden : scenariosFromOptions rampThenHold { vus := some 7 } =
      .ok [⟨"Default", ⟨"ramp", []⟩, .constantVus 7, none, none⟩,
        ⟨"Hold", ⟨"hold", []⟩, .constantVus 7, none, some (.fromSecs 3)⟩] := by decide
  obtain ⟨entries, -, runnable, kinds⟩ := scenariosFromOptions_contract rampThenHold {} _ plain
  obtain ⟨-, -, wins, -⟩ :=
    scenariosFromOptions_contract rampThenHold { vus := some 7 } _ overridden
  have some_scenario : rampThenHold.scenarios ≠ [] := List.cons_ne_nil _ _
  exact ⟨⟨_, plain, entries some_scenario, kinds rfl some_scenario,
    fun s member => (runnable s member).1⟩, _, overridden, rfl, fun s member => (wins s member).2⟩

end Wrkr.Core
