import Wrkr.Core.MetricsContext
import Wrkr.Core.Thresholds

/-!
# Run configuration

The options of a script, the overrides of the command line, and the scenarios that both resolve
to.
-/
namespace Wrkr.Core

/-- `std::time::Duration` in nanoseconds: `u64` seconds and fewer than 10⁹ nanoseconds. -/
structure Duration where
  nanos : Nat
  bounded : nanos < 2 ^ 64 * 10 ^ 9
  deriving DecidableEq, Repr

namespace Duration

def zero : Duration := ⟨0, by decide⟩

def max : Duration := ⟨2 ^ 64 * 10 ^ 9 - 1, by decide⟩

def fromSecs (secs : UInt64) : Duration := ⟨secs.toNat * 10 ^ 9, by have := secs.toNat_lt; omega⟩

/-- `Duration::saturating_add`, which stops at the largest duration. -/
def saturatingAdd (a b : Duration) : Duration :=
  if bounded : a.nanos + b.nanos < 2 ^ 64 * 10 ^ 9 then ⟨a.nanos + b.nanos, bounded⟩ else max

/-- `Duration::saturating_sub`, which stops at zero. -/
def saturatingSub (a b : Duration) : Duration :=
  ⟨a.nanos - b.nanos, lt_of_le_of_lt (Nat.sub_le _ _) a.bounded⟩

def fromMillis (millis : UInt64) : Duration :=
  ⟨millis.toNat * 10 ^ 6, by have := millis.toNat_lt; omega⟩

def fromNanos (nanos : UInt64) : Duration := ⟨nanos.toNat, by have := nanos.toNat_lt; omega⟩

protected def min (a b : Duration) : Duration := if a.nanos ≤ b.nanos then a else b

/-- `Ord::max`. -/
def atLeast (d low : Duration) : Duration := if d.nanos ≤ low.nanos then low else d

def isZero (d : Duration) : Bool := d.nanos == 0

end Duration

/-- The errors that resolving the options can end with. -/
inductive Error
  | vu (message : String)
  | invalidVus
  | invalidIterations
  | invalidExecutor
  | invalidStages
  | invalidTimeUnit
  | invalidPreAllocatedVus
  | invalidMaxVus
  deriving DecidableEq, Repr

structure Stage where
  duration : Duration
  target : UInt64
  deriving DecidableEq, Repr

/-- What the command line says. What it leaves open is up to the script. -/
structure RunConfig where
  iterations : Option UInt64 := none
  vus : Option UInt64 := none
  duration : Option Duration := none
  deriving DecidableEq, Repr

/-- An executor with the values that it runs with. -/
inductive ScenarioExecutor
  | constantVus (vus : UInt64)
  | rampingVus (startVus : UInt64) (stages : List Stage)
  | rampingArrivalRate (startRate : UInt64) (timeUnit : Duration) (preAllocatedVus maxVus : UInt64)
      (stages : List Stage)
  deriving DecidableEq, Repr

/-- The string form of an executor, as scripts and the command line use it. -/
inductive ScenarioExecutorKind
  | constantVus
  | rampingVus
  | rampingArrivalRate
  deriving DecidableEq, Repr

namespace ScenarioExecutorKind

/-- The names that the script may use. Some are older names of the same executor. -/
def fromStr (s : String) : Option ScenarioExecutorKind :=
  if s = "constant-vus" ∨ s = "constant" ∨ s = "per-vu-iterations" then some .constantVus
  else if s = "ramping-vus" then some .rampingVus
  else if s = "ramping-arrival-rate" ∨ s = "ramping-rps" then some .rampingArrivalRate
  else none

def isRamping : ScenarioExecutorKind → Bool
  | .constantVus => false
  | .rampingVus | .rampingArrivalRate => true

end ScenarioExecutorKind

/-- A scenario as it is run, with every default filled in. -/
structure ScenarioConfig where
  exec : String
  metricsCtx : MetricsContext
  executor : ScenarioExecutor
  iterations : Option UInt64
  duration : Option Duration
  deriving DecidableEq, Repr

/-- A scenario as the script has it. -/
structure ScenarioOptions where
  name : String
  exec : Option String := none
  tags : List (String × String) := []
  executor : Option String := none
  vus : Option UInt64 := none
  iterations : Option UInt64 := none
  duration : Option Duration := none
  startVus : Option UInt64 := none
  stages : List Stage := []
  startRate : Option UInt64 := none
  timeUnit : Option Duration := none
  preAllocatedVus : Option UInt64 := none
  maxVus : Option UInt64 := none
  deriving DecidableEq, Repr

/-- The options of the script. -/
structure ScriptOptions where
  vus : Option UInt64 := none
  iterations : Option UInt64 := none
  duration : Option Duration := none
  scenarios : List ScenarioOptions := []
  thresholds : List ThresholdSet := []
  deriving DecidableEq, Repr

end Wrkr.Core
