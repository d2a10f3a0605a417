import Wrkr.Core.Config
import Wrkr.Core.Gate
import Wrkr.Lib.Ieee

/-!
# Instants and durations

`std::time` as the runner uses it. `Duration::from_secs_f64` and `Instant + Duration` panic where
their result does not exist, and nothing between the options and the gate looks before:
`IterationGate::start_at` adds the duration that it was given. As long as the sum exists it is the
gate of the interleavings.
-/
namespace Wrkr.Core

open Wrkr.Lib

/-- How code that may panic ends without a result. -/
inductive Stop (ε : Type)
  | panic
  | error (e : ε)
  deriving DecidableEq, Repr

namespace Duration

def fromMicros (micros : UInt64) : Duration :=
  ⟨micros.toNat * 10 ^ 3, by have := micros.toNat_lt; omega⟩

/-- Finite, at least 0 and below 2⁶⁴. -/
def Representable (secs : UInt64) : Prop :=
  Ieee.isFinite secs = true ∧ Ieee.le 0 secs = true ∧ Ieee.truncated secs < 2 ^ 64

instance (secs : UInt64) : Decidable (Representable secs) := inferInstanceAs (Decidable (_ ∧ _))

theorem scaled_lt {secs : UInt64} (fits : Representable secs) :
    Ieee.scaled secs (10 ^ 9) < 2 ^ 64 * 10 ^ 9 :=
  (Ieee.scaled_lt_iff fits.1 (by decide)).mpr fits.2.2

/-- To the nearest nanosecond; anything that is not representable panics. -/
def fromSecsF64 (secs : UInt64) : Option Duration :=
  if fits : Representable secs then some ⟨Ieee.scaled secs (10 ^ 9), scaled_lt fits⟩ else none

theorem fromSecsF64_eq_none_iff {secs : UInt64} :
    fromSecsF64 secs = none ↔ ¬Representable secs := by
  simp [fromSecsF64]

theorem fromSecsF64_nanos {secs : UInt64} {d : Duration} (made : fromSecsF64 secs = some d) :
    d.nanos = Ieee.scaled secs (10 ^ 9) := by
  rw [fromSecsF64] at made
  split at made
  · cases made
    rfl
  · cases made

end Duration

/-- The nanoseconds that an `Instant` can hold, which no platform has more of than a `Duration`. -/
structure Clock where
  limit : Nat
  bounded : limit ≤ 2 ^ 64 * 10 ^ 9

namespace Clock

/-- A point in time that the clock can represent. -/
structure Instant (clock : Clock) where
  nanos : Nat
  bounded : nanos < clock.limit

/-- `Instant + Duration`, which panics on overflow. -/
def Instant.add {clock : Clock} (i : clock.Instant) (d : Nat) : Option clock.Instant :=
  if bounded : i.nanos + d < clock.limit then some ⟨i.nanos + d, bounded⟩ else none

/-- Seconds in an `i64`, the clock of Linux and macOS. -/
def unix : Clock := ⟨2 ^ 63 * 10 ^ 9, by decide⟩

end Clock

namespace IterationGate

variable {clock : Clock}

/-- `start_at` with the addition that panics when the clock cannot represent the deadline. -/
def startAt (g : IterationGate) (started : clock.Instant) : Option IterationGate :=
  if g.deadline.isSome then some g
  else
    match g.duration with
    | some duration =>
      (started.add duration).map fun deadline => { g with deadline := some deadline.nanos }
    | none => some g

/-- Whether the addition overflows is the one thing that the gate of the interleavings leaves out. -/
theorem startAt_eq (g : IterationGate) (started : clock.Instant) :
    g.startAt started =
      if g.deadline = none ∧ ∃ d, g.duration = some d ∧ clock.limit ≤ started.nanos + d then none
      else some (g.setDeadline started.nanos) := by
  obtain ⟨counter, iterations, duration, deadline⟩ := g
  cases deadline with
  | some deadline => simp [startAt, setDeadline]
  | none =>
    cases duration with
    | none => simp [startAt, setDeadline]
    | some d =>
      by_cases fits : started.nanos + d < clock.limit
      · simp [startAt, setDeadline, Clock.Instant.add, fits]
      · simp [startAt, Clock.Instant.add, fits, Nat.not_lt.mp fits]

/-- A new gate with a duration starts as long as the deadline exists. -/
theorem startAt_new (iterations : Option Nat) (d : Nat) (started : clock.Instant) :
    ((new iterations (some d)).startAt started).isSome = true ↔ started.nanos + d < clock.limit := by
  rw [startAt_eq]
  by_cases fits : started.nanos + d < clock.limit
  · simp [new, fits]
  · simp [new, fits, Nat.not_lt.mp fits]

end IterationGate

end Wrkr.Core
