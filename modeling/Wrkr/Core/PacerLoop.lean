import Mathlib.Algebra.Order.Floor.Ring
import Mathlib.Data.Rat.Floor
import Mathlib.Tactic.Linarith
import Mathlib.Tactic.FieldSimp
import Wrkr.Core.Schedule

/-!
# The loop that paces arrivals

Every tick adds to `carry` what is due in one tick at the target rate, and passes the whole part
on to `update_due`. The floating-point numbers of the source are rationals here. A tick may come
later than the interval says, and the interval then starts anew, but what a tick adds does not
depend on how much time has passed since the last one.
-/
namespace Wrkr.Core

open Wrkr.Lib

namespace PacerLoop

def tick : Duration := .fromMillis 10

def asSecs (d : Duration) : ℚ := d.nanos / 10 ^ 9

/-- What is due in one tick. -/
def perTick (rate : UInt64) (timeUnit : Duration) : ℚ :=
  rate.toNat * (asSecs tick / max (asSecs timeUnit) (1 / 10 ^ 9))

/-- `floor() as u64`, a cast that saturates. -/
def wholePart (carry : ℚ) : Nat := min ⌊carry⌋.toNat (2 ^ 64 - 1)

/-- The values passed to `update_due` when the ticks come at these times. -/
def dues (search : BinarySearch Duration) (schedule : RampingU64Schedule) (timeUnit : Duration) :
    ℚ → List Duration → Option (List Nat)
  | _, [] => some []
  | carry, elapsed :: later =>
    if schedule.totalDuration.nanos ≤ elapsed.nanos then some []
    else do
      let rate ← schedule.targetAt search elapsed
      let carry := carry + perTick rate timeUnit
      let due := wholePart carry
      let rest ← dues search schedule timeUnit (carry - due) later
      some (due :: rest)

/-- What is carried after `n` ticks with `a` due in each: the fraction, or all that the cast has
cut off. -/
def carried (a : ℚ) (n : Nat) : ℚ := max (Int.fract (n * a)) (n * (a - (2 ^ 64 - 1)))

@[simp] theorem carried_zero (a : ℚ) : carried a 0 = 0 := by simp [carried]

theorem carried_nonneg (a : ℚ) (n : Nat) : 0 ≤ carried a n :=
  le_max_of_le_left (Int.fract_nonneg _)

/-- What fits the cast leaves a fraction. -/
theorem carried_of_le {a : ℚ} (fits : a ≤ 2 ^ 64 - 1) (n : Nat) :
    carried a n = Int.fract (n * a) := by
  have cut : (n : ℚ) * (a - (2 ^ 64 - 1)) ≤ 0 :=
    mul_nonpos_of_nonneg_of_nonpos n.cast_nonneg (by linarith)
  exact max_eq_left (cut.trans (Int.fract_nonneg _))

/-- What does not fit is cut off in every tick. -/
theorem carried_of_ge {a : ℚ} (large : 2 ^ 64 - 1 ≤ a) (n : Nat) :
    carried a n = n * (a - (2 ^ 64 - 1)) := by
  refine max_eq_right ?_
  have whole : (n * (2 ^ 64 - 1) : ℤ) ≤ ⌊n * a⌋ := by
    have each : (n : ℚ) * (2 ^ 64 - 1) ≤ n * a := mul_le_mul_of_nonneg_left large n.cast_nonneg
    exact Int.le_floor.mpr (by exact_mod_cast each)
  have whole : ((n * (2 ^ 64 - 1) : ℤ) : ℚ) ≤ ⌊n * a⌋ := Int.cast_le.mpr whole
  push_cast at whole
  rw [Int.fract]
  linarith

theorem wholePart_of_le {carry : ℚ} (nonneg : 0 ≤ carry) (fits : carry < 2 ^ 64) :
    (wholePart carry : ℚ) = ⌊carry⌋ := by
  have low : 0 ≤ ⌊carry⌋ := Int.floor_nonneg.mpr nonneg
  have high : ⌊carry⌋ < 2 ^ 64 := Int.floor_lt.mpr (by push_cast; exact fits)
  have same : ((wholePart carry : Nat) : ℤ) = ⌊carry⌋ := by
    rw [wholePart]
    omega
  exact_mod_cast congrArg (Int.cast (R := ℚ)) same

theorem wholePart_of_ge {carry : ℚ} (large : 2 ^ 64 - 1 ≤ carry) :
    (wholePart carry : ℚ) = 2 ^ 64 - 1 := by
  have low : 2 ^ 64 - 1 ≤ ⌊carry⌋ := Int.le_floor.mpr (by push_cast; linarith)
  have same : wholePart carry = 2 ^ 64 - 1 := by
    rw [wholePart]
    omega
  rw [same]
  norm_num

/-- One tick. -/
theorem carried_succ {a : ℚ} (nonneg : 0 ≤ a) (n : Nat) :
    carried a n + a - wholePart (carried a n + a) = carried a (n + 1) := by
  rcases le_total a (2 ^ 64 - 1) with fits | large
  · have fraction := Int.fract_lt_one (n * a : ℚ)
    rw [carried_of_le fits, carried_of_le fits,
      wholePart_of_le (add_nonneg (Int.fract_nonneg _) nonneg) (by linarith)]
    have next : Int.fract (n * a) + a = (n + 1 : ℕ) * a - ⌊n * a⌋ := by
      rw [Int.fract]
      push_cast
      ring
    change Int.fract (Int.fract (n * a) + a) = _
    rw [next, Int.fract_sub_intCast]
  -- more than a `u64` in each tick: the rest is carried on and grows
  · have cut : (0 : ℚ) ≤ n * (a - (2 ^ 64 - 1)) := mul_nonneg n.cast_nonneg (by linarith)
    rw [carried_of_ge large, carried_of_ge large, wholePart_of_ge (by linarith)]
    push_cast
    ring

theorem perTick_eq (rate : UInt64) {timeUnit : Duration} (unit : 0 < timeUnit.nanos) :
    perTick rate timeUnit = rate.toNat * tick.nanos / timeUnit.nanos := by
  have least : (1 / 10 ^ 9 : ℚ) ≤ asSecs timeUnit :=
    div_le_div_of_nonneg_right (by exact_mod_cast unit) (by norm_num)
  rw [perTick, max_eq_left least, asSecs, asSecs]
  field_simp

theorem perTick_nonneg (rate : UInt64) {timeUnit : Duration} (unit : 0 < timeUnit.nanos) :
    0 ≤ perTick rate timeUnit := by
  rw [perTick_eq rate unit]
  positivity

/-! ### A constant rate -/

/-- The start and the stages have the same target. -/
def Constant (schedule : RampingU64Schedule) (rate : UInt64) : Prop :=
  ∀ level ∈ schedule.levels, level = rate

instance (schedule : RampingU64Schedule) (rate : UInt64) : Decidable (Constant schedule rate) :=
  List.decidableBAll (· = rate) schedule.levels

variable {search : BinarySearch Duration} {schedule : RampingU64Schedule} {rate : UInt64}
  {timeUnit : Duration}

theorem Constant.targetAt (constant : Constant schedule rate) (elapsed : Duration) :
    schedule.targetAt search elapsed = some rate := by
  obtain ⟨target, is, low, low_level, high, high_level, above, below⟩ :=
    schedule.targetAt_bounds search elapsed
  rw [constant low low_level] at above
  rw [constant high high_level] at below
  rw [is, UInt64.le_antisymm below above]

variable (search) in
/-- What has been passed on and what is carried make up what was due. -/
theorem dues_spec (constant : Constant schedule rate) (unit : 0 < timeUnit.nanos)
    (ticks : List Duration)
    (running : ∀ elapsed ∈ ticks, elapsed.nanos < schedule.totalDuration.nanos) (k : Nat) :
    ∃ due, dues search schedule timeUnit (carried (perTick rate timeUnit) k) ticks = some due ∧
      (due.sum : ℚ) + carried (perTick rate timeUnit) (k + ticks.length) =
        ticks.length * perTick rate timeUnit + carried (perTick rate timeUnit) k := by
  induction ticks generalizing k with
  | nil => exact ⟨[], rfl, by simp⟩
  | cons elapsed later ih =>
    have early := running elapsed List.mem_cons_self
    -- one tick passes on the whole part and carries the rest to the next
    have next := carried_succ (perTick_nonneg rate unit) k
    obtain ⟨rest, is, total⟩ := ih (fun t member => running t (List.mem_cons_of_mem _ member))
      (k + 1)
    refine ⟨wholePart (carried (perTick rate timeUnit) k + perTick rate timeUnit) :: rest, ?_, ?_⟩
    · rw [dues, if_neg (Nat.not_le.mpr early), constant.targetAt]
      simp only [Option.bind_eq_bind, Option.bind_some, next, is]
    · rw [List.length_cons, List.sum_cons, show k + (later.length + 1) = k + 1 + later.length by
        omega]
      simp only [Nat.cast_add, Nat.cast_one]
      linarith

/-- How far the last of `n` ticks is behind ticks that are all on time. -/
def late (n : Nat) (last : Duration) : ℚ := last.nanos - (n - 1 : ℚ) * tick.nanos

/-- Ticks that are at least a tick apart. -/
theorem spread_le {first last : Duration} {later : List Duration}
    (gaps : (first :: later).IsChain fun earlier later => earlier.nanos + tick.nanos ≤ later.nanos)
    (ends : (first :: later).getLast? = some last) :
    first.nanos + later.length * tick.nanos ≤ last.nanos := by
  induction later generalizing first with
  | nil =>
    cases ends
    simp
  | cons second later ih =>
    obtain ⟨gap, gaps⟩ := List.isChain_cons_cons.mp gaps
    have rest := ih gaps (by simpa using ends)
    rw [List.length_cons, Nat.succ_mul]
    omega

/-- Ticks are at least 10 ms apart, so the last one is never early. -/
theorem late_nonneg {ticks : List Duration} {last : Duration}
    (gaps : ticks.IsChain fun earlier later => earlier.nanos + tick.nanos ≤ later.nanos)
    (ends : ticks.getLast? = some last) : 0 ≤ late ticks.length last := by
  cases ticks with
  | nil => cases ends
  | cons first later =>
    have spread : later.length * tick.nanos ≤ last.nanos :=
      (Nat.le_add_left _ _).trans (spread_le gaps ends)
    have spread : (later.length * tick.nanos : ℚ) ≤ last.nanos := by exact_mod_cast spread
    rw [late, List.length_cons, Nat.cast_succ, add_sub_cancel_right]
    exact sub_nonneg.mpr spread

/-- What is due at the rate in a length of time. -/
def arrivals (rate : UInt64) (timeUnit : Duration) (nanos : ℚ) : ℚ :=
  rate.toNat * nanos / timeUnit.nanos

/-- The arrivals passed on stay near those of the rate exactly while few enough of them fall into
the time by which the ticks are late. -/
theorem arrivals_kept_iff (search : BinarySearch Duration) (schedule : RampingU64Schedule)
    (rate : UInt64) (constant : Constant schedule rate) (timeUnit : Duration)
    (unit : 0 < timeUnit.nanos) (ticks : List Duration) (last : Duration)
    (running : ∀ elapsed ∈ ticks, elapsed.nanos < schedule.totalDuration.nanos)
    (gaps : ticks.IsChain fun earlier later => earlier.nanos + tick.nanos ≤ later.nanos)
    (ends : ticks.getLast? = some last) :
    ∃ due, dues search schedule timeUnit 0 ticks = some due ∧
      (|(due.sum : ℚ) - arrivals rate timeUnit last.nanos| <
          1 + arrivals rate timeUnit tick.nanos ↔
        arrivals rate timeUnit (late ticks.length last) +
            carried (arrivals rate timeUnit tick.nanos) ticks.length <
          1 + 2 * arrivals rate timeUnit tick.nanos) := by
  obtain ⟨due, is, total⟩ := dues_spec search constant unit ticks running 0
  rw [carried_zero] at is total
  have each : perTick rate timeUnit = arrivals rate timeUnit tick.nanos := perTick_eq rate unit
  rw [each, Nat.zero_add, add_zero] at total
  have behind : arrivals rate timeUnit (late ticks.length last) = arrivals rate timeUnit last.nanos -
      (ticks.length - 1) * arrivals rate timeUnit tick.nanos := by
    simp only [arrivals, late]
    ring
  have lost : 0 ≤ arrivals rate timeUnit (late ticks.length last) :=
    div_nonneg (mul_nonneg (Nat.cast_nonneg _) (late_nonneg gaps ends)) (Nat.cast_nonneg _)
  have kept := carried_nonneg (arrivals rate timeUnit tick.nanos) ticks.length
  refine ⟨due, is, ?_⟩
  rw [abs_lt]
  constructor
  · rintro ⟨low, -⟩
    linarith
  -- too many are never passed on
  · intro few
    exact ⟨by linarith, by linarith⟩

/-- With both ticks on time the arrivals are what the rate asks for, give or take one and those of a
tick. -/
theorem arrivals_kept_on_time :
    ∃ due, dues .std (.new 1000 [⟨.fromSecs 10, 1000⟩]) (.fromSecs 1) 0
        [.zero, .fromMillis 10] = some due ∧
      |(due.sum : ℚ) - arrivals 1000 (.fromSecs 1) (Duration.fromMillis 10).nanos| <
        1 + arrivals 1000 (.fromSecs 1) tick.nanos := by
  obtain ⟨due, is, kept⟩ := arrivals_kept_iff .std (.new 1000 [⟨.fromSecs 10, 1000⟩]) 1000
    (by decide) (.fromSecs 1) (by decide) [.zero, .fromMillis 10] (.fromMillis 10) (by decide)
    (by decide) rfl
  exact ⟨due, is, kept.mpr (by decide +kernel)⟩

/-- A second tick that comes after a second adds as much as one after ten milliseconds. -/
theorem arrivals_lost :
    (∀ elapsed ∈ [Duration.zero, .fromSecs 1], elapsed.nanos <
      (RampingU64Schedule.new 1000 [⟨.fromSecs 10, 1000⟩]).totalDuration.nanos) ∧
    [Duration.zero, .fromSecs 1].IsChain
      (fun earlier later => earlier.nanos + tick.nanos ≤ later.nanos) ∧
    ¬∃ due, dues .std (.new 1000 [⟨.fromSecs 10, 1000⟩]) (.fromSecs 1) 0
        [.zero, .fromSecs 1] = some due ∧
      |(due.sum : ℚ) - arrivals 1000 (.fromSecs 1) (Duration.fromSecs 1).nanos| <
        1 + arrivals 1000 (.fromSecs 1) tick.nanos := by
  refine ⟨by decide, by decide, ?_⟩
  rintro ⟨due, is, near⟩
  -- ten arrivals a tick, whatever time has passed since the last one
  have twenty : dues .std (.new 1000 [⟨.fromSecs 10, 1000⟩]) (.fromSecs 1) 0
      [.zero, .fromSecs 1] = some [10, 10] := by decide +kernel
  cases Option.some.inj (is.symm.trans twenty)
  exact absurd near (by decide +kernel)

end PacerLoop

end Wrkr.Core
