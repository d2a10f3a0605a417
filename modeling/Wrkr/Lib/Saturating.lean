import Mathlib.Algebra.Order.Ring.Int
import Mathlib.Order.MinMax
import Mathlib.Tactic.Linarith

/-!
# Proportions in saturating arithmetic

`delta * num / den` in signed machine integers of one width, with a product that saturates and a
quotient that is truncated. Saturation can only move the result towards zero, so a proportion of
at most one stays between zero and `delta`, and grows with `num`.
-/
namespace Wrkr.Lib

/-- The nearest signed integer of `width` bits. -/
def saturate (width : Nat) (n : Int) : Int := max (-2 ^ (width - 1)) (min n (2 ^ (width - 1) - 1))

section Saturate

variable {width : Nat} {m n : Int}

theorem saturate_mono (le : m ≤ n) : saturate width m ≤ saturate width n :=
  max_le_max le_rfl (min_le_min le le_rfl)

theorem saturate_eq (low : -2 ^ (width - 1) ≤ n) (high : n < 2 ^ (width - 1)) :
    saturate width n = n := by
  rw [saturate, min_eq_left (by omega), max_eq_right low]

theorem saturate_nonneg (nonneg : 0 ≤ n) : 0 ≤ saturate width n := by
  have one : (1 : Int) ≤ 2 ^ (width - 1) := one_le_pow₀ (by decide)
  exact le_max_of_le_right (le_min nonneg (by omega))

theorem saturate_le (nonneg : 0 ≤ n) : saturate width n ≤ n := by
  have positive : (0 : Int) < 2 ^ (width - 1) := by positivity
  exact max_le (by omega) (min_le_left _ _)

theorem saturate_nonpos (nonpos : n ≤ 0) : saturate width n ≤ 0 := by
  have positive : (0 : Int) < 2 ^ (width - 1) := by positivity
  exact max_le (by omega) (min_le_of_left_le nonpos)

theorem le_saturate (nonpos : n ≤ 0) : n ≤ saturate width n := by
  have positive : (0 : Int) < 2 ^ (width - 1) := by positivity
  exact le_max_of_le_right (le_min le_rfl (by omega))

end Saturate

/-- `delta.saturating_mul(num) / den`. -/
def proportion (width : Nat) (delta num den : Int) : Int := (saturate width (delta * num)).tdiv den

section Proportion

variable {width : Nat} {delta num den : Int}

@[simp] theorem proportion_zero : proportion width delta 0 den = 0 := by
  have zero : saturate width 0 = 0 := le_antisymm (saturate_nonpos le_rfl) (saturate_nonneg le_rfl)
  rw [proportion, mul_zero, zero, Int.zero_tdiv]

theorem proportion_comm : proportion width delta num den = proportion width num delta den := by
  rw [proportion, mul_comm, ← proportion]

/-- What the whole is for a whole proportion. -/
theorem mul_tdiv_self (positive : 0 < den) : (delta * den).tdiv den = delta :=
  Int.mul_tdiv_cancel delta positive.ne'

theorem proportion_mono (up : 0 ≤ delta) (positive : 0 < den) {later : Int} (le : num ≤ later) :
    proportion width delta num den ≤ proportion width delta later den :=
  Int.tdiv_le_tdiv positive (saturate_mono (Int.mul_le_mul_of_nonneg_left le up))

theorem proportion_anti (down : delta ≤ 0) (positive : 0 < den) {later : Int} (le : num ≤ later) :
    proportion width delta later den ≤ proportion width delta num den :=
  Int.tdiv_le_tdiv positive (saturate_mono (Int.mul_le_mul_of_nonpos_left down le))

theorem proportion_up (up : 0 ≤ delta) (positive : 0 < den) (start : 0 ≤ num) (part : num ≤ den) :
    0 ≤ proportion width delta num den ∧ proportion width delta num den ≤ delta := by
  have below : saturate width (delta * num) ≤ delta * den :=
    (saturate_le (Int.mul_nonneg up start)).trans (Int.mul_le_mul_of_nonneg_left part up)
  constructor
  · have from_start : proportion width delta 0 den ≤ _ := proportion_mono up positive start
    rwa [proportion_zero] at from_start
  · have to_end := Int.tdiv_le_tdiv positive below
    rwa [mul_tdiv_self positive] at to_end

theorem proportion_down (down : delta ≤ 0) (positive : 0 < den) (start : 0 ≤ num)
    (part : num ≤ den) :
    delta ≤ proportion width delta num den ∧ proportion width delta num den ≤ 0 := by
  have above : delta * den ≤ saturate width (delta * num) :=
    (Int.mul_le_mul_of_nonpos_left down part).trans
      (le_saturate (Int.mul_nonpos_of_nonpos_of_nonneg down start))
  constructor
  · have to_end := Int.tdiv_le_tdiv positive above
    rwa [mul_tdiv_self positive] at to_end
  · have from_start : _ ≤ proportion width delta 0 den := proportion_anti down positive start
    rwa [proportion_zero] at from_start

theorem proportion_bounds (positive : 0 < den) (start : 0 ≤ num) (part : num ≤ den) :
    min 0 delta ≤ proportion width delta num den ∧
      proportion width delta num den ≤ max 0 delta := by
  rcases le_total 0 delta with up | down
  · rw [min_eq_left up, max_eq_right up]
    exact proportion_up up positive start part
  · rw [min_eq_right down, max_eq_left down]
    exact proportion_down down positive start part

/-- The inverse question, rounded down and saturated as well: before the time that it gives, the
proportion has not reached what was asked for. -/
theorem proportion_lt_of_lt_proportion {want : Int} (up : 0 < delta) (positive : 0 < den)
    (wanted : 0 < want) (early : num < proportion width want den delta) (start : 0 ≤ num) :
    proportion width delta num den < want := by
  have exact_time : delta * num < want * den :=
    calc delta * num < delta * proportion width want den delta :=
          Int.mul_lt_mul_of_pos_left early up
      _ ≤ saturate width (want * den) := by
          rw [proportion, Int.tdiv_eq_ediv_of_nonneg
            (saturate_nonneg (Int.mul_nonneg wanted.le positive.le))]
          exact Int.mul_ediv_self_le up.ne'
      _ ≤ want * den := saturate_le (Int.mul_nonneg wanted.le positive.le)
  have product : 0 ≤ delta * num := Int.mul_nonneg up.le start
  rw [proportion, Int.tdiv_eq_ediv_of_nonneg (saturate_nonneg product)]
  exact Int.ediv_lt_of_lt_mul positive ((saturate_le product).trans_lt exact_time)

end Proportion

end Wrkr.Lib
