import Mathlib.Algebra.BigOperators.Group.List.Lemmas
import Mathlib.Algebra.CharZero.Defs
import Mathlib.Algebra.Field.Basic
import Mathlib.Tactic.FieldSimp
import Mathlib.Tactic.LinearCombination
import Mathlib.Tactic.Ring

/-!
# Running mean and variance

Mean and sum of squared deviations of a list of numbers, and how one more number changes them:
the two equations of an accumulator that never sees the numbers again.
-/
namespace Wrkr.Lib.Welford

variable {K : Type} [Field K] [CharZero K]

/-- The mean; of no numbers it is 0. -/
def mean (xs : List K) : K := xs.sum / xs.length

/-- The sum of the squared deviations from the mean. -/
def squares (xs : List K) : K := (xs.map fun x => (x - mean xs) ^ 2).sum

theorem length_mul_mean (xs : List K) : (xs.length : K) * mean xs = xs.sum := by
  rcases xs with _ | ⟨x, rest⟩
  · simp
  · have positive : ((x :: rest).length : K) ≠ 0 := by
      rw [List.length_cons]
      exact Nat.cast_ne_zero.mpr (Nat.succ_ne_zero _)
    exact mul_div_cancel₀ _ positive

theorem mean_concat (xs : List K) (x : K) :
    mean (xs ++ [x]) = mean xs + (x - mean xs) / (xs.length + 1) := by
  have positive : (xs.length : K) + 1 ≠ 0 := Nat.cast_add_one_ne_zero xs.length
  have sum := length_mul_mean xs
  have longer : ((xs ++ [x]).length : K) = xs.length + 1 := by simp
  rw [mean, longer, List.sum_append, List.sum_singleton, ← sum]
  field_simp
  ring

omit [CharZero K] in
/-- The deviations from any number, by expanding the squares. -/
theorem sum_deviations (xs : List K) (m : K) :
    (xs.map fun x => (x - m) ^ 2).sum =
      (xs.map (· ^ 2)).sum - 2 * m * xs.sum + xs.length * m ^ 2 := by
  induction xs with
  | nil => simp
  | cons x rest ih =>
    simp only [List.map_cons, List.sum_cons, List.length_cons, ih]
    push_cast
    ring

theorem squares_eq (xs : List K) :
    squares xs = (xs.map (· ^ 2)).sum - xs.length * mean xs ^ 2 := by
  rw [squares, sum_deviations, ← length_mul_mean xs]
  ring

theorem squares_concat (xs : List K) (x : K) :
    squares (xs ++ [x]) = squares xs + (x - mean xs) * (x - mean (xs ++ [x])) := by
  have before := length_mul_mean xs
  have after := length_mul_mean (xs ++ [x])
  have longer : ((xs ++ [x]).length : K) = xs.length + 1 := by simp
  rw [longer, List.sum_append, List.sum_singleton, ← before] at after
  have powers : ((xs ++ [x]).map (· ^ 2)).sum = (xs.map (· ^ 2)).sum + x ^ 2 := by simp
  rw [squares_eq, squares_eq, longer, powers]
  linear_combination -(mean xs + mean (xs ++ [x])) * after

end Wrkr.Lib.Welford
