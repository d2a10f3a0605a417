import Mathlib.Data.Rat.Cast.Order
import Wrkr.Lib.Welford
import Wrkr.Metrics.Agg

/-!
# Running statistics

`RunningStats` keeps the mean, the squared deviations and the largest of the numbers pushed into
it, none of which it stores. The floating-point numbers of the source are rationals here, and
their square root is a parameter; a push then leaves exactly the statistics of all the numbers.
-/
namespace Wrkr.Metrics

open Wrkr.Lib

structure RunningStats where
  n : UInt64
  mean : ℚ
  m2 : ℚ
  max : ℚ
  deriving DecidableEq, Repr

namespace RunningStats

/-- The derived `Default`. -/
def default : RunningStats := ⟨0, 0, 0, 0⟩

def push (stats : RunningStats) (x : ℚ) : RunningStats :=
  let n := Metrics.saturatingAdd stats.n 1
  let delta := x - stats.mean
  let mean := stats.mean + delta / n.toNat
  let delta2 := x - mean
  { n
    mean
    m2 := stats.m2 + delta * delta2
    max := if x > stats.max then x else stats.max }

variable (sqrt : ℚ → ℚ)

def stdev (stats : RunningStats) : ℚ :=
  if stats.n < 2 then 0 else sqrt (stats.m2 / (stats.n.toNat - 1))

def stdevPct (stats : RunningStats) : ℚ :=
  if stats.mean ≤ 0 then 0 else stats.stdev sqrt / stats.mean * 100

def pushAll (xs : List ℚ) : RunningStats := xs.foldl push default

theorem pushAll_concat (xs : List ℚ) (x : ℚ) : pushAll (xs ++ [x]) = (pushAll xs).push x := by
  rw [pushAll, List.foldl_append]
  rfl

/-- The largest of the numbers and 0, which it starts from. -/
theorem max_pushAll (xs : List ℚ) : (pushAll xs).max = xs.foldl Max.max 0 := by
  -- by induction from the end of the list, as the numbers are pushed
  induction xs using List.reverseRecOn with
  | nil => rfl
  | append_singleton xs x ih =>
    rw [pushAll_concat, List.foldl_append, ← ih]
    simp only [push, List.foldl_cons, List.foldl_nil]
    split_ifs with larger
    · exact (max_eq_right larger.le).symm
    · exact (max_eq_left (not_lt.mp larger)).symm

/-- The number of pushes, as long as it fits. -/
theorem n_pushAll (xs : List ℚ) (few : xs.length < 2 ^ 64) : (pushAll xs).n.toNat = xs.length := by
  induction xs using List.reverseRecOn with
  | nil => rfl
  | append_singleton xs x ih =>
    rw [List.length_append, List.length_singleton] at few ⊢
    have before := ih (by omega)
    rw [pushAll_concat, push, saturatingAdd_toNat, before]
    change min (xs.length + 1) _ = _
    omega

/-- Mean and squared deviations of all the numbers, by one step of each recurrence per push. -/
theorem moments_pushAll (xs : List ℚ) (few : xs.length < 2 ^ 64) :
    (pushAll xs).mean = Welford.mean xs ∧ (pushAll xs).m2 = Welford.squares xs := by
  induction xs using List.reverseRecOn with
  | nil => exact ⟨by simp [pushAll, default, Welford.mean], by simp [pushAll, default, Welford.squares]⟩
  | append_singleton xs x ih =>
    -- few enough that the count has not saturated
    have count := n_pushAll (xs ++ [x]) few
    rw [pushAll_concat] at count ⊢
    rw [List.length_append, List.length_singleton] at few count
    obtain ⟨mean, m2⟩ := ih (by omega)
    have pushed : ((pushAll xs).push x).mean = Welford.mean (xs ++ [x]) := by
      change (pushAll xs).mean + (x - (pushAll xs).mean) / ((pushAll xs).push x).n.toNat = _
      rw [count, mean, Welford.mean_concat]
      push_cast
      rfl
    refine ⟨pushed, ?_⟩
    change (pushAll xs).m2 + (x - (pushAll xs).mean) * (x - ((pushAll xs).push x).mean) = _
    rw [pushed, mean, m2, Welford.squares_concat]

/-- After any pushes the statistics are those of all the numbers: how many they are, their mean,
the root of their sample variance, and the largest of them and 0. -/
theorem running_stats_exact (sqrt : ℚ → ℚ) (xs : List ℚ) (few : xs.length < 2 ^ 64) :
    (pushAll xs).n.toNat = xs.length ∧
      (pushAll xs).mean = xs.sum / xs.length ∧
      (pushAll xs).stdev sqrt = (if xs.length < 2 then 0 else
        sqrt ((xs.map fun x => (x - xs.sum / xs.length) ^ 2).sum / (xs.length - 1))) ∧
      (pushAll xs).max = xs.foldl Max.max 0 := by
  have count := n_pushAll xs few
  obtain ⟨mean, m2⟩ := moments_pushAll xs few
  refine ⟨count, mean, ?_, max_pushAll xs⟩
  have fewer : (pushAll xs).n < 2 ↔ xs.length < 2 := by
    rw [UInt64.lt_iff_toNat_lt, count]
    rfl
  rw [stdev, count, m2]
  exact if_congr fewer rfl rfl

theorem running_stats_exact_three : (pushAll [2, 4, 9]).mean = [2, 4, (9 : ℚ)].sum / 3 ∧
    (pushAll [2, 4, 9]).max = [2, 4, (9 : ℚ)].foldl Max.max 0 := by
  obtain ⟨-, mean, -, max⟩ := running_stats_exact id [2, 4, 9] (by decide)
  exact ⟨mean, max⟩

end RunningStats

end Wrkr.Metrics
