import Wrkr.Metrics.Agg

/-!
# Grouped sums

`sum_counter` adds every counter that passes the filters to the group of its tags projected to the
group keys, and skips counters at zero. So what a group holds is the total of its series
(`get?_sumCounter`), the groups add up to the ungrouped total, and the map depends on the filters
and on the group keys as sets only (`sumCounter_conserves`).
-/
namespace Wrkr.Metrics

open Wrkr.Lib

variable {H : Type}

/-- What sorting and dropping repetitions leaves depends on the elements only. -/
theorem destutter_insertionSort_congr {α : Type} [DecidableEq α] {r : α → α → Prop}
    [Std.Antisymm r] [DecidableRel r] [Std.Total r] [IsTrans α r] {l l' : List α}
    (same : ∀ a, a ∈ l ↔ a ∈ l') :
    (l.insertionSort r).destutter (· ≠ ·) = (l'.insertionSort r).destutter (· ≠ ·) := by
  have sorted (l : List α) : (l.insertionSort r).dedup.Pairwise r :=
    (List.pairwise_insertionSort r l).sublist (List.dedup_sublist _)
  rw [(List.pairwise_insertionSort r l).destutter_eq_dedup,
    (List.pairwise_insertionSort r l').destutter_eq_dedup]
  refine List.Perm.eq_of_pairwise' (sorted l) (sorted l') ?_
  rw [List.perm_ext_iff_of_nodup (List.nodup_dedup _) (List.nodup_dedup _)]
  simp only [List.mem_dedup, List.mem_insertionSort, same, implies_true]

namespace Query

/-! ### The groups of a sum -/

/-- A group whose counters add up to `n`. -/
def groupSum (n : Nat) : Option UInt64 := if n = 0 then none else some (cap n)

theorem get?_addToGroup_eq {out : HashTable TagSet UInt64} {n : TagSet → Nat}
    (sums : ∀ k, out.get? k = groupSum (n k)) (k : TagSet) {v : UInt64} (some : v ≠ 0)
    (k' : TagSet) :
    (addToGroup out k v).get? k' = groupSum (n k' + if k = k' then v.toNat else 0) := by
  have positive : v.toNat ≠ 0 := fun zero => some (UInt64.toNat_inj.mp zero)
  -- a group at zero is a group that is not there
  have inserted : addToGroup out k v = out.insert k (cap (n k + v.toNat)) := by
    rw [addToGroup, sums, groupSum]
    by_cases first : n k = 0
    · simp [first, cap_of_toNat]
    · simp [first, saturatingAdd_cap]
  rw [inserted, HashTable.get?_insert]
  by_cases same : k = k'
  · subst same
    have later : n k + v.toNat ≠ 0 := by omega
    rw [if_pos rfl, if_pos rfl, groupSum, if_neg later]
  · simp [same, Ne.symm same, sums]

/-- What a series adds to the group `k`. -/
def inGroup (q : Query H) (k tags : TagSet) : Bool := q.matchesTags tags && q.groupKey tags = k

theorem get?_sumStep_eq (q : Query H) {out : HashTable TagSet UInt64} {n : TagSet → Nat}
    (sums : ∀ k, out.get? k = groupSum (n k)) (e : TagSet × Cell H) (k : TagSet) :
    (q.sumStep out e).get? k =
      groupSum (n k + if q.inGroup k e.1 then Cell.counterValue e.2 else 0) := by
  rw [sumStep]
  split
  next matching =>
    cases loaded : e.2.counter? with
    | none => simp [Cell.counterValue, loaded, sums]
    | some v =>
      dsimp only
      split
      -- a counter at zero changes no sum
      next zero => simp [Cell.counterValue, loaded, zero, sums]
      next nonzero =>
        rw [get?_addToGroup_eq sums _ nonzero]
        simp [inGroup, matching, Cell.counterValue, loaded]
  next unmatched => simp [inGroup, unmatched, sums]

/-- Every group holds the total of the series that project to it, and no other group is there. -/
theorem get?_sumCounter (q : Query H) (k : TagSet) :
    q.sumCounter.get? k =
      groupSum (total (q.inGroup k) Cell.counterValue (q.registry.visitSeries q.metric)) := by
  have loop (visited : List (TagSet × Cell H)) (out : HashTable TagSet UInt64) (n : TagSet → Nat)
      (sums : ∀ k, out.get? k = groupSum (n k)) :
      (visited.foldl q.sumStep out).get? k =
        groupSum (n k + total (q.inGroup k) Cell.counterValue visited) := by
    induction visited generalizing out n with
    | nil => exact sums k
    | cons e rest ih =>
      rw [List.foldl_cons, ih _ _ (get?_sumStep_eq q sums e), total_cons, Nat.add_assoc]
  rw [sumCounter_eq_foldl, loop _ HashTable.empty (fun _ => 0) fun _ => rfl, Nat.zero_add]

/-- `sum` does not wrap where the groups fit. -/
theorem sumCounterTotal_countSum {q : Query H} (fits : countSum q.sumCounter < 2 ^ 64) :
    q.sumCounterTotal.toNat = countSum q.sumCounter := by
  -- by induction on the groups: no partial sum is above the whole one
  have loop (values : List UInt64) (start : UInt64)
      (bounded : start.toNat + (values.map UInt64.toNat).sum < 2 ^ 64) :
      (values.foldl (· + ·) start).toNat = start.toNat + (values.map UInt64.toNat).sum := by
    induction values generalizing start with
    | nil => simp
    | cons v rest ih =>
      rw [List.map_cons, List.sum_cons] at bounded ⊢
      have step : (start + v).toNat = start.toNat + v.toNat := add_toNat (by omega)
      rw [List.foldl_cons, ih _ (by omega), step, Nat.add_assoc]
  have values : countSum q.sumCounter =
      ((q.sumCounter.entries.map Prod.snd).map UInt64.toNat).sum := by
    rw [countSum, HashTable.sumOf, List.map_map]
    rfl
  rw [values] at fits ⊢
  rw [sumCounterTotal, loop _ 0 (by simpa using fits)]
  simp

/-- The query for a metric with these filters, grouped by these keys. -/
def build (r : Registry H) (metric : MetricId) (filters : List TagFilter) (keys : List KeyId) :
    Query H :=
  { r.query metric with filters }.groupBy keys

/-- The keys that a query is grouped by are the given ones, in order and each once. -/
theorem groupKeys_build (r : Registry H) (metric : MetricId) (filters : List TagFilter)
    (keys : List KeyId) :
    (build r metric filters keys).groupKeys = (keys.insertionSort (· ≤ ·)).dedup :=
  (List.pairwise_insertionSort (· ≤ ·) keys).destutter_eq_dedup

/-- Grouping splits the sum of a metric: each series that passes the filters is in the group of its
tags projected to the given keys (in their order and without repetitions), the groups add up to the
sum without groups, and neither the order of the filters nor the order or the repetition of the keys
matters. -/
theorem sumCounter_conserves (r : Registry H) (metric : MetricId) (filters : List TagFilter)
    (keys : List KeyId) :
    let q := build r metric filters keys
    let passes (tags : TagSet) := filters.all fun filter => filter.matchesTags tags
    (∀ k, q.sumCounter.get? k = groupSum (total
        (fun tags => passes tags && tags.project (keys.insertionSort (· ≤ ·)).dedup = k)
        Cell.counterValue (r.visitSeries metric))) ∧
      (total passes Cell.counterValue (r.visitSeries metric) < 2 ^ 64 →
        countSum q.sumCounter = (r.foldCounterSum metric passes).toNat ∧
          q.sumCounterTotal = r.foldCounterSum metric passes) ∧
      ∀ filters' keys', filters'.Perm filters → (∀ key, key ∈ keys' ↔ key ∈ keys) →
        (build r metric filters' keys').sumCounter = q.sumCounter := by
  intro q passes
  refine ⟨fun k => ?_, ?_, ?_⟩
  · rw [get?_sumCounter q k, ← groupKeys_build r metric filters keys]
    rfl
  · intro fits
    have groups : countSum q.sumCounter = total passes Cell.counterValue (r.visitSeries metric) :=
      countSum_sumCounter q fits
    have folded := foldCounterSum_toNat r metric passes
    have sum : countSum q.sumCounter = (r.foldCounterSum metric passes).toNat := by omega
    refine ⟨sum, UInt64.toNat_inj.mp ?_⟩
    rw [sumCounterTotal_countSum (by omega), sum]
  -- both queries take the same step at every series
  · intro filters' keys' permuted same
    have groupKeys : (build r metric filters' keys').groupKeys = q.groupKeys :=
      destutter_insertionSort_congr same
    have step : (build r metric filters' keys').sumStep = q.sumStep := by
      funext out e
      have matching : (build r metric filters' keys').matchesTags e.1 = q.matchesTags e.1 :=
        permuted.all_eq
      have group : (build r metric filters' keys').groupKey e.1 = q.groupKey e.1 := by
        rw [groupKey, groupKeys, groupKey]
      rw [sumStep, matching, group, sumStep]
    rw [sumCounter_eq_foldl, sumCounter_eq_foldl, step]
    rfl

/-- Two series of the scenario `1`, one with the value 10 for the protocol `3` and one with the
value 3 for the protocol `4`. -/
def twoProtocols : Registry (List UInt64) :=
  let (r, metric) := Registry.default.register "requests_total" .counter
  let r := r.touch HdrHistogram.exact metric ⟨[(0, 1), (2, 3)]⟩ (Cell.fetchAdd 10)
  r.touch HdrHistogram.exact metric ⟨[(0, 1), (2, 4)]⟩ (Cell.fetchAdd 3)

/-- Grouped by both keys, given in whatever order, each of the two series is a group of its own. -/
theorem sumCounter_conserves_two :
    (build twoProtocols 0 [.eq 0 1] [2, 0, 2]).sumCounter.get? ⟨[(0, 1), (2, 3)]⟩ = some 10 ∧
      (build twoProtocols 0 [.eq 0 1] [2, 0, 2]).sumCounter.get? ⟨[(0, 1), (2, 4)]⟩ = some 3 ∧
      (build twoProtocols 0 [.eq 0 1] [2, 0, 2]).sumCounterTotal = 13 ∧
      (build twoProtocols 0 [.eq 0 1] [0, 2]).sumCounter =
        (build twoProtocols 0 [.eq 0 1] [2, 0, 2]).sumCounter := by
  obtain ⟨groups, conserved, unordered⟩ := sumCounter_conserves twoProtocols 0 [.eq 0 1] [2, 0, 2]
  refine ⟨(groups _).trans (by decide), (groups _).trans (by decide),
    (conserved (by decide)).2.trans (by decide), unordered _ _ (.refl _) fun key => ?_⟩
  simp only [List.mem_cons, List.not_mem_nil, or_false]
  tauto

end Query

end Wrkr.Metrics
