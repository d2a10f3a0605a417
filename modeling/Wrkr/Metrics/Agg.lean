import Mathlib.Data.List.Destutter
import Wrkr.Metrics.Totals

/-!
# Queries

`Query` filters the series of a metric by their tags and sums or merges what is left, one result
for each group. Without group keys there is a single group, the empty tag set, and the results
are the capped total of the counters (`sumCounterTotal_toNat`) and the merge of all histograms
(`mergeHistogramSummarySingle_count`).
-/
namespace Wrkr.Metrics

open Wrkr.Lib

variable {H F : Type} (hdr : HdrHistogram H F)

inductive TagFilter
  | eq (key value : KeyId)
  | notEq (key value : KeyId)
  | has (key : KeyId)
  | missing (key : KeyId)
  deriving DecidableEq, Repr

def TagFilter.matchesTags (filter : TagFilter) (tags : TagSet) : Bool :=
  match filter with
  | .eq k v => tags.get k = some v
  | .notEq k v => tags.get k ≠ some v
  | .has k => (tags.get k).isSome
  | .missing k => (tags.get k).isNone

structure Query (H : Type) where
  registry : Registry H
  metric : MetricId
  filters : List TagFilter
  groupKeys : List KeyId

def Registry.query (r : Registry H) (metric : MetricId) : Query H := ⟨r, metric, [], []⟩

namespace Query

def whereEq (q : Query H) (key value : KeyId) : Query H :=
  { q with filters := q.filters ++ [.eq key value] }

def whereNotEq (q : Query H) (key value : KeyId) : Query H :=
  { q with filters := q.filters ++ [.notEq key value] }

def whereHas (q : Query H) (key : KeyId) : Query H :=
  { q with filters := q.filters ++ [.has key] }

def whereMissing (q : Query H) (key : KeyId) : Query H :=
  { q with filters := q.filters ++ [.missing key] }

/-- The keys are sorted, and `Vec::dedup` drops consecutive repetitions. -/
def groupBy (q : Query H) (keys : List KeyId) : Query H :=
  { q with groupKeys := (keys.insertionSort (· ≤ ·)).destutter (· ≠ ·) }

def matchesTags (q : Query H) (tags : TagSet) : Bool :=
  q.filters.all fun filter => filter.matchesTags tags

def groupKey (q : Query H) (tags : TagSet) : TagSet := tags.project q.groupKeys

def sumCounter (q : Query H) : HashTable TagSet UInt64 :=
  (q.registry.visitSeries q.metric).foldl (fun out e =>
    if q.matchesTags e.1 then
      match e.2.counter? with
      | none => out
      | some v =>
        -- a counter at zero makes no group
        if v = 0 then out
        else
          let k := q.groupKey e.1
          match out.get? k with
          | some cur => out.insert k (saturatingAdd cur v)
          | none => out.insert k v
    else out) HashTable.empty

def sumCounterTotal (q : Query H) : UInt64 :=
  -- `sum` wraps in a release build where a group saturates
  (q.sumCounter.entries.map Prod.snd).foldl (· + ·) 0

/-- The merged histogram of each group. -/
def mergeHistogram (q : Query H) : HashTable TagSet H :=
  (q.registry.visitSeries q.metric).foldl (fun acc e =>
    if q.matchesTags e.1 then
      match e.2.histogram? with
      | none => acc
      | some h =>
        let k := q.groupKey e.1
        acc.insert k (hdr.add ((acc.get? k).getD hdr.newDefaultHistogram) h)
    else acc) HashTable.empty

def mergeHistogramSummary (q : Query H) : List (TagSet × HistogramSummary F) :=
  (q.mergeHistogram hdr).entries.map fun e => (e.1, summarizeHistogram hdr e.2)

def mergeHistogramSummarySingle (q : Query H) : Option (HistogramSummary F) :=
  match q.mergeHistogramSummary hdr with
  | [(_, summary)] => some summary
  -- no group, or several
  | _ => none

/-! ### One series after the other -/

def addToGroup {κ : Type} [DecidableEq κ] (out : HashTable κ UInt64) (k : κ) (v : UInt64) :
    HashTable κ UInt64 :=
  match out.get? k with
  | some cur => out.insert k (saturatingAdd cur v)
  | none => out.insert k v

/-- One series of `sumCounter`. -/
def sumStep (q : Query H) (out : HashTable TagSet UInt64) (e : TagSet × Cell H) :
    HashTable TagSet UInt64 :=
  if q.matchesTags e.1 then
    match e.2.counter? with
    | none => out
    | some v => if v = 0 then out else addToGroup out (q.groupKey e.1) v
  else out

theorem sumCounter_eq_foldl (q : Query H) :
    q.sumCounter = (q.registry.visitSeries q.metric).foldl q.sumStep HashTable.empty := rfl

/-- One series of `mergeHistogram`. -/
def mergeStep (q : Query H) (acc : HashTable TagSet H) (e : TagSet × Cell H) : HashTable TagSet H :=
  if q.matchesTags e.1 then
    match e.2.histogram? with
    | none => acc
    | some h =>
      let k := q.groupKey e.1
      acc.insert k (hdr.add ((acc.get? k).getD hdr.newDefaultHistogram) h)
  else acc

/-! ### Queries without group keys -/

variable {q : Query H} (ungrouped : q.groupKeys = [])

/-- A table with the one entry of the empty group. -/
def single {ν : Type} (v : ν) : HashTable TagSet ν := HashTable.empty.insert TagSet.empty v

theorem single_get? {ν : Type} (v : ν) : (single v).get? TagSet.empty = some v := by
  simp [single]

theorem single_insert {ν : Type} (v v' : ν) :
    (single v).insert TagSet.empty v' = single v' := rfl

theorem single_entries {ν : Type} (v : ν) : (single v).entries = [(TagSet.empty, v)] := rfl

include ungrouped in
theorem groupKey_of_ungrouped (tags : TagSet) : q.groupKey tags = TagSet.empty := by
  simp [groupKey, ungrouped, TagSet.project]

/-- A total as the code holds it. -/
def cap (n : Nat) : UInt64 := UInt64.ofNat (min n (2 ^ 64 - 1))

theorem cap_toNat (n : Nat) : (cap n).toNat = min n (2 ^ 64 - 1) := by
  rw [cap, UInt64.toNat_ofNat']
  omega

theorem saturatingAdd_cap (n : Nat) (v : UInt64) : saturatingAdd (cap n) v = cap (n + v.toNat) := by
  apply UInt64.toNat_inj.mp
  rw [saturatingAdd_toNat, cap_toNat, cap_toNat]
  omega

theorem cap_of_toNat (v : UInt64) : cap v.toNat = v := by
  apply UInt64.toNat_inj.mp
  have bound := v.toNat_lt
  rw [cap_toNat]
  omega

/-- The map of sums once the counters seen add up to `n`. -/
def summed (n : Nat) : HashTable TagSet UInt64 :=
  if n = 0 then HashTable.empty else single (cap n)

include ungrouped in
/-- The table is the empty one or has the one group. -/
theorem sumStep_summed (n : Nat) (e : TagSet × Cell H) :
    q.sumStep (summed n) e =
      summed (n + if q.matchesTags e.1 then Cell.counterValue e.2 else 0) := by
  rw [sumStep, groupKey_of_ungrouped ungrouped]
  cases matching : q.matchesTags e.1 with
  | false => simp
  | true =>
    cases loaded : e.2.counter? with
    | none => simp [Cell.counterValue, loaded]
    | some v =>
      simp only [↓reduceIte, Cell.counterValue, loaded, Option.map_some, Option.getD_some]
      by_cases zero : v = 0
      · simp [zero]
      · have positive : v.toNat ≠ 0 := by
          intro none
          exact zero (UInt64.toNat_inj.mp none)
        rw [if_neg zero]
        -- the first counter opens the group, the later ones are added to it
        by_cases first : n = 0
        · subst first
          simp [summed, addToGroup, positive, cap_of_toNat, single]
        · have later : n + v.toNat ≠ 0 := by omega
          simp only [summed, addToGroup, first, later, ↓reduceIte, single_get?, single_insert,
            saturatingAdd_cap]

include ungrouped in
theorem foldl_sumStep_summed (visited : List (TagSet × Cell H)) (n : Nat) :
    visited.foldl q.sumStep (summed n) =
      summed (n + total q.matchesTags Cell.counterValue visited) := by
  induction visited generalizing n with
  | nil => rfl
  | cons e rest ih =>
    rw [List.foldl_cons, sumStep_summed ungrouped, ih, total_cons, Nat.add_assoc]

include ungrouped in
theorem sumCounter_eq :
    q.sumCounter =
      summed (total q.matchesTags Cell.counterValue (q.registry.visitSeries q.metric)) := by
  have whole := foldl_sumStep_summed ungrouped (q.registry.visitSeries q.metric) 0
  rw [Nat.zero_add] at whole
  exact whole

include ungrouped in
/-- The total of an ungrouped query is the exact total, capped. -/
theorem sumCounterTotal_toNat :
    q.sumCounterTotal.toNat =
      min (total q.matchesTags Cell.counterValue (q.registry.visitSeries q.metric)) (2 ^ 64 - 1) := by
  rw [sumCounterTotal, sumCounter_eq ungrouped, summed]
  split
  next zero => simp [zero, HashTable.empty]
  next => simp [single_entries, cap_toNat]

/-- Some histogram among the series passes the filters. -/
def Merges (q : Query H) (visited : List (TagSet × Cell H)) : Prop :=
  ∃ e ∈ visited, q.matchesTags e.1 = true ∧ e.2.histogram?.isSome

/-- The map of merged histograms once those seen have been merged into `acc`. -/
def merged : Option H → HashTable TagSet H
  | none => HashTable.empty
  | some h => single h

/-- The number of values in a merge. -/
def mergedLen (acc : Option H) : Nat := (acc.map fun h => (hdr.len h).toNat).getD 0

/-- What the merge has after a series. -/
def mergeOne (q : Query H) (acc : Option H) (e : TagSet × Cell H) : Option H :=
  if q.matchesTags e.1 then
    match e.2.histogram? with
    | none => acc
    | some h => some (hdr.add (acc.getD hdr.newDefaultHistogram) h)
  else acc

include ungrouped in
theorem mergeStep_merged (acc : Option H) (e : TagSet × Cell H) :
    q.mergeStep hdr (merged acc) e = merged (q.mergeOne hdr acc e) := by
  rw [mergeStep, mergeOne, groupKey_of_ungrouped ungrouped]
  cases q.matchesTags e.1 with
  | false => rfl
  | true =>
    cases e.2.histogram? with
    | none => rfl
    | some h =>
      cases acc with
      | none => rfl
      | some old => simp [merged, single_get?, single_insert]

include ungrouped in
theorem foldl_mergeStep_merged (visited : List (TagSet × Cell H)) (acc : Option H) :
    visited.foldl (q.mergeStep hdr) (merged acc) = merged (visited.foldl (q.mergeOne hdr) acc) := by
  induction visited generalizing acc with
  | nil => rfl
  | cons e rest ih => rw [List.foldl_cons, List.foldl_cons, mergeStep_merged hdr ungrouped, ih]

theorem isSome_mergeOne (acc : Option H) (e : TagSet × Cell H) :
    (q.mergeOne hdr acc e).isSome ↔
      acc.isSome ∨ q.matchesTags e.1 = true ∧ e.2.histogram?.isSome := by
  rw [mergeOne]
  cases q.matchesTags e.1 with
  | false => simp
  | true => cases e.2.histogram? <;> simp

theorem isSome_foldl_mergeOne (visited : List (TagSet × Cell H)) (acc : Option H) :
    (visited.foldl (q.mergeOne hdr) acc).isSome ↔ acc.isSome ∨ q.Merges visited := by
  induction visited generalizing acc with
  | nil => simp [Merges]
  | cons e rest ih =>
    rw [List.foldl_cons, ih, isSome_mergeOne, or_assoc]
    simp only [Merges, List.mem_cons, exists_eq_or_imp]

theorem mergedLen_add (lawful : hdr.Lawful) (acc : Option H) (h : H)
    (room : mergedLen hdr acc + (hdr.len h).toNat < 2 ^ 64) :
    mergedLen hdr (some (hdr.add (acc.getD hdr.newDefaultHistogram) h)) =
      mergedLen hdr acc + (hdr.len h).toNat := by
  cases acc with
  | none =>
    have fits : (hdr.len hdr.newDefaultHistogram).toNat + (hdr.len h).toNat < 2 ^ 64 := by
      rw [lawful.len_new, UInt64.toNat_zero]
      omega
    simpa [mergedLen, lawful.len_new] using lawful.len_add _ h fits
  | some old => simpa [mergedLen] using lawful.len_add old h room

theorem mergedLen_mergeOne (lawful : hdr.Lawful) (acc : Option H) (e : TagSet × Cell H)
    (room : mergedLen hdr acc + (if q.matchesTags e.1 then Cell.histogramLen hdr e.2 else 0) <
      2 ^ 64) :
    mergedLen hdr (q.mergeOne hdr acc e) =
      mergedLen hdr acc + if q.matchesTags e.1 then Cell.histogramLen hdr e.2 else 0 := by
  rw [mergeOne]
  cases matching : q.matchesTags e.1 with
  | false => rfl
  | true =>
    simp only [matching, ↓reduceIte] at room ⊢
    cases loaded : e.2.histogram? with
    | none => simp [Cell.histogramLen, loaded]
    | some h =>
      simp only [Cell.histogramLen, loaded, Option.map_some, Option.getD_some] at room ⊢
      exact mergedLen_add hdr lawful acc h room

theorem mergedLen_foldl_mergeOne (lawful : hdr.Lawful) (visited : List (TagSet × Cell H))
    (acc : Option H)
    (bounded : mergedLen hdr acc + total q.matchesTags (Cell.histogramLen hdr) visited < 2 ^ 64) :
    mergedLen hdr (visited.foldl (q.mergeOne hdr) acc) =
      mergedLen hdr acc + total q.matchesTags (Cell.histogramLen hdr) visited := by
  induction visited generalizing acc with
  | nil => rfl
  | cons e rest ih =>
    rw [total_cons] at bounded ⊢
    have step := mergedLen_mergeOne hdr (q := q) lawful acc e (by omega)
    rw [List.foldl_cons, ih _ (by omega), step]
    omega

include ungrouped in
theorem mergeHistogram_eq (lawful : hdr.Lawful)
    (fits : total q.matchesTags (Cell.histogramLen hdr) (q.registry.visitSeries q.metric) < 2 ^ 64) :
    ∃ acc, q.mergeHistogram hdr = merged acc ∧
      (acc.isSome ↔ q.Merges (q.registry.visitSeries q.metric)) ∧
      mergedLen hdr acc =
        total q.matchesTags (Cell.histogramLen hdr) (q.registry.visitSeries q.metric) := by
  refine ⟨(q.registry.visitSeries q.metric).foldl (q.mergeOne hdr) none, ?_, ?_, ?_⟩
  · exact foldl_mergeStep_merged hdr ungrouped _ none
  · simpa using isSome_foldl_mergeOne hdr (q.registry.visitSeries q.metric) none
  · simpa [mergedLen] using mergedLen_foldl_mergeOne hdr lawful
      (q.registry.visitSeries q.metric) none (by simpa [mergedLen] using fits)

include ungrouped in
/-- The summary of an ungrouped merge is there when a histogram passes the filters, and counts
the values of all of them. -/
theorem mergeHistogramSummarySingle_count (lawful : hdr.Lawful)
    (fits : total q.matchesTags (Cell.histogramLen hdr) (q.registry.visitSeries q.metric) < 2 ^ 64) :
    ((q.mergeHistogramSummarySingle hdr).isSome ↔ q.Merges (q.registry.visitSeries q.metric)) ∧
      (((q.mergeHistogramSummarySingle hdr).map fun s => s.count.toNat).getD 0 =
        total q.matchesTags (Cell.histogramLen hdr) (q.registry.visitSeries q.metric)) := by
  obtain ⟨acc, eq, isSome, length⟩ := mergeHistogram_eq hdr ungrouped lawful fits
  rw [← isSome, ← length]
  cases acc with
  | none => simp [mergeHistogramSummarySingle, mergeHistogramSummary, eq, merged, HashTable.empty,
      mergedLen]
  | some h => simp [mergeHistogramSummarySingle, mergeHistogramSummary, eq, merged, single_entries,
      mergedLen, summarizeHistogram]

/-! ### Grouped sums -/

/-- The counts of a table in total. -/
def countSum {κ : Type} (out : HashTable κ UInt64) : Nat := out.sumOf fun _ v => v.toNat

theorem countSum_addToGroup {κ : Type} [DecidableEq κ] (out : HashTable κ UInt64) (k : κ)
    (v : UInt64) (fits : countSum out + v.toNat < 2 ^ 64) :
    countSum (addToGroup out k v) = countSum out + v.toNat := by
  rw [addToGroup]
  cases found : out.get? k with
  | none =>
    have inserted := out.sumOf_insert (fun _ v => v.toNat) k v
    rw [found] at inserted
    exact inserted
  | some cur =>
    -- a part of the sum fits as well, so the group does not saturate
    have part : cur.toNat ≤ countSum out := HashTable.weight_le_sumOf found fun _ v => v.toNat
    have inserted := out.sumOf_insert (fun _ v => v.toNat) k (saturatingAdd cur v)
    rw [found, saturatingAdd_toNat, Option.map_some, Option.getD_some] at inserted
    simp only [countSum] at fits part ⊢
    omega

theorem get?_addToGroup {κ : Type} [DecidableEq κ] {out : HashTable κ UInt64} {k k' : κ}
    {v : UInt64} (inside : ((addToGroup out k v).get? k').isSome) :
    (out.get? k').isSome ∨ k = k' := by
  rw [addToGroup] at inside
  split at inside
  · rw [HashTable.get?_insert] at inside
    split at inside
    next same => exact .inr same.symm
    next => exact .inl inside
  · rw [HashTable.get?_insert] at inside
    split at inside
    next same => exact .inr same.symm
    next => exact .inl inside

theorem countSum_sumStep (q : Query H) (out : HashTable TagSet UInt64) (e : TagSet × Cell H)
    (fits : countSum out + (if q.matchesTags e.1 then Cell.counterValue e.2 else 0) < 2 ^ 64) :
    countSum (q.sumStep out e) =
      countSum out + if q.matchesTags e.1 then Cell.counterValue e.2 else 0 := by
  rw [sumStep]
  split
  next matching =>
    rw [if_pos matching] at fits
    cases loaded : e.2.counter? with
    | none => simp [Cell.counterValue, loaded]
    | some v =>
      simp only [Cell.counterValue, loaded, Option.map_some, Option.getD_some] at fits ⊢
      split
      -- a counter at zero opens no group
      next zero => simp [zero]
      next => exact countSum_addToGroup out _ v fits
  next => rfl

theorem get?_sumStep {q : Query H} {out : HashTable TagSet UInt64} {e : TagSet × Cell H}
    {k : TagSet} (inside : ((q.sumStep out e).get? k).isSome) :
    (out.get? k).isSome ∨ q.matchesTags e.1 = true ∧ q.groupKey e.1 = k := by
  rw [sumStep] at inside
  split at inside
  next matching =>
    split at inside
    · exact .inl inside
    · split at inside
      · exact .inl inside
      · exact (get?_addToGroup inside).imp_right fun same => ⟨matching, same⟩
  next => exact .inl inside

/-- The groups of a query add up to the total. -/
theorem countSum_sumCounter (q : Query H)
    (fits : total q.matchesTags Cell.counterValue (q.registry.visitSeries q.metric) < 2 ^ 64) :
    countSum q.sumCounter =
      total q.matchesTags Cell.counterValue (q.registry.visitSeries q.metric) := by
  -- what was counted before stays in the table
  have loop (visited : List (TagSet × Cell H)) (out : HashTable TagSet UInt64)
      (bounded : countSum out + total q.matchesTags Cell.counterValue visited < 2 ^ 64) :
      countSum (visited.foldl q.sumStep out) =
        countSum out + total q.matchesTags Cell.counterValue visited := by
    induction visited generalizing out with
    | nil => rfl
    | cons e rest ih =>
      rw [total_cons] at bounded ⊢
      have step := countSum_sumStep q out e (by omega)
      rw [List.foldl_cons, ih _ (by omega), step]
      omega
  have whole := loop (q.registry.visitSeries q.metric) HashTable.empty
    (by simpa [countSum] using fits)
  rw [sumCounter_eq_foldl, whole]
  simp [countSum]

/-- Every group has the tags of a series that passes the filters. -/
theorem group_of_sumCounter {q : Query H} {k : TagSet} (inside : (q.sumCounter.get? k).isSome) :
    ∃ e ∈ q.registry.visitSeries q.metric, q.matchesTags e.1 = true ∧ q.groupKey e.1 = k := by
  have loop (visited : List (TagSet × Cell H)) (out : HashTable TagSet UInt64)
      (found : ((visited.foldl q.sumStep out).get? k).isSome) :
      (out.get? k).isSome ∨ ∃ e ∈ visited, q.matchesTags e.1 = true ∧ q.groupKey e.1 = k := by
    induction visited generalizing out with
    | nil => exact .inl found
    | cons e rest ih =>
      rcases ih (q.sumStep out e) found with old | ⟨e', later, passes⟩
      · exact (get?_sumStep old).imp_right fun here => ⟨e, List.mem_cons_self .., here⟩
      · exact .inr ⟨e', List.mem_cons_of_mem _ later, passes⟩
  rw [sumCounter_eq_foldl] at inside
  exact (loop _ _ inside).resolve_left (by simp)

end Query

end Wrkr.Metrics
