import Mathlib.Algebra.Order.BigOperators.Group.List
import Mathlib.Algebra.Order.Ring.Nat
import Wrkr.Metrics.Registry

/-!
# Totals over the series of a metric

The exact total that a query stands for is a sum of natural numbers over the visited series. A
recording moves it by what it adds to one cell (`total_upsert`), and the saturating sums of the
code compute it as long as it fits (`foldCounterSum_toNat`).
-/
namespace Wrkr.Metrics

variable {H F : Type} (hdr : HdrHistogram H F)

/-- What a cell adds to a sum of counters. -/
def Cell.counterValue (cell : Cell H) : Nat := (cell.counter?.map UInt64.toNat).getD 0

/-- What a cell adds to a count of values. -/
def Cell.histogramLen (cell : Cell H) : Nat :=
  (cell.histogram?.map fun h => (hdr.len h).toNat).getD 0

/-- The sum of `weight` over the visited series whose tags satisfy `predicate`. -/
def total (predicate : TagSet → Bool) (weight : Cell H → Nat)
    (visited : List (TagSet × Cell H)) : Nat :=
  (visited.map fun e => if predicate e.1 then weight e.2 else 0).sum

variable {predicate : TagSet → Bool} {weight : Cell H → Nat} {visited : List (TagSet × Cell H)}

@[simp] theorem total_nil : total predicate weight [] = 0 := rfl

theorem total_cons (e : TagSet × Cell H) (rest : List (TagSet × Cell H)) :
    total predicate weight (e :: rest) =
      (if predicate e.1 then weight e.2 else 0) + total predicate weight rest := by
  simp [total]

theorem total_append (xs ys : List (TagSet × Cell H)) :
    total predicate weight (xs ++ ys) =
      total predicate weight xs + total predicate weight ys := by
  simp [total]

/-- One cell is part of the total. -/
theorem weight_le_total {tags : TagSet} {cell : Cell H} (member : (tags, cell) ∈ visited)
    (matching : predicate tags = true) : weight cell ≤ total predicate weight visited := by
  apply List.le_sum_of_mem
  rw [List.mem_map]
  exact ⟨(tags, cell), member, by simp [matching]⟩

/-- One series that grows makes the total grow by as much. -/
theorem total_modifyAt {tags : TagSet} {op : Cell H → Cell H} {d : Nat}
    (distinct : (visited.map Prod.fst).Nodup) (present : tags ∈ visited.map Prod.fst)
    (grows : predicate tags = true → ∀ cell, (tags, cell) ∈ visited →
      weight (op cell) = weight cell + d) :
    total predicate weight (visited.map (Registry.modifyAt tags op)) =
      total predicate weight visited + if predicate tags then d else 0 := by
  induction visited with
  | nil => simp at present
  | cons e rest ih =>
    obtain ⟨t, cell⟩ := e
    simp only [List.map_cons, List.nodup_cons] at distinct
    rw [List.map_cons, total_cons, total_cons]
    by_cases here : t = tags
    · -- the entry is at the head, so the rest is left alone
      subst here
      rw [Registry.map_modifyAt_of_not_mem distinct.1]
      cases matching : predicate t with
      | false => simp [Registry.modifyAt, matching]
      | true =>
        have grown := grows matching cell (by simp)
        simp only [Registry.modifyAt, matching, ↓reduceIte, grown]
        omega
    · have later : tags ∈ rest.map Prod.fst := by simpa [Ne.symm here] using present
      have tail := ih distinct.2 later fun matching cell member =>
        grows matching cell (List.mem_cons_of_mem _ member)
      rw [tail]
      simp only [Registry.modifyAt, here, ↓reduceIte]
      omega

/-- A recording adds `d` to the total if its tags match. -/
theorem total_upsert {tags : TagSet} {fresh : Cell H} {op : Cell H → Cell H} {d : Nat}
    (distinct : (visited.map Prod.fst).Nodup) (zero : weight fresh = 0)
    (grows : predicate tags = true → ∀ cell, cell = fresh ∨ (tags, cell) ∈ visited →
      weight (op cell) = weight cell + d) :
    total predicate weight (Registry.upsert tags fresh op visited) =
      total predicate weight visited + if predicate tags then d else 0 := by
  unfold Registry.upsert
  split
  next present =>
    exact total_modifyAt distinct present fun matching cell member =>
      grows matching cell (.inr member)
  -- a new series starts from nothing
  next =>
    rw [total_append, total_cons, total_nil, Nat.add_zero]
    cases matching : predicate tags with
    | false => simp
    | true =>
      have grown := grows matching fresh (.inl rfl)
      simp only [↓reduceIte, grown, zero, Nat.zero_add]

/-- Only one series has the given tags. -/
theorem total_eq_tags (distinct : (visited.map Prod.fst).Nodup) {tags : TagSet} {cell : Cell H}
    (member : (tags, cell) ∈ visited) :
    total (fun t => decide (t = tags)) weight visited = weight cell := by
  induction visited with
  | nil => simp at member
  | cons e rest ih =>
    obtain ⟨t, c⟩ := e
    simp only [List.map_cons, List.nodup_cons] at distinct
    rw [total_cons]
    by_cases here : t = tags
    -- with distinct tags the rest contributes nothing
    · subst here
      have elsewhere : ∀ e ∈ rest, e.1 ≠ t := by
        rintro e inRest rfl
        exact distinct.1 (List.mem_map_of_mem inRest)
      have rest_zero : total (fun t' => decide (t' = t)) weight rest = 0 := by
        apply List.sum_eq_zero
        intro n inMap
        rw [List.mem_map] at inMap
        obtain ⟨e, inRest, rfl⟩ := inMap
        simp [elsewhere e inRest]
      have same : c = cell := by
        rw [List.mem_cons] at member
        rcases member with first | inRest
        · exact (Prod.mk.inj first).2.symm
        · exact absurd rfl (elsewhere _ inRest)
      simp [rest_zero, same]
    · have inRest : (tags, cell) ∈ rest := by
        rw [List.mem_cons] at member
        rcases member with first | inRest
        · exact absurd (Prod.mk.inj first).1.symm here
        · exact inRest
      simp [here, ih distinct.2 inRest]

/-- What the fold over the counters does at a series. -/
def addCounter (predicate : TagSet → Bool) (total : UInt64) (e : TagSet × Cell H) : UInt64 :=
  if predicate e.1 then
    match e.2.counter? with
    | some c => saturatingAdd total c
    | none => total
  else total

theorem foldCounterSum_eq_foldl (r : Registry H) (metric : MetricId) (predicate : TagSet → Bool) :
    r.foldCounterSum metric predicate = (r.visitSeries metric).foldl (addCounter predicate) 0 := rfl

/-- The loop adds up to the limit and stays there. -/
theorem foldl_addCounter (predicate : TagSet → Bool) (visited : List (TagSet × Cell H))
    (start : UInt64) :
    (visited.foldl (addCounter predicate) start).toNat =
      min (start.toNat + total predicate Cell.counterValue visited) (2 ^ 64 - 1) := by
  induction visited generalizing start with
  | nil =>
    have bound := start.toNat_lt
    simp only [List.foldl_nil, total_nil]
    omega
  | cons e rest ih =>
    rw [List.foldl_cons, ih, total_cons, addCounter]
    cases matching : predicate e.1 with
    | false => simp
    -- once at the limit, adding leaves it there
    | true =>
      cases loaded : e.2.counter? with
      | none => simp [Cell.counterValue, loaded]
      | some c =>
        simp only [↓reduceIte, Cell.counterValue, loaded, Option.map_some, Option.getD_some,
          saturatingAdd_toNat]
        omega

/-- The saturating sum of the counters is the exact total, capped. -/
theorem foldCounterSum_toNat (r : Registry H) (metric : MetricId) (predicate : TagSet → Bool) :
    (r.foldCounterSum metric predicate).toNat =
      min (total predicate Cell.counterValue (r.visitSeries metric)) (2 ^ 64 - 1) := by
  rw [foldCounterSum_eq_foldl, foldl_addCounter, UInt64.toNat_zero, Nat.zero_add]

/-- What the fold over the histograms does at a series. -/
def addHistogram (predicate : TagSet → Bool) (acc : H × Bool) (e : TagSet × Cell H) : H × Bool :=
  if predicate e.1 then
    match e.2.histogram? with
    | some h => (hdr.add acc.1 h, true)
    | none => acc
  else acc

theorem foldHistogramSummary_eq_foldl (r : Registry H) (metric : MetricId)
    (predicate : TagSet → Bool) :
    r.foldHistogramSummary hdr metric predicate =
      let after := (r.visitSeries metric).foldl (addHistogram hdr predicate)
        (hdr.newDefaultHistogram, false)
      if after.2 then some (summarizeHistogram hdr after.1) else none := rfl

/-- The fold counts the values, and remembers whether there was a histogram. -/
theorem len_foldl_addHistogram (lawful : hdr.Lawful) (predicate : TagSet → Bool)
    (visited : List (TagSet × Cell H)) (acc : H × Bool)
    (bounded : (hdr.len acc.1).toNat + total predicate (Cell.histogramLen hdr) visited < 2 ^ 64) :
    let after := visited.foldl (addHistogram hdr predicate) acc
    (hdr.len after.1).toNat =
        (hdr.len acc.1).toNat + total predicate (Cell.histogramLen hdr) visited ∧
      (after.2 = true ↔
        acc.2 = true ∨ ∃ e ∈ visited, predicate e.1 = true ∧ e.2.histogram?.isSome) := by
  induction visited generalizing acc with
  | nil => simp
  | cons e rest ih =>
    rw [total_cons] at bounded ⊢
    simp only [List.foldl_cons, List.mem_cons, exists_eq_or_imp]
    cases matching : predicate e.1 with
    -- a series that does not match, or that is no histogram, leaves the sum as it is
    | false =>
      have kept : addHistogram hdr predicate acc e = acc := by simp [addHistogram, matching]
      simp only [matching, kept, Bool.false_eq_true, ↓reduceIte, Nat.zero_add, false_and,
        false_or] at bounded ⊢
      exact ih acc bounded
    | true =>
      cases loaded : e.2.histogram? with
      | none =>
        have kept : addHistogram hdr predicate acc e = acc := by
          simp [addHistogram, matching, loaded]
        simp only [matching, loaded, kept, Cell.histogramLen, ↓reduceIte, Option.map_none,
          Option.getD_none, Nat.zero_add, Option.isSome_none, Bool.false_eq_true, and_false,
          false_or] at bounded ⊢
        exact ih acc bounded
      | some h =>
        have added : addHistogram hdr predicate acc e = (hdr.add acc.1 h, true) := by
          simp [addHistogram, matching, loaded]
        simp only [matching, loaded, added, Cell.histogramLen, ↓reduceIte, Option.map_some,
          Option.getD_some, Option.isSome_some, and_self, true_or, or_true,
          iff_true] at bounded ⊢
        have grown := lawful.len_add acc.1 h (by omega)
        obtain ⟨length, flag⟩ := ih (hdr.add acc.1 h, true) (by dsimp only; omega)
        dsimp only at length flag
        exact ⟨by rw [length, grown]; omega, flag.mpr (.inl rfl)⟩

/-- The summary is there when a histogram is among the series, and counts the values of all of
them. -/
theorem foldHistogramSummary_count (lawful : hdr.Lawful) (r : Registry H) (metric : MetricId)
    (predicate : TagSet → Bool)
    (fits : total predicate (Cell.histogramLen hdr) (r.visitSeries metric) < 2 ^ 64) :
    ((r.foldHistogramSummary hdr metric predicate).isSome ↔
        ∃ e ∈ r.visitSeries metric, predicate e.1 = true ∧ e.2.histogram?.isSome) ∧
      ∀ summary, r.foldHistogramSummary hdr metric predicate = some summary →
        summary.count.toNat = total predicate (Cell.histogramLen hdr) (r.visitSeries metric) := by
  have start := len_foldl_addHistogram hdr lawful predicate (r.visitSeries metric)
    (hdr.newDefaultHistogram, false) (by rw [lawful.len_new, UInt64.toNat_zero]; omega)
  rw [foldHistogramSummary_eq_foldl]
  dsimp only at start ⊢
  -- the flag says whether a histogram was there, the accumulator has their values
  generalize List.foldl _ _ _ = after at start ⊢
  obtain ⟨acc, any⟩ := after
  rw [lawful.len_new, UInt64.toNat_zero, Nat.zero_add] at start
  simp only [Bool.false_eq_true, false_or] at start
  rw [← start.2, ← start.1]
  cases any with
  | false => simp
  | true =>
    simp only [↓reduceIte, Option.isSome_some, true_and]
    intro summary isSummary
    cases isSummary
    rfl

/-! ### Merged histograms -/

/-- The histograms of the series that match. -/
def matchingHistograms (r : Registry H) (metric : MetricId) (predicate : TagSet → Bool) :
    List H :=
  ((r.visitSeries metric).filter fun e => predicate e.1).filterMap fun e => e.2.histogram?

/-- What a merging query returns. -/
def mergedHistogram (r : Registry H) (metric : MetricId) (predicate : TagSet → Bool) : H :=
  (matchingHistograms r metric predicate).foldl hdr.add hdr.newDefaultHistogram

/-- The fold merges the matching histograms and remembers whether there was one. -/
theorem foldl_addHistogram (predicate : TagSet → Bool) (visited : List (TagSet × Cell H))
    (acc : H × Bool) :
    visited.foldl (addHistogram hdr predicate) acc =
      let matching := (visited.filter fun e => predicate e.1).filterMap fun e => e.2.histogram?
      (matching.foldl hdr.add acc.1, acc.2 || !matching.isEmpty) := by
  induction visited generalizing acc with
  | nil => simp
  | cons e rest ih =>
    rw [List.foldl_cons, addHistogram]
    cases matching : predicate e.1 with
    | false => simp [matching, ih]
    | true => cases loaded : e.2.histogram? <;> simp [matching, loaded, ih]

/-- The summary of a fold is that of the merge, when a histogram matches. -/
theorem foldHistogramSummary_eq {r : Registry H} {metric : MetricId}
    {predicate : TagSet → Bool} (some : matchingHistograms r metric predicate ≠ []) :
    r.foldHistogramSummary hdr metric predicate =
      Option.some (summarizeHistogram hdr (mergedHistogram hdr r metric predicate)) := by
  have nonempty : (matchingHistograms r metric predicate).isEmpty = false := by
    simpa using some
  have whole := foldl_addHistogram hdr predicate (r.visitSeries metric)
    (hdr.newDefaultHistogram, false)
  rw [← matchingHistograms] at whole
  simp only [nonempty, Bool.false_or, Bool.not_false] at whole
  rw [foldHistogramSummary_eq_foldl, whole]
  rfl

theorem len_merged_ne_zero (saturating : hdr.SaturatingAdd) {histograms : List H} {acc : H}
    (some : hdr.len acc ≠ 0 ∨ ∃ h ∈ histograms, hdr.len h ≠ 0) :
    hdr.len (histograms.foldl hdr.add acc) ≠ 0 := by
  induction histograms generalizing acc with
  | nil => simpa using some
  | cons h rest ih =>
    apply ih
    rw [List.exists_mem_cons_iff, ← or_assoc] at some
    exact some.imp_left (saturating acc h)

end Wrkr.Metrics
