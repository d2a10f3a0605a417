import Wrkr.Core.ThresholdsEval
import Wrkr.Metrics.Summary

/-!
# What is recorded on the metrics of a run

`Ledger` says that the metrics of a run hold the entries recorded so far and nothing else. An
aggregation `count` of a threshold on one tag then observes what the entries with this tag add up
to (`Ledger.observed_count`).
-/
namespace Wrkr.Core.Accounting

open Wrkr.Lib Wrkr.Metrics

variable {H F : Type} (hdr : HdrHistogram H F)

/-- What the entries on the metric add to the tags that satisfy the predicate. -/
abbrev recordedAt (n : Interner) (metric : MetricId) (predicate : TagSet → Bool)
    (entries : List Entry) : Nat :=
  Registry.recorded hdr metric predicate (entries.map fun entry => entry.at n)

/-- The metric of the run with the name, with the entries on it. -/
structure Keeps (n : Interner) (r : Registry H) (entries : List Entry) (metric : MetricId)
    (name : String) (kind : MetricKind) : Prop where
  tracks : r.Tracks metric kind
  defines : ∃ id, r.Defines metric name ⟨id, kind⟩
  series : ∀ tags, tags ∈ (r.visitSeries metric).map Prod.fst ↔
    ∃ entry ∈ entries, entry.metric = metric ∧ n.tagSet entry.pairs = tags
  totals : ∀ predicate, recordedAt hdr n metric predicate entries < 2 ^ 64 →
    total predicate (weight hdr kind) (r.visitSeries metric) =
      recordedAt hdr n metric predicate entries

/-- The registry as the entries made it: every metric of the run holds those on it, and the strings
are known. -/
structure Ledger (n : Interner) (r : Registry H) (entries : List Entry) : Prop where
  orderly : r.Orderly
  known : Known n entries
  keeps : ∀ i name kind, runMetrics[i]? = some (name, kind) →
    Keeps hdr n r entries (UInt32.ofNat i) name kind

variable {hdr} {n : Interner} {r : Registry H} {entries : List Entry}

/-- Interning changes no series. -/
theorem Ledger.withInterner (ledger : Ledger hdr n r entries) {interner : Interner}
    (ext : Interner.Extends r.interner interner) :
    Ledger hdr n (r.withInterner interner) entries := by
  refine ⟨ledger.orderly.withInterner ext, ledger.known, fun i name kind here => ?_⟩
  have keeps := ledger.keeps i name kind here
  obtain ⟨id, defines⟩ := keeps.defines
  exact ⟨⟨⟨keeps.tracks.registered.stored, keeps.tracks.registered.defined⟩, keeps.tracks.typed⟩,
    ⟨id, defines.stored, defines.defined, ext _ _ defines.named⟩, keeps.series, keeps.totals⟩

/-! ### Thresholds on one tag -/

/-- What the entries with the tag add to the metric, one number for each. -/
def tagged (hdr : HdrHistogram H F) (metric : MetricId) (tag : String × String)
    (entries : List Entry) : List Nat :=
  (entries.filter fun entry => entry.metric = metric ∧ tag ∈ entry.pairs).map
    fun entry => entry.amount.size hdr

/-- A metric is found by its name. -/
theorem lookupMetric_of_defines (orderly : r.Orderly) {metric : MetricId} {name : String}
    {metricDef : MetricDef} (defines : r.Defines metric name metricDef) :
    (r.lookupMetric name).2 = some (metric, metricDef.kind) := by
  obtain ⟨low, isDef⟩ := List.getElem?_eq_some_iff.mp defines.defined
  have found : (r.defs.findIdx? fun d => d.name = metricDef.name) = some metric.toNat := by
    rw [List.findIdx?_eq_some_iff_getElem]
    refine ⟨low, by simp [isDef], fun j before => ?_⟩
    rw [decide_eq_true_eq]
    -- no other definition has the name
    intro same
    have bound := metric.toNat_lt
    have number : (UInt32.ofNat j).toNat = j := by
      rw [UInt32.toNat_ofNat']
      omega
    have isMetric := orderly.metric_of_name defines.defined
      (by rw [number]; exact List.getElem?_eq_getElem (Nat.lt_trans before low)) same
    rw [isMetric] at number
    exact Nat.ne_of_lt before number.symm
  rw [Registry.lookupMetric, Interner.getOrIntern_of_some defines.named]
  simp [found, low, isDef]

/-- The key has no second value among the tags. -/
def Single (key : String) (pairs : List (String × String)) : Prop :=
  ∀ v v', (key, v) ∈ pairs → (key, v') ∈ pairs → v' = v

/-- A selector with one tag matches the series that have it. -/
theorem matchesTags_single {selector : TagSelector} (ample : n.Ample) {tag : String × String}
    {pairs : List (String × String)}
    (isSelector : selector = .selector [n.idOf tag.1] (n.tagSet [tag]))
    (knowsTag : n.Knows tag.1 ∧ n.Knows tag.2) (single : Single tag.1 pairs)
    (knows : ∀ tag ∈ pairs, n.Knows tag.1 ∧ n.Knows tag.2) :
    selector.matchesTags (n.tagSet pairs) = decide (tag ∈ pairs) := by
  rw [isSelector, TagSelector.matchesTags, decide_eq_decide]
  constructor
  · intro same
    exact TagSelector.subset_of_project_eq ample (by simpa using knowsTag) knows same tag (by simp)
  · intro inside
    -- the key comes with one value only, so the look-up finds this one
    have found := Interner.tagSet_get_of_mem ample knows inside
      fun value' other => single tag.2 value' inside other
    refine congrArg TagSet.mk ?_
    rw [List.filterMap_cons, found]
    rfl

section Matching

variable {selector : TagSelector} {metric : MetricId} {tag : String × String}
  (matching : ∀ entry ∈ entries, entry.metric = metric →
    selector.matchesTags (n.tagSet entry.pairs) = decide (tag ∈ entry.pairs))

include matching

/-- A series matches when an entry has the tag. -/
theorem Keeps.anySeries_iff {name : String} {kind : MetricKind}
    (keeps : Keeps hdr n r entries metric name kind) :
    selector.anySeries r metric = true ↔ ¬tagged hdr metric tag entries = [] := by
  have some : ¬tagged hdr metric tag entries = [] ↔
      ∃ entry ∈ entries, entry.metric = metric ∧ tag ∈ entry.pairs := by
    simp [tagged]
  rw [some, TagSelector.anySeries, List.any_eq_true]
  constructor
  · rintro ⟨series, member, matched⟩
    obtain ⟨entry, inEntries, onMetric, isTags⟩ :=
      (keeps.series series.1).mp (List.mem_map_of_mem member)
    rw [← isTags, matching entry inEntries onMetric, decide_eq_true_eq] at matched
    exact ⟨entry, inEntries, onMetric, matched⟩
  -- an entry with the tag has a series, which the selector matches
  · rintro ⟨entry, inEntries, onMetric, inside⟩
    obtain ⟨series, member, isTags⟩ := List.mem_map.mp
      ((keeps.series _).mpr ⟨entry, inEntries, onMetric, rfl⟩)
    refine ⟨series, member, ?_⟩
    rw [isTags, matching entry inEntries onMetric]
    simpa using inside

/-- The entries that a selector of one tag matches are those with this tag. -/
theorem recordedAt_eq_tagged :
    recordedAt hdr n metric selector.matchesTags entries = (tagged hdr metric tag entries).sum := by
  have split : (tagged hdr metric tag entries).sum = (entries.map fun entry =>
      if entry.metric = metric ∧ tag ∈ entry.pairs then entry.amount.size hdr else 0).sum := by
    rw [List.sum_map_ite]
    simp [tagged]
  rw [split, recordedAt, Registry.recorded, List.map_map]
  refine congrArg List.sum (List.map_congr_left fun entry member => ?_)
  by_cases onMetric : entry.metric = metric
  · simp [Entry.at, onMetric, matching entry member onMetric]
  · simp [Entry.at, onMetric]

/-- The series that match hold what the entries with the tag add up to. -/
theorem Keeps.foldCounterSum_eq {name : String} (keeps : Keeps hdr n r entries metric name .counter)
    (fits : (tagged hdr metric tag entries).sum < 2 ^ 64) :
    r.foldCounterSum metric selector.matchesTags =
      UInt64.ofNat (tagged hdr metric tag entries).sum := by
  have sum : recordedAt hdr n metric selector.matchesTags entries =
      (tagged hdr metric tag entries).sum := recordedAt_eq_tagged matching
  have totals := keeps.totals selector.matchesTags (by rw [sum]; exact fits)
  have folded := foldCounterSum_toNat r metric selector.matchesTags
  change _ = min (total selector.matchesTags (weight hdr .counter) _) _ at folded
  rw [totals, sum] at folded
  rw [← UInt64.toNat_inj, folded, UInt64.toNat_ofNat']
  omega

end Matching

section Observed

variable {H : Type} {hdr : HdrHistogram H UInt64} {ratio : UInt64 → UInt64 → UInt64} {r : Registry H}

theorem observed_interner (r : Registry H) (name : String) (tags : List (String × String))
    (agg : ThresholdAgg) : (observed hdr ratio r name tags agg).1 =
      ((TagSelector.new r tags).1.lookupMetric name).1 := by
  rw [observed]
  dsimp only
  split <;> rfl

variable (hdr ratio) in
/-- Evaluating a threshold interns strings. -/
theorem observed_extends (wf : r.interner.Wf) (name : String) (tags : List (String × String))
    (agg : ThresholdAgg) :
    Interner.Extends r.interner (observed hdr ratio r name tags agg).1.interner ∧
      (observed hdr ratio r name tags agg).1.interner.Wf := by
  rw [observed_interner]
  have selecting := (TagSelector.new_evolves hdr r tags).interner
  have lookup : Registry.Operation hdr (TagSelector.new r tags).1 _ := .lookupMetric _ name
  exact ⟨selecting.1.trans lookup.interner.1, lookup.interner.2 (selecting.2 wf)⟩

/-- A threshold on the count of one of the run's counters, for the series with one tag: it observes
the sum of the entries with this tag, and nothing if there is none. -/
theorem Ledger.observed_count (ledger : Ledger hdr n r entries) {i : Nat} {name : String}
    (here : runMetrics[i]? = some (name, .counter)) (tag : String × String)
    (isLast : (observed hdr ratio r name [tag] .count).1.interner = n) (ample : n.Ample)
    (single : ∀ entry ∈ entries, entry.metric = UInt32.ofNat i → Single tag.1 entry.pairs)
    (fits : (tagged hdr (UInt32.ofNat i) tag entries).sum < 2 ^ 64) :
    (observed hdr ratio r name [tag] .count).2 =
      if tagged hdr (UInt32.ofNat i) tag entries = [] then none
      else some (Ieee.ofU64 (UInt64.ofNat (tagged hdr (UInt32.ofNat i) tag entries).sum)) := by
  have extLast : Interner.Extends (TagSelector.new r [tag]).1.interner n := by
    rw [← isLast, observed_interner]
    exact Interner.getOrIntern_extends _ _
  obtain ⟨isSelector, knowsTag⟩ := TagSelector.new_spec (List.cons_ne_nil tag []) extLast
  have matching (entry : Entry) (member : entry ∈ entries)
      (onMetric : entry.metric = UInt32.ofNat i) :
      (TagSelector.new r [tag]).2.matchesTags (n.tagSet entry.pairs) =
        decide (tag ∈ entry.pairs) :=
    matchesTags_single ample isSelector (knowsTag tag (List.mem_singleton_self tag))
      (single entry member onMetric) (ledger.known entry member)
  -- neither making the selector nor the lookup records anything
  obtain ⟨interner, isNew⟩ := TagSelector.new_withInterner r [tag]
  have selected : Ledger hdr n (TagSelector.new r [tag]).1 entries := by
    have ext := (TagSelector.new_evolves hdr r [tag]).interner.1
    rw [isNew] at ext ⊢
    exact ledger.withInterner ext
  obtain ⟨id, defines⟩ := (selected.keeps i name .counter here).defines
  have found := lookupMetric_of_defines selected.orderly defines
  have folds : ((TagSelector.new r [tag]).1.lookupMetric name).1.foldCounterSum =
      r.foldCounterSum := by
    rw [isNew]
    rfl
  have visits (selector : TagSelector) :
      selector.anySeries ((TagSelector.new r [tag]).1.lookupMetric name).1 =
        selector.anySeries r := by
    rw [isNew]
    rfl
  have keeps := ledger.keeps i name .counter here
  simp only [observed, found, observedValue, visits, folds, keeps.foldCounterSum_eq matching fits,
    keeps.anySeries_iff matching, ite_not]

end Observed

end Wrkr.Core.Accounting
