import Wrkr.Metrics.Interning
import Wrkr.Metrics.Recordings

/-!
# Tag selectors of thresholds

`TagSelector::new` resolves the pairs of a selector twice: the keys in the order of the selector,
and the pairs as a tag set, which is sorted by id. `matches` projects a series to the keys and
compares the result with the tag set, so a selector matches a series that has all its pairs only
when its keys come in the order of their ids (`matches_iff_exact`). `Query::group_by` sorts the
keys it projects to; this code does not.
-/
namespace Wrkr.Core

open Wrkr.Metrics

variable {H F : Type} {hdr : HdrHistogram H F}

/-- Everything, or what has these tags under these keys. -/
inductive TagSelector
  | all
  | selector (keys : List KeyId) (tags : TagSet)
  deriving DecidableEq, Repr

namespace TagSelector

/-- The loop over `resolve_key` for the keys of a selector. -/
def resolveKeys (metrics : Registry H) : List String → Registry H × List KeyId
  | [] => (metrics, [])
  | key :: rest =>
    let (metrics, id) := metrics.resolveKey key
    let (metrics, ids) := resolveKeys metrics rest
    (metrics, id :: ids)

/-- The keys are interned in the given order, the tags are sorted. -/
def new (metrics : Registry H) (selectorTags : List (String × String)) : Registry H × TagSelector :=
  if selectorTags.isEmpty then (metrics, .all)
  else
    let (metrics, keyIds) := resolveKeys metrics (selectorTags.map Prod.fst)
    let (metrics, tags) := metrics.resolveTags selectorTags
    (metrics, .selector keyIds tags)

/-- `matches`. -/
def matchesTags (selector : TagSelector) (seriesTags : TagSet) : Bool :=
  match selector with
  | .all => true
  | .selector keys tags => seriesTags.project keys = tags

/-! ### Selectors seen from a later registry -/

theorem resolveKeys_cons (metrics : Registry H) (key : String) (rest : List String) :
    resolveKeys metrics (key :: rest) =
      let afterKey := (metrics.resolveKey key).1
      ((resolveKeys afterKey rest).1, (metrics.resolveKey key).2 :: (resolveKeys afterKey rest).2) :=
  rfl

theorem resolveKeys_evolves (hdr : HdrHistogram H F) (metrics : Registry H) (keys : List String) :
    Registry.Evolves hdr metrics (resolveKeys metrics keys).1 := by
  induction keys generalizing metrics with
  | nil => exact .refl _
  | cons key rest ih =>
    rw [resolveKeys_cons]
    exact (Registry.Evolves.of_operation (.resolveKey metrics key)).trans (ih _)

theorem resolveKeys_extends (metrics : Registry H) (keys : List String) :
    Interner.Extends metrics.interner (resolveKeys metrics keys).1.interner := by
  induction keys generalizing metrics with
  | nil => exact Interner.Extends.refl _
  | cons key rest ih =>
    rw [resolveKeys_cons]
    exact Interner.Extends.trans (Interner.getOrIntern_extends _ key) (ih (metrics.resolveKey key).1)

/-- Each key gets its id, in the given order. -/
theorem resolveKeys_spec {metrics : Registry H} {later : Interner} (keys : List String)
    (ext : Interner.Extends (resolveKeys metrics keys).1.interner later) :
    (resolveKeys metrics keys).2 = keys.map later.idOf := by
  induction keys generalizing metrics with
  | nil => rfl
  | cons key rest ih =>
    rw [resolveKeys_cons] at ext ⊢
    have first := Registry.resolveKey_spec key ((resolveKeys_extends _ rest).trans ext)
    rw [List.map_cons, ← first.1, ← ih ext]

theorem new_evolves (hdr : HdrHistogram H F) (metrics : Registry H)
    (selectorTags : List (String × String)) :
    Registry.Evolves hdr metrics (new metrics selectorTags).1 := by
  unfold new
  split
  · exact .refl _
  · exact .step (resolveKeys_evolves hdr metrics _) (.resolveTags _ _)

/-- Making a selector records nothing. -/
theorem new_withInterner (metrics : Registry H) (selectorTags : List (String × String)) :
    ∃ interner, (new metrics selectorTags).1 = metrics.withInterner interner := by
  have keys (metrics : Registry H) (names : List String) :
      ∃ interner, (resolveKeys metrics names).1 = metrics.withInterner interner := by
    induction names generalizing metrics with
    | nil => exact ⟨metrics.interner, rfl⟩
    | cons key rest ih => exact ih (metrics.resolveKey key).1
  rw [new]
  split
  · exact ⟨metrics.interner, rfl⟩
  · obtain ⟨interner, resolved⟩ := keys metrics (selectorTags.map Prod.fst)
    simp only [resolved]
    exact ⟨_, rfl⟩

/-- A selector with pairs, read off a later interner. -/
theorem new_spec {metrics : Registry H} {later : Interner} {selectorTags : List (String × String)}
    (nonempty : selectorTags ≠ [])
    (ext : Interner.Extends (new metrics selectorTags).1.interner later) :
    (new metrics selectorTags).2 =
        .selector (selectorTags.map fun tag => later.idOf tag.1) (later.tagSet selectorTags) ∧
      ∀ tag ∈ selectorTags, later.Knows tag.1 ∧ later.Knows tag.2 := by
  have hasPairs : selectorTags.isEmpty = false := by simpa using nonempty
  simp only [new, hasPairs, Bool.false_eq_true, ↓reduceIte] at ext ⊢
  obtain ⟨tags, knows⟩ := Registry.resolveTags_spec selectorTags ext
  have keys := resolveKeys_spec (selectorTags.map Prod.fst)
    ((Interner.internPairs_extends _ selectorTags).trans ext)
  rw [List.map_map] at keys
  exact ⟨by rw [tags, keys]; rfl, knows⟩

/-- The selector lists its keys in the order of their ids. -/
def InIdOrder (n : Interner) (selectorTags : List (String × String)) : Prop :=
  selectorTags.Pairwise fun a b => n.idOf a.1 < n.idOf b.1

instance (n : Interner) (selectorTags : List (String × String)) :
    Decidable (InIdOrder n selectorTags) :=
  inferInstanceAs (Decidable (List.Pairwise _ _))

section Matching

variable {n : Interner} (ample : n.Ample) {selectorTags pairs : List (String × String)}

include ample

/-- The pairs of a selector are sorted when its keys come in the order of their ids. -/
theorem sorted_iff_inIdOrder (distinct : (selectorTags.map Prod.fst).Nodup)
    (knows : ∀ tag ∈ selectorTags, n.Knows tag.1 ∧ n.Knows tag.2) :
    (selectorTags.map n.idsOf).Pairwise TagLe ↔ InIdOrder n selectorTags := by
  have keys : selectorTags.Pairwise fun a b => a.1 ≠ b.1 := List.pairwise_map.mp distinct
  rw [List.pairwise_map, InIdOrder]
  constructor
  · intro sorted
    apply List.Pairwise.imp_of_mem _ (sorted.and keys)
    rintro a b inA inB ⟨le, ne⟩
    rcases le with lt | ⟨same, -⟩
    · exact lt
    · exact absurd (ample.idOf_inj (knows a inA).1 (knows b inB).1 same) ne
  · exact fun ordered => ordered.imp fun lt => .inl lt

/-- A series with all pairs of the selector projects to them, in the order of the selector. -/
theorem project_eq_of_subset (distinct : (pairs.map Prod.fst).Nodup)
    (knows : ∀ tag ∈ pairs, n.Knows tag.1 ∧ n.Knows tag.2) (occurs : ∀ tag ∈ selectorTags, tag ∈ pairs) :
    ((n.tagSet pairs).project (selectorTags.map fun tag => n.idOf tag.1)).tags =
      selectorTags.map n.idsOf := by
  rw [TagSet.project_tags, List.filterMap_map, ← List.filterMap_eq_map]
  apply List.filterMap_congr
  rintro ⟨key, value⟩ member
  have only : ∀ value', (key, value') ∈ pairs → value' = value := by
    intro value' other
    have same := List.inj_on_of_nodup_map distinct other (occurs _ member) rfl
    exact congrArg Prod.snd same
  have found := Interner.tagSet_get_of_mem ample knows (occurs _ member) only
  simp [found, Interner.idsOf]

/-- What a series projects to is among its pairs. -/
theorem subset_of_project_eq
    (knowsSelector : ∀ tag ∈ selectorTags, n.Knows tag.1 ∧ n.Knows tag.2)
    (knowsPairs : ∀ tag ∈ pairs, n.Knows tag.1 ∧ n.Knows tag.2) {keys : List KeyId}
    (matched : (n.tagSet pairs).project keys = n.tagSet selectorTags) :
    ∀ tag ∈ selectorTags, tag ∈ pairs := by
  rintro ⟨key, value⟩ member
  have inSet : n.idsOf (key, value) ∈ (n.tagSet selectorTags).tags :=
    Interner.mem_tagSet.mpr ⟨_, member, rfl⟩
  rw [← matched, TagSet.project_tags, List.mem_filterMap] at inSet
  obtain ⟨id, -, projected⟩ := inSet
  rw [Option.map_eq_some_iff] at projected
  obtain ⟨id', found, ids⟩ := projected
  have isKey : id = n.idOf key := congrArg Prod.fst ids
  have isValue : id' = n.idOf value := congrArg Prod.snd ids
  subst isKey isValue
  obtain ⟨v, inPairs, same⟩ := Interner.key_of_mem_tagSet ample knowsPairs
    (knowsSelector _ member).1 (TagSet.mem_of_get found)
  have sameValue : value = v :=
    ample.idOf_inj (knowsSelector _ member).2 (knowsPairs _ inPairs).2 same
  exact sameValue ▸ inPairs

end Matching

/-- For every history of the registry: a selector matches a resolved series exactly when all its
pairs occur in it, unless they do occur and the selector's keys are not in the order of their
ids. -/
theorem matches_iff_exact (hdr : HdrHistogram H F) {r₁ r₂ r : Registry H}
    (pairs selectorTags : List (String × String))
    (reachable₁ : Registry.Evolves hdr Registry.default r₁)
    (series : Registry.Evolves hdr (r₁.resolveTags pairs).1 r)
    (selector : Registry.Evolves hdr (new r₂ selectorTags).1 r)
    (distinctPairs : (pairs.map Prod.fst).Nodup)
    (distinctSelector : (selectorTags.map Prod.fst).Nodup)
    (few : r.interner.vec.length ≤ 2 ^ 32) :
    ((new r₂ selectorTags).2.matchesTags (r₁.resolveTags pairs).2 = true ↔
        ∀ tag ∈ selectorTags, tag ∈ pairs) ↔
      (∃ tag ∈ selectorTags, tag ∉ pairs) ∨ InIdOrder r.interner selectorTags := by
  have ample : r.interner.Ample := by
    refine ⟨series.interner.2 ?_, few⟩
    exact Interner.Wf.internPairs (reachable₁.interner.2 Interner.wf_new) pairs
  obtain ⟨tags, knowsPairs⟩ := Registry.resolveTags_spec pairs series.interner.1
  rw [tags]
  by_cases empty : selectorTags = []
  · subst empty
    simp [new, matchesTags, InIdOrder]
  obtain ⟨isSelector, knowsSelector⟩ := new_spec empty selector.interner.1
  rw [isSelector, matchesTags, decide_eq_true_iff]
  by_cases occurs : ∀ tag ∈ selectorTags, tag ∈ pairs
  · -- the projection is the list of the selector, so matching says that this list is sorted
    have projected := project_eq_of_subset ample distinctPairs knowsPairs occurs
    have matching : (r.interner.tagSet pairs).project
          (selectorTags.map fun tag => r.interner.idOf tag.1) = r.interner.tagSet selectorTags ↔
        InIdOrder r.interner selectorTags := by
      rw [← sorted_iff_inIdOrder ample distinctSelector knowsSelector]
      constructor
      · intro same
        rw [← projected, same]
        exact Interner.tagSet_sorted _ _
      · intro sorted
        have sortedTags : (r.interner.tagSet selectorTags).tags = selectorTags.map r.interner.idsOf :=
          sorted.insertionSort_eq
        exact congrArg TagSet.mk (projected.trans sortedTags.symm)
    have noneMissing : ¬ ∃ tag ∈ selectorTags, tag ∉ pairs := by
      rintro ⟨tag, member, missing⟩
      exact missing (occurs tag member)
    simp only [matching, iff_true_intro occurs, iff_true, noneMissing, false_or]
  -- a pair that is missing cannot be in the projection
  · have unmatched : ¬ (r.interner.tagSet pairs).project
        (selectorTags.map fun tag => r.interner.idOf tag.1) = r.interner.tagSet selectorTags :=
      mt (subset_of_project_eq ample knowsSelector knowsPairs) occurs
    have missing : ∃ tag ∈ selectorTags, tag ∉ pairs := by simpa using occurs
    simp only [unmatched, occurs, missing, true_or]

def methodAndGroup : List (String × String) := [("method", "GET"), ("group", "login")]

def groupAndMethod : List (String × String) := [("group", "login"), ("method", "GET")]

/-- The registry and the tag set after a series with a method and a group has been resolved. -/
def afterSeries : Registry (List UInt64) × TagSet := Registry.default.resolveTags methodAndGroup

/-- The selector with the keys in the order of their ids matches. -/
theorem matches_iff_exact_in_order :
    InIdOrder (new afterSeries.1 methodAndGroup).1.interner methodAndGroup ∧
      (new afterSeries.1 methodAndGroup).2.matchesTags afterSeries.2 = true := by
  have ordered : InIdOrder (new afterSeries.1 methodAndGroup).1.interner methodAndGroup := by decide
  have exact := matches_iff_exact HdrHistogram.exact methodAndGroup methodAndGroup
    (.refl Registry.default) (new_evolves _ afterSeries.1 methodAndGroup) (.refl _) (by decide)
    (by decide) (by decide)
  exact ⟨ordered, (exact.mpr (.inr ordered)).mpr fun _ member => member⟩

/-- A threshold lists its tags by name, `group` before `method`, but `method` was interned first:
the selector does not match the series that has both its tags. -/
theorem ordered_selector_misses :
    (∀ tag ∈ groupAndMethod, tag ∈ methodAndGroup) ∧
      (new afterSeries.1 groupAndMethod).2.matchesTags afterSeries.2 = false := by
  decide

end TagSelector

end Wrkr.Core
