import Mathlib.Data.List.Sort
import Wrkr.Metrics.Key

/-!
# Tag sets

A `TagSet` is a vector of interned pairs. `resolve_tags` sorts it, and `get` relies on that: it
looks at the first pair whose key is not below the one asked for. `TagSet::project` keeps the
order of the keys it is given, whether or not that is the order of their ids.
-/
namespace Wrkr.Metrics

/-- The pairs are sorted by key, if the caller has sorted them. -/
structure TagSet where
  tags : List (KeyId × KeyId)
  deriving DecidableEq, Repr

/-- The derived order of pairs, by key and then by value. -/
def TagLe (a b : KeyId × KeyId) : Prop := a.1 < b.1 ∨ a.1 = b.1 ∧ a.2 ≤ b.2

instance : DecidableRel TagLe := fun a b => inferInstanceAs (Decidable (a.1 < b.1 ∨ _))

theorem tagLe_iff_toNat {a b : KeyId × KeyId} :
    TagLe a b ↔ a.1.toNat < b.1.toNat ∨ a.1.toNat = b.1.toNat ∧ a.2.toNat ≤ b.2.toNat := by
  simp only [TagLe, UInt32.lt_iff_toNat_lt, UInt32.le_iff_toNat_le, ← UInt32.toNat_inj]

instance : Std.Total TagLe where
  total a b := by
    rw [tagLe_iff_toNat, tagLe_iff_toNat]
    omega

instance : IsTrans (KeyId × KeyId) TagLe where
  trans a b c := by
    rw [tagLe_iff_toNat, tagLe_iff_toNat, tagLe_iff_toNat]
    omega

instance : Std.Antisymm TagLe where
  antisymm a b := by
    rw [tagLe_iff_toNat, tagLe_iff_toNat]
    intro ab ba
    have first : a.1.toNat = b.1.toNat := by omega
    have second : a.2.toNat = b.2.toNat := by omega
    exact Prod.ext (UInt32.toNat_inj.mp first) (UInt32.toNat_inj.mp second)

namespace TagSet

def empty : TagSet := ⟨[]⟩

/-- Nothing is sorted or checked here. -/
def fromSortedIter (iter : List (KeyId × KeyId)) : TagSet := ⟨iter⟩

/-- The look-up by binary search, which relies on the order of the keys. -/
def get (set : TagSet) (key : KeyId) : Option KeyId :=
  -- `partition_point`: on a sorted slice, the number of leading keys below `key`
  let idx := (set.tags.takeWhile fun tag => tag.1 < key).length
  set.tags[idx]?.bind fun tag => if tag.1 = key then some tag.2 else none

/-- The tags of some keys, in the order in which the keys are given. -/
def project (set : TagSet) (keys : List KeyId) : TagSet :=
  if keys.isEmpty then empty
  else ⟨keys.filterMap fun key => (set.get key).map fun value => (key, value)⟩

/-- What `sort_unstable` establishes. -/
def Sorted (set : TagSet) : Prop := set.tags.Pairwise TagLe

/-! ### Lookups -/

theorem getElem?_length_takeWhile {α : Type} (p : α → Bool) (xs : List α) :
    xs[(xs.takeWhile p).length]? = xs.find? fun x => !p x := by
  induction xs with
  | nil => rfl
  | cons x rest ih =>
    cases below : p x with
    | true => simpa [List.takeWhile_cons, below] using ih
    | false => simp [below]

theorem get_eq_find? (set : TagSet) (key : KeyId) :
    set.get key = (set.tags.find? fun tag => !decide (tag.1 < key)).bind fun tag =>
      if tag.1 = key then some tag.2 else none := by
  rw [get, getElem?_length_takeWhile]

theorem mem_of_get {set : TagSet} {key value : KeyId} (found : set.get key = some value) :
    (key, value) ∈ set.tags := by
  rw [get_eq_find?, Option.bind_eq_some_iff] at found
  obtain ⟨tag, first, isKey⟩ := found
  split at isKey
  next same =>
    cases isKey
    have member := List.mem_of_find?_eq_some first
    exact same ▸ member
  next => simp at isKey

/-- A lookup in a sorted set finds a value of the key that is not above any other. -/
theorem Sorted.exists_get {set : TagSet} (sorted : set.Sorted) {key value : KeyId}
    (member : (key, value) ∈ set.tags) : ∃ v, set.get key = some v ∧ v ≤ value := by
  rw [get_eq_find?]
  cases first : set.tags.find? fun tag => !decide (tag.1 < key) with
  | none =>
    have below := List.find?_eq_none.mp first _ member
    simp at below
  | some tag =>
    have notBelow := List.find?_some first
    obtain ⟨skipped, rest, split, below⟩ := (List.find?_eq_some_iff_append.mp first).2
    -- the entry for `key` is not among the skipped ones, so it is not before `tag`
    have ordered : TagLe tag (key, value) := by
      rw [split, List.mem_append, List.mem_cons] at member
      rcases member with early | here | late
      · have isBelow := below _ early
        simp at isBelow
      · rw [← here]
        exact .inr ⟨rfl, UInt32.le_refl _⟩
      · rw [Sorted, split, List.pairwise_append] at sorted
        exact (List.pairwise_cons.mp sorted.2.1).1 _ late
    rw [tagLe_iff_toNat] at ordered
    simp only [Bool.not_eq_eq_eq_not, Bool.not_true, decide_eq_false_iff_not,
      UInt32.lt_iff_toNat_lt] at notBelow ordered
    have same : tag.1 = key := UInt32.toNat_inj.mp (by omega)
    refine ⟨tag.2, by simp [same], ?_⟩
    rw [UInt32.le_iff_toNat_le]
    omega

/-- A lookup in a sorted set finds the value of a key that has only one. -/
theorem Sorted.get_of_mem {set : TagSet} (sorted : set.Sorted) {key value : KeyId}
    (member : (key, value) ∈ set.tags)
    (only : ∀ value', (key, value') ∈ set.tags → value' = value) : set.get key = some value := by
  obtain ⟨v, found, -⟩ := sorted.exists_get member
  rw [found, only v (mem_of_get found)]

/-- A lookup in a sorted set finds the least value of the key. -/
theorem Sorted.get_eq_some_iff {set : TagSet} (sorted : set.Sorted) {key value : KeyId} :
    set.get key = some value ↔
      (key, value) ∈ set.tags ∧ ∀ value', (key, value') ∈ set.tags → value ≤ value' := by
  have least {v : KeyId} (found : set.get key = some v) :
      ∀ value', (key, value') ∈ set.tags → v ≤ value' := by
    intro value' member
    obtain ⟨v', found', le⟩ := sorted.exists_get member
    rw [found] at found'
    exact Option.some.inj found' ▸ le
  constructor
  · exact fun found => ⟨mem_of_get found, least found⟩
  · rintro ⟨member, isLeast⟩
    obtain ⟨v, found, le⟩ := sorted.exists_get member
    rw [found, UInt32.le_antisymm le (isLeast v (mem_of_get found))]

/-- A lookup sees the pairs of its key only. -/
theorem Sorted.get_congr {a b : TagSet} (sortedA : a.Sorted) (sortedB : b.Sorted) {key : KeyId}
    (same : ∀ value, (key, value) ∈ a.tags ↔ (key, value) ∈ b.tags) : a.get key = b.get key := by
  ext value
  rw [sortedA.get_eq_some_iff, sortedB.get_eq_some_iff]
  simp only [same]

theorem get_eq_none {set : TagSet} {key : KeyId} (absent : ∀ value, (key, value) ∉ set.tags) :
    set.get key = none := by
  cases found : set.get key with
  | none => rfl
  | some value => exact absurd (mem_of_get found) (absent value)

theorem project_tags (set : TagSet) (keys : List KeyId) :
    (set.project keys).tags = keys.filterMap fun key => (set.get key).map fun value => (key, value) := by
  unfold project
  split
  next none =>
    rw [List.isEmpty_iff.mp none]
    rfl
  next => rfl

end TagSet

end Wrkr.Metrics
