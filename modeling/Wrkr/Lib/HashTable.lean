import Mathlib.Algebra.Order.BigOperators.Group.List
import Mathlib.Algebra.Order.Ring.Nat
import Mathlib.Data.List.Nodup
import Mathlib.Data.List.Lemmas

/-!
# Hash tables

A hash table is the list of its entries in iteration order, with at most one entry for a key.
An insert replaces the value in place or appends a new entry, so the order of the keys stands
for the iteration order, and nothing below depends on which order that is.
-/
namespace Wrkr.Lib

/-- A map with the order in which its keys were first inserted. That no key comes twice is a
field. -/
structure HashTable (κ ν : Type) where
  entries : List (κ × ν)
  nodup : (entries.map Prod.fst).Nodup

namespace HashTable

variable {κ ν : Type}

def empty : HashTable κ ν := ⟨[], List.nodup_nil⟩

/-- The sum of a weight over the entries. -/
def sumOf (weight : κ → ν → Nat) (m : HashTable κ ν) : Nat :=
  (m.entries.map fun e => weight e.1 e.2).sum

@[simp] theorem sumOf_empty (weight : κ → ν → Nat) : (empty : HashTable κ ν).sumOf weight = 0 := rfl

variable [DecidableEq κ]

def get? (m : HashTable κ ν) (k : κ) : Option ν := m.entries.lookup k

def contains (m : HashTable κ ν) (k : κ) : Bool := (m.get? k).isSome

/-- Overwrite the value of the entry for `k`. -/
def replaceEntry (k : κ) (v : ν) (e : κ × ν) : κ × ν := if e.1 = k then (e.1, v) else e

@[simp] theorem replaceEntry_fst (k : κ) (v : ν) (e : κ × ν) : (replaceEntry k v e).1 = e.1 := by
  unfold replaceEntry
  split <;> rfl

theorem lookup_eq_none_iff {es : List (κ × ν)} {k : κ} :
    es.lookup k = none ↔ k ∉ es.map Prod.fst := by
  simp only [List.lookup_eq_none_iff, List.mem_map, not_exists, not_and, bne_iff_ne]
  constructor
  · intro absent e member same
    exact absent e member same.symm
  · intro absent e member same
    exact absent e member same.symm

/-- Without an entry for the key there is nothing to overwrite. -/
theorem map_replaceEntry_of_absent {es : List (κ × ν)} {k : κ} (absent : k ∉ es.map Prod.fst)
    (v : ν) : es.map (replaceEntry k v) = es := by
  have same : es.map (replaceEntry k v) = es.map id := by
    apply List.map_congr_left
    intro e member
    have other : e.1 ≠ k := fun here => absent (here ▸ List.mem_map_of_mem member)
    rw [replaceEntry, if_neg other]
    rfl
  rw [same, List.map_id]

/-- An insert on the list of entries. -/
def insertEntry (es : List (κ × ν)) (k : κ) (v : ν) : List (κ × ν) :=
  if (es.lookup k).isSome then es.map (replaceEntry k v) else es ++ [(k, v)]

theorem insertEntry_of_present {es : List (κ × ν)} {k : κ} (present : (es.lookup k).isSome = true)
    (v : ν) : insertEntry es k v = es.map (replaceEntry k v) := if_pos present

theorem insertEntry_of_absent {es : List (κ × ν)} {k : κ} (absent : k ∉ es.map Prod.fst) (v : ν) :
    insertEntry es k v = es ++ [(k, v)] := by
  rw [insertEntry, lookup_eq_none_iff.mpr absent]
  rfl

theorem lookup_last {es : List (κ × ν)} {k : κ} (absent : k ∉ es.map Prod.fst) (v : ν) :
    (es ++ [(k, v)]).lookup k = some v := by
  rw [List.lookup_append, lookup_eq_none_iff.mpr absent]
  simp

/-- An insert at the key that was inserted last. -/
theorem insertEntry_last {es : List (κ × ν)} {k : κ} (absent : k ∉ es.map Prod.fst) (v v' : ν) :
    insertEntry (es ++ [(k, v)]) k v' = es ++ [(k, v')] := by
  have found : ((es ++ [(k, v)]).lookup k).isSome := by
    rw [lookup_last absent]
    rfl
  rw [insertEntry_of_present found, List.map_append, map_replaceEntry_of_absent absent]
  simp [replaceEntry]

/-- A key that is there keeps its place and gets the new value, a new one comes last. -/
def insert (m : HashTable κ ν) (k : κ) (v : ν) : HashTable κ ν :=
  if present : m.contains k then
    ⟨m.entries.map (replaceEntry k v), by
      simpa [List.map_map, Function.comp_def] using m.nodup⟩
  else
    ⟨m.entries ++ [(k, v)], by
      have absent : k ∉ m.entries.map Prod.fst := by
        rw [← lookup_eq_none_iff]
        exact Option.not_isSome_iff_eq_none.mp present
      rw [List.map_append, List.nodup_append]
      refine ⟨m.nodup, by simp, ?_⟩
      rintro a member b last rfl
      simp only [List.map_cons, List.map_nil, List.mem_singleton] at last
      exact absent (last ▸ member)⟩

def remove (m : HashTable κ ν) (k : κ) : HashTable κ ν :=
  ⟨m.entries.filter fun e => e.1 ≠ k, m.nodup.sublist (List.filter_sublist.map _)⟩

/-! ### Lookups -/

@[simp] theorem get?_empty (k : κ) : (empty : HashTable κ ν).get? k = none := rfl

/-- Replacing changes the value of one key. -/
theorem lookup_map_replaceEntry (es : List (κ × ν)) (k : κ) (v : ν) (k' : κ) :
    (es.map (replaceEntry k v)).lookup k' =
      if k' = k then (es.lookup k').map fun _ => v else es.lookup k' := by
  induction es with
  | nil => simp
  | cons e rest ih =>
    obtain ⟨key, value⟩ := e
    -- replacing keeps the keys, so the look-up stops where it did
    by_cases here : k' = key
    · subst here
      by_cases same : k' = k
      · subst same
        simp [replaceEntry]
      · simp [replaceEntry, same]
    · have later : (k' == key) = false := by simpa using here
      by_cases replaced : key = k
      · simp [replaceEntry, replaced, List.lookup_cons, replaced ▸ later, ih]
      · simp [replaceEntry, replaced, List.lookup_cons, later, ih]

/-- The one law of insertion that everything else rests on. -/
theorem get?_insert (m : HashTable κ ν) (k : κ) (v : ν) (k' : κ) :
    (m.insert k v).get? k' = if k' = k then some v else m.get? k' := by
  unfold insert
  split
  next present =>
    simp only [get?, lookup_map_replaceEntry]
    split
    next same =>
      subst same
      obtain ⟨old, found⟩ := Option.isSome_iff_exists.mp present
      simp only [get?] at found
      simp [found]
    next => rfl
  -- a new entry goes to the end, behind those with other keys
  next absent =>
    have missing : m.entries.lookup k = none := Option.not_isSome_iff_eq_none.mp absent
    simp only [get?, List.lookup_append]
    by_cases same : k' = k
    · subst same
      simp [missing]
    · have later : (k' == k) = false := by simpa using same
      simp [List.lookup_cons, same, later]

@[simp] theorem get?_insert_self (m : HashTable κ ν) (k : κ) (v : ν) :
    (m.insert k v).get? k = some v := by
  simp [get?_insert]

theorem get?_insert_of_ne (m : HashTable κ ν) {k k' : κ} (v : ν) (ne : k' ≠ k) :
    (m.insert k v).get? k' = m.get? k' := by
  simp [get?_insert, ne]

/-- A filter on keys leaves the entries for the keys that pass. -/
theorem lookup_filter {p : κ → Bool} {k : κ} (passes : p k = true) (es : List (κ × ν)) :
    (es.filter fun e => p e.1).lookup k = es.lookup k := by
  induction es with
  | nil => rfl
  | cons e rest ih =>
    obtain ⟨key, value⟩ := e
    by_cases here : k = key
    · subst here
      simp [passes]
    · have later : (k == key) = false := by simpa using here
      by_cases kept : p key = true
      · simp [kept, List.lookup_cons, later, ih]
      · simp [kept, List.lookup_cons, later, ih]

theorem get?_remove_of_ne (m : HashTable κ ν) {k k' : κ} (ne : k' ≠ k) :
    (m.remove k).get? k' = m.get? k' :=
  lookup_filter (p := fun key => key ≠ k) (by simpa using ne) m.entries

@[simp] theorem get?_remove_self (m : HashTable κ ν) (k : κ) : (m.remove k).get? k = none := by
  rw [get?, lookup_eq_none_iff]
  simp [remove]

/-- With distinct keys a lookup is membership. -/
theorem lookup_eq_some_iff_mem {es : List (κ × ν)} (distinct : (es.map Prod.fst).Nodup)
    (k : κ) (v : ν) : es.lookup k = some v ↔ (k, v) ∈ es := by
  induction es with
  | nil => simp
  | cons e rest ih =>
    obtain ⟨key, value⟩ := e
    simp only [List.map_cons, List.nodup_cons] at distinct
    by_cases here : k = key
    · subst here
      have elsewhere : (k, v) ∉ rest := fun member =>
        distinct.1 (List.mem_map.mpr ⟨_, member, rfl⟩)
      simp [elsewhere, eq_comm]
    · have later : (k == key) = false := by simpa using here
      simp [List.lookup_cons, later, here, ih distinct.2]

theorem lookup_perm {es es' : List (κ × ν)} (distinct : (es.map Prod.fst).Nodup)
    (perm : es'.Perm es) (k : κ) : es'.lookup k = es.lookup k := by
  have distinct' : (es'.map Prod.fst).Nodup := (perm.map Prod.fst).nodup_iff.mpr distinct
  -- with distinct keys a lookup is membership, which does not see the order
  ext v
  rw [lookup_eq_some_iff_mem distinct', lookup_eq_some_iff_mem distinct, perm.mem_iff]

theorem get?_eq_some_iff (m : HashTable κ ν) (k : κ) (v : ν) :
    m.get? k = some v ↔ (k, v) ∈ m.entries :=
  lookup_eq_some_iff_mem m.nodup k v

theorem insert_entries_of_absent {m : HashTable κ ν} {k : κ} (absent : m.get? k = none) (v : ν) :
    (m.insert k v).entries = m.entries ++ [(k, v)] := by
  have missing : ¬ m.contains k = true := by simp [contains, absent]
  simp [insert, missing]

/-- Inserts under new keys append their entries. -/
theorem entries_foldl_insert (m : HashTable κ ν) (es : List (κ × ν))
    (distinct : ((m.entries ++ es).map Prod.fst).Nodup) :
    (es.foldl (fun m e => m.insert e.1 e.2) m).entries = m.entries ++ es := by
  induction es generalizing m with
  | nil => simp
  | cons e rest ih =>
    have absent : m.get? e.1 = none := by
      rw [get?, lookup_eq_none_iff]
      intro present
      rw [List.map_append, List.nodup_append] at distinct
      exact distinct.2.2 _ present _ (by simp) rfl
    have inserted := insert_entries_of_absent absent e.2
    rw [List.foldl_cons, ih _ (by rw [inserted]; simpa using distinct), inserted]
    simp

/-! ### Sums over the entries -/

/-- Replacing a value trades its weight for that of the new one. -/
theorem sum_map_replaceEntry {es : List (κ × ν)} (distinct : (es.map Prod.fst).Nodup) {k : κ}
    {old : ν} (member : (k, old) ∈ es) (weight : κ → ν → Nat) (v : ν) :
    ((es.map (replaceEntry k v)).map fun e => weight e.1 e.2).sum + weight k old =
      (es.map fun e => weight e.1 e.2).sum + weight k v := by
  induction es with
  | nil => simp at member
  | cons e rest ih =>
    obtain ⟨key, value⟩ := e
    rw [List.map_cons, List.nodup_cons] at distinct
    rw [List.mem_cons] at member
    rcases member with here | later
    · cases here
      -- the rest has no entry for the key and stays as it is
      rw [List.map_cons, map_replaceEntry_of_absent distinct.1]
      simp only [List.map_cons, List.sum_cons, replaceEntry, ↓reduceIte]
      omega
    · have other : key ≠ k := by
        rintro rfl
        exact distinct.1 (List.mem_map.mpr ⟨_, later, rfl⟩)
      have tail := ih distinct.2 later
      simp only [List.map_cons, List.sum_cons, replaceEntry, other, ↓reduceIte] at tail ⊢
      omega

/-- An insert trades the old value of the key for the new one. -/
theorem sumOf_insert (m : HashTable κ ν) (weight : κ → ν → Nat) (k : κ) (v : ν) :
    (m.insert k v).sumOf weight + ((m.get? k).map (weight k)).getD 0 = m.sumOf weight + weight k v := by
  cases found : m.get? k with
  | none =>
    rw [sumOf, insert_entries_of_absent found]
    simp [sumOf]
  | some old =>
    have present : m.contains k = true := by simp [contains, found]
    have inserted : (m.insert k v).entries = m.entries.map (replaceEntry k v) := by
      simp [insert, present]
    rw [sumOf, inserted]
    exact sum_map_replaceEntry m.nodup ((m.get?_eq_some_iff k old).mp found) weight v

theorem weight_le_sumOf {m : HashTable κ ν} {k : κ} {v : ν} (found : m.get? k = some v)
    (weight : κ → ν → Nat) : weight k v ≤ m.sumOf weight := by
  apply List.le_sum_of_mem
  exact List.mem_map.mpr ⟨(k, v), (m.get?_eq_some_iff k v).mp found, rfl⟩

/-- A weight that is zero off one key. -/
theorem sumOf_of_single (m : HashTable κ ν) {weight : κ → ν → Nat} {k : κ}
    (others : ∀ k' v, k' ≠ k → weight k' v = 0) :
    m.sumOf weight = ((m.get? k).map (weight k)).getD 0 := by
  have loop (es : List (κ × ν)) (distinct : (es.map Prod.fst).Nodup) :
      (es.map fun e => weight e.1 e.2).sum = ((es.lookup k).map (weight k)).getD 0 := by
    induction es with
    | nil => rfl
    | cons e rest ih =>
      obtain ⟨key, value⟩ := e
      rw [List.map_cons, List.nodup_cons] at distinct
      rw [List.map_cons, List.sum_cons, ih distinct.2]
      -- only the entry of the key has a weight
      by_cases here : k = key
      · subst here
        simp [lookup_eq_none_iff.mpr distinct.1]
      · have later : (k == key) = false := by simpa using here
        simp [List.lookup_cons, later, others key value (Ne.symm here)]
  exact loop m.entries m.nodup

/-! ### Lists of entries -/

/-- The law of insertion for the list of entries. -/
theorem lookup_insertEntry (es : List (κ × ν)) (k : κ) (v : ν) (k' : κ) :
    (insertEntry es k v).lookup k' = if k' = k then some v else es.lookup k' := by
  unfold insertEntry
  split
  next present =>
    rw [lookup_map_replaceEntry]
    obtain ⟨old, found⟩ := Option.isSome_iff_exists.mp present
    by_cases same : k' = k
    · subst same
      simp [found]
    · simp [same]
  next absent =>
    rw [Option.not_isSome_iff_eq_none] at absent
    by_cases same : k' = k
    · subst same
      simp [List.lookup_append, absent]
    · have later : (k' == k) = false := by simpa using same
      simp [List.lookup_append, List.lookup_cons, same, later]

/-- A key that is there already adds none. -/
theorem insertEntry_keys (es : List (κ × ν)) (k : κ) (v : ν) :
    (insertEntry es k v).map Prod.fst =
      if k ∈ es.map Prod.fst then es.map Prod.fst else es.map Prod.fst ++ [k] := by
  by_cases present : k ∈ es.map Prod.fst
  · have found : (es.lookup k).isSome = true := by
      rw [Option.isSome_iff_ne_none, ne_eq, lookup_eq_none_iff, not_not]
      exact present
    rw [insertEntry_of_present found, if_pos present, List.map_map]
    apply List.map_congr_left
    intro e _
    exact replaceEntry_fst k v e
  · rw [insertEntry_of_absent present, if_neg present, List.map_append]
    rfl

theorem nodup_insertEntry {es : List (κ × ν)} (distinct : (es.map Prod.fst).Nodup) (k : κ) (v : ν) :
    ((insertEntry es k v).map Prod.fst).Nodup := by
  rw [insertEntry_keys]
  split
  · exact distinct
  next absent =>
    rw [List.nodup_append]
    refine ⟨distinct, List.nodup_singleton k, ?_⟩
    rintro a member b last rfl
    rw [List.mem_singleton] at last
    exact absent (last ▸ member)

theorem lookup_map_value (f : κ → ν → ν) (es : List (κ × ν)) (k : κ) :
    (es.map fun e => (e.1, f e.1 e.2)).lookup k = (es.lookup k).map (f k) := by
  induction es with
  | nil => rfl
  | cons e rest ih =>
    obtain ⟨key, value⟩ := e
    by_cases here : k = key
    · subst here
      simp
    · have later : (k == key) = false := by simpa using here
      simp [List.lookup_cons, later, ih]

/-- The entries of `xs`, combined with those of `ys` for the same key, then what else `ys` has. -/
def unionWith (combine : κ → ν → ν → ν) (xs ys : List (κ × ν)) : List (κ × ν) :=
  xs.map (fun e =>
    (e.1, match ys.lookup e.1 with
      | none => e.2
      | some v => combine e.1 e.2 v)) ++
    ys.filter fun e => (xs.lookup e.1).isNone

section Union

variable {combine : κ → ν → ν → ν} {xs ys : List (κ × ν)} {k : κ}

theorem unionWith_nil (combine : κ → ν → ν → ν) (xs : List (κ × ν)) :
    unionWith combine xs [] = xs := by
  simp [unionWith]

/-- A key of both lists gets the combination of its two values. -/
theorem lookup_unionWith (combine : κ → ν → ν → ν) (xs ys : List (κ × ν)) (k : κ) :
    (unionWith combine xs ys).lookup k =
      match xs.lookup k, ys.lookup k with
      | none, right => right
      | some left, none => some left
      | some left, some right => some (combine k left right) := by
  have combined := lookup_map_value (fun k left => match ys.lookup k with
    | none => left
    | some v => combine k left v) xs k
  rw [unionWith, List.lookup_append, combined]
  cases left : xs.lookup k with
  | some l => cases ys.lookup k <;> rfl
  | none => exact lookup_filter (p := fun k => (xs.lookup k).isNone) (by simp [left]) ys

/-- The part of the union that comes from `xs` does not see an insert under another key. -/
theorem map_combine_insertEntry (absent : k ∉ xs.map Prod.fst) (v : ν) :
    (xs.map fun e => (e.1, match (insertEntry ys k v).lookup e.1 with
        | none => e.2
        | some v => combine e.1 e.2 v)) =
      xs.map fun e => (e.1, match ys.lookup e.1 with
        | none => e.2
        | some v => combine e.1 e.2 v) := by
  apply List.map_congr_left
  intro e member
  have other : e.1 ≠ k := fun here => absent (here ▸ List.mem_map_of_mem member)
  rw [lookup_insertEntry, if_neg other]

theorem filter_replaceEntry (p : κ → Bool) (ys : List (κ × ν)) (k : κ) (v : ν) :
    (ys.map (replaceEntry k v)).filter (fun e => p e.1) =
      (ys.filter fun e => p e.1).map (replaceEntry k v) := by
  rw [List.filter_map]
  congr 1
  apply List.filter_congr
  intro e _
  simp

/-- A key that the left list lacks is inserted behind. -/
theorem unionWith_insertEntry_of_absent (absent : k ∉ xs.map Prod.fst) (v : ν) :
    unionWith combine xs (insertEntry ys k v) = insertEntry (unionWith combine xs ys) k v := by
  have left : xs.lookup k = none := lookup_eq_none_iff.mpr absent
  unfold unionWith
  rw [map_combine_insertEntry absent]
  -- the key is one of `ys` alone, or it is new
  by_cases present : (ys.lookup k).isSome = true
  · have found : ((unionWith combine xs ys).lookup k).isSome = true := by
      rw [lookup_unionWith, left]
      exact present
    unfold unionWith at found
    rw [insertEntry_of_present present, insertEntry_of_present found, List.map_append,
      filter_replaceEntry fun key => (xs.lookup key).isNone]
    congr 1
    symm
    apply map_replaceEntry_of_absent
    rw [List.map_map]
    exact absent
  · have missing : k ∉ ys.map Prod.fst :=
      lookup_eq_none_iff.mp (Option.not_isSome_iff_eq_none.mp present)
    have outside : k ∉ (unionWith combine xs ys).map Prod.fst := by
      rw [← lookup_eq_none_iff, lookup_unionWith, left]
      exact lookup_eq_none_iff.mpr missing
    unfold unionWith at outside
    rw [insertEntry_of_absent missing, insertEntry_of_absent outside, List.filter_append,
      List.filter_cons_of_pos (by simp [left])]
    simp

/-- A key of the left list takes the new value into its own. -/
theorem unionWith_insertEntry_of_present (distinct : (xs.map Prod.fst).Nodup) {old : ν}
    (left : xs.lookup k = some old) (v : ν) :
    unionWith combine xs (insertEntry ys k v) =
      insertEntry (unionWith combine xs ys) k (combine k old v) := by
  have found : ((unionWith combine xs ys).lookup k).isSome = true := by
    rw [lookup_unionWith, left]
    cases ys.lookup k <;> rfl
  have gone (w : ν) : (ys.filter fun e => (xs.lookup e.1).isNone).map (replaceEntry k w) =
      ys.filter fun e => (xs.lookup e.1).isNone := by
    apply map_replaceEntry_of_absent
    intro inside
    obtain ⟨e, member, here⟩ := List.mem_map.mp inside
    rw [List.mem_filter, here, left] at member
    exact absurd member.2 (by simp)
  rw [insertEntry_of_present found, unionWith, unionWith, List.map_append, List.map_map, gone]
  congr 1
  · apply List.map_congr_left
    intro e member
    rw [Function.comp_apply, lookup_insertEntry, replaceEntry]
    by_cases here : e.1 = k
    -- the keys of `xs` are distinct, so the entry is the one that the lookup finds
    · have value : e.2 = old := by
        have isEntry := (lookup_eq_some_iff_mem distinct e.1 e.2).mpr member
        rw [here, left] at isEntry
        exact (Option.some.inj isEntry).symm
      simp [here, value]
    · simp [here]
  -- an entry that `xs` has as well is left out on both sides
  · unfold insertEntry
    split
    · rw [filter_replaceEntry fun key => (xs.lookup key).isNone, gone]
    · rw [List.filter_append, List.filter_cons_of_neg (by simp [left])]
      simp

/-- An insert into `ys` is an insert into the union. -/
theorem unionWith_insertEntry (distinct : (xs.map Prod.fst).Nodup) (v : ν) :
    unionWith combine xs (insertEntry ys k v) =
      insertEntry (unionWith combine xs ys) k
        (match xs.lookup k with
          | none => v
          | some left => combine k left v) := by
  cases left : xs.lookup k with
  | none => exact unionWith_insertEntry_of_absent (lookup_eq_none_iff.mp left) v
  | some old => exact unionWith_insertEntry_of_present distinct left v

end Union

/-! ### Tables filled from a list -/

section Filled

variable {α : Type} (key : α → κ) (value : α → ν)

/-- The last element with the key. -/
def lastWith (k : κ) : List α → Option α
  | [] => none
  | x :: rest => (lastWith k rest).or (if key x = k then some x else none)

theorem lastWith_mem {xs : List α} {k : κ} {x : α} (found : lastWith key k xs = some x) : x ∈ xs := by
  induction xs with
  | nil => cases found
  | cons first rest ih =>
    rw [lastWith] at found
    rcases Option.or_eq_some_iff.mp found with later | ⟨-, here⟩
    · exact List.mem_cons_of_mem _ (ih later)
    · split at here
      · cases here
        exact List.mem_cons_self ..
      · cases here

/-- What is found under a key has this key. -/
theorem key_of_lastWith {xs : List α} {k : κ} {x : α} (found : lastWith key k xs = some x) :
    key x = k := by
  induction xs with
  | nil => cases found
  | cons first rest ih =>
    rw [lastWith] at found
    rcases Option.or_eq_some_iff.mp found with later | ⟨-, here⟩
    · exact ih later
    · split at here
      next same =>
        cases here
        exact same
      · cases here

theorem lastWith_eq_none {xs : List α} {k : κ} : lastWith key k xs = none ↔ ∀ x ∈ xs, key x ≠ k := by
  induction xs with
  | nil => simp [lastWith]
  | cons x rest ih =>
    rw [lastWith, Option.or_eq_none_iff, ih, List.forall_mem_cons, and_comm]
    by_cases here : key x = k <;> simp [here]

theorem lastWith_concat (xs : List α) (x : α) (k : κ) :
    lastWith key k (xs ++ [x]) = if key x = k then some x else lastWith key k xs := by
  induction xs with
  | nil => by_cases here : key x = k <;> simp [lastWith, here]
  | cons first rest ih =>
    rw [List.cons_append, lastWith, ih, lastWith]
    by_cases here : key x = k <;> simp [here]

theorem lastWith_map {β : Type} (f : β → α) (k : κ) (xs : List β) :
    lastWith key k (xs.map f) = (lastWith (fun x => key (f x)) k xs).map f := by
  induction xs with
  | nil => rfl
  | cons x rest ih =>
    rw [List.map_cons, lastWith, lastWith, ih, Option.map_or]
    by_cases here : key (f x) = k
    · simp [here]
    · simp [here]

/-- With distinct keys the last element with a key is the only one. -/
theorem lastWith_of_nodup {xs : List α} (distinct : (xs.map key).Nodup) {x : α} (member : x ∈ xs) :
    lastWith key (key x) xs = some x := by
  induction xs with
  | nil => simp at member
  | cons first rest ih =>
    rw [List.map_cons, List.nodup_cons] at distinct
    rw [List.mem_cons] at member
    rw [lastWith]
    rcases member with rfl | later
    -- no later element has its key
    · have unseen : lastWith key (key x) rest = none := by
        rw [lastWith_eq_none]
        intro y member same
        exact distinct.1 (same ▸ List.mem_map_of_mem member)
      rw [unseen, if_pos rfl]
      rfl
    · rw [ih distinct.2 later]
      rfl

/-- A table filled by inserts holds the last element inserted under each key. -/
theorem get?_foldl_insert (xs : List α) (table : HashTable κ ν) (k : κ) :
    (xs.foldl (fun table x => table.insert (key x) (value x)) table).get? k =
      ((lastWith key k xs).map value).or (table.get? k) := by
  induction xs generalizing table with
  | nil => rfl
  | cons x rest ih =>
    rw [List.foldl_cons, ih, get?_insert, lastWith]
    cases lastWith key k rest with
    | some y => rfl
    | none =>
      by_cases here : key x = k
      · simp [here]
      · simp [here, Ne.symm here]

end Filled

end HashTable

end Wrkr.Lib
