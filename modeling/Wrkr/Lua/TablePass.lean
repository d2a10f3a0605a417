import Wrkr.Lua.ValueUtil

/-!
# The pass over a table

`Shape` is what `table_to_value` has after any number of pairs. Each pair with a new key that the
array has room for is stored (`shape_store`), whatever came before it.
-/
namespace Wrkr.ValueUtil

open Wrkr.Lib Wrkr.Lua

/-! ### The slots of an array -/

section Slots

variable {values : List (Option Value)}

theorem index_inj {m n : Nat} (small : m < 2 ^ 64) (small' : n < 2 ^ 64)
    (same : MapKey.u64 (UInt64.ofNat m) = .u64 (UInt64.ofNat n)) : m = n := by
  have indices := congrArg UInt64.toNat (MapKey.u64.inj same)
  rwa [UInt64.toNat_ofNat', UInt64.toNat_ofNat', Nat.mod_eq_of_lt small,
    Nat.mod_eq_of_lt small'] at indices

/-- An entry of the array is a slot that is filled, counted from one. -/
theorem mem_slots {start : Nat} {key : MapKey} {v : Value} :
    (key, v) ∈ slots values start ↔
      ∃ n : Nat, values[n]? = some (some v) ∧ key = .u64 (UInt64.ofNat (start + n + 1)) := by
  simp only [slots, List.mem_filterMap, Option.map_eq_some_iff, Prod.mk.injEq, Prod.exists]
  constructor
  · rintro ⟨slot, idx, member, v', rfl, rfl, rfl⟩
    rw [List.mk_mem_zipIdx_iff_le_and_getElem?_sub] at member
    refine ⟨idx - start, member.2, ?_⟩
    rw [Nat.add_sub_cancel' member.1]
  · rintro ⟨n, filled, rfl⟩
    refine ⟨some v, start + n, ?_, v, rfl, rfl, rfl⟩
    rw [List.mk_mem_zipIdx_iff_le_and_getElem?_sub]
    exact ⟨Nat.le_add_right .., by simpa using filled⟩

theorem slots_cons (slot : Option Value) (rest : List (Option Value)) (start : Nat) :
    slots (slot :: rest) start =
      (slot.map fun v => (MapKey.u64 (UInt64.ofNat (start + 1)), v)).toList ++
        slots rest (start + 1) := by
  unfold slots
  rw [List.zipIdx_cons]
  cases slot <;> rfl

/-- Empty slots hold nothing. -/
theorem slots_append_replicate (values : List (Option Value)) (start n : Nat) :
    slots (values ++ List.replicate n none) start = slots values start := by
  induction values generalizing start with
  | nil =>
    induction n generalizing start with
    | zero => rfl
    | succ n ih =>
      rw [List.nil_append] at ih ⊢
      rw [List.replicate_succ, slots_cons, ih]
      rfl
  | cons slot rest ih => rw [List.cons_append, slots_cons, slots_cons, ih]

/-- Filling a slot adds its entry. -/
theorem slots_set {n : Nat} (free : values[n]? = some none) (v : Value) (start : Nat) :
    (slots (values.set n (some v)) start).Perm
      ((.u64 (UInt64.ofNat (start + n + 1)), v) :: slots values start) := by
  induction values generalizing n start with
  | nil => simp at free
  | cons slot rest ih =>
    cases n with
    | zero =>
      simp only [List.getElem?_cons_zero, Option.some.injEq] at free
      subst free
      rw [List.set_cons_zero, slots_cons, slots_cons]
      rfl
    | succ n =>
      rw [List.getElem?_cons_succ] at free
      rw [List.set_cons_succ, slots_cons, slots_cons, show start + (n + 1) = start + 1 + n by omega]
      -- the entry moves before the one of the first slot
      exact ((ih free (start + 1)).append_left _).trans List.perm_middle

/-- No index comes twice. -/
theorem nodup_slots {start : Nat} (small : start + values.length < 2 ^ 64) :
    ((slots values start).map Prod.fst).Nodup := by
  induction values generalizing start with
  | nil => exact List.nodup_nil
  | cons slot rest ih =>
    rw [List.length_cons] at small
    have later : ((slots rest (start + 1)).map Prod.fst).Nodup := ih (by omega)
    rw [slots_cons]
    cases slot with
    | none => exact later
    | some v =>
      refine List.nodup_cons.mpr ⟨fun present => ?_, later⟩
      obtain ⟨⟨key, v'⟩, member, same⟩ := List.mem_map.mp present
      obtain ⟨n, filled, rfl⟩ := mem_slots.mp member
      obtain ⟨inside, -⟩ := List.getElem?_eq_some_iff.mp filled
      -- a later slot has a larger index
      have indices := index_inj (by omega) (by omega) same
      omega

end Slots

/-! ### The accumulators -/

namespace TableAcc

variable {acc acc' : TableAcc}

/-- All entries collected so far, under the keys that they have in a map. -/
def stored (acc : TableAcc) : List (MapKey × Value) :=
  match acc.mapItems with
  | some m => m.entries
  | none =>
    ((acc.objectItems.getD .empty).entries.map fun e => (.string e.1, e.2)) ++
      slots acc.arrayValues 0

theorem stored_of_some {m : HashTable MapKey Value} (items : acc.mapItems = some m) :
    acc.stored = m.entries := by
  rw [stored, items]

theorem stored_of_none (absent : acc.mapItems = none) {obj : HashTable String Value}
    (objects : acc.objectItems = some obj) :
    acc.stored = (obj.entries.map fun e => (.string e.1, e.2)) ++ slots acc.arrayValues 0 := by
  rw [stored, absent, objects]
  rfl

/-- Migrating to a map keeps what is stored. -/
theorem migrate_entries (absent : acc.mapItems = none)
    (distinct : (acc.stored.map Prod.fst).Nodup) : acc.migrate.entries = acc.stored := by
  rw [stored, absent] at distinct ⊢
  unfold migrate
  cases objects : acc.objectItems with
  | none =>
    rw [objects] at distinct
    exact HashTable.entries_foldl_insert _ _ distinct
  | some obj =>
    rw [objects] at distinct
    rw [Option.getD_some] at distinct ⊢
    -- first the object, then the slots of the array
    have fields := HashTable.entries_foldl_insert .empty
      (obj.entries.map fun e => (MapKey.string e.1, e.2)) (by
        rw [List.map_append] at distinct
        exact (List.nodup_append.mp distinct).1)
    rw [List.foldl_map] at fields
    have all := HashTable.entries_foldl_insert
      (obj.entries.foldl (fun m e => m.insert (.string e.1) e.2) .empty)
      (slots acc.arrayValues 0) (by
        rw [fields]
        exact distinct)
    rw [fields] at all
    exact all

/-- An insert into the map moves everything else there first. -/
theorem insertMap_eq (distinct : (acc.stored.map Prod.fst).Nodup) {key : MapKey}
    (new : key ∉ acc.stored.map Prod.fst) (v : Value) :
    ∃ acc', acc.insertMap key v = .ok acc' ∧ acc'.mapItems.isSome ∧
      acc'.stored = acc.stored ++ [(key, v)] := by
  -- the map is there already, or what is stored becomes the map
  have moved : ∃ m, acc.ensureMap.mapItems = some m ∧ m.entries = acc.stored := by
    cases items : acc.mapItems with
    | some m =>
      refine ⟨m, ?_, ?_⟩
      · rw [ensureMap, items]
        exact items
      · exact (stored_of_some items).symm
    | none =>
      refine ⟨acc.migrate, ?_, migrate_entries items distinct⟩
      rw [ensureMap, items]
  obtain ⟨m, items, entries⟩ := moved
  have absent : m.get? key = none := by
    rw [HashTable.get?, HashTable.lookup_eq_none_iff, entries]
    exact new
  refine ⟨{ acc.ensureMap with mapItems := some (m.insert key v) }, ?_, rfl, ?_⟩
  · rw [insertMap, items]
  · rw [stored_of_some rfl, HashTable.insert_entries_of_absent absent, entries]

/-- Inserting into the map leaves the flags and the array. -/
theorem insertMap_keeps {key : MapKey} {v : Value} (ok : acc.insertMap key v = .ok acc') :
    acc'.onlyPosIntKeys = acc.onlyPosIntKeys ∧ acc'.sawOtherKey = acc.sawOtherKey ∧
      acc'.sawStringKey = acc.sawStringKey ∧ acc'.arrayValues.length = acc.arrayValues.length := by
  unfold insertMap at ok
  simp only at ok
  split at ok
  · cases ok
    unfold ensureMap
    split <;> simp
  · cases ok

end TableAcc

section Pass

variable {capacity : Nat} {lossy : List UInt8 → String} {acc acc' : TableAcc}
  {done : List (LuaValue × Value)} {key : LuaValue} {v : Value}

/-- The flags are functions of the keys seen, and an array is no longer than its largest index. -/
structure Flags (done : List (LuaValue × Value)) (acc : TableAcc) : Prop where
  only : acc.onlyPosIntKeys = done.all fun e => positive e.1
  other : acc.sawOtherKey = !done.all fun e => isString e.1
  string : acc.sawStringKey = done.any fun e => isString e.1
  small : acc.arrayValues.length < 2 ^ 63

theorem flags_empty : Flags [] {} := ⟨rfl, rfl, rfl, by decide⟩

/-- The flags after one more key. -/
theorem flags_concat (flags : Flags done acc)
    (only : acc'.onlyPosIntKeys = (acc.onlyPosIntKeys && positive key))
    (other : acc'.sawOtherKey = (acc.sawOtherKey || !isString key))
    (string : acc'.sawStringKey = (acc.sawStringKey || isString key))
    (small : acc'.arrayValues.length < 2 ^ 63) : Flags (done ++ [(key, v)]) acc' := by
  refine ⟨?_, ?_, ?_, small⟩
  · rw [only, flags.only]
    simp
  · rw [other, flags.other]
    simp [Bool.not_and]
  · rw [string, flags.string]
    simp

/-- What a `store` does to the flags depends on the key alone. -/
theorem flags_store (flags : Flags done acc) (ok : acc.store capacity lossy key v = .ok acc') :
    Flags (done ++ [(key, v)]) acc' := by
  have small := flags.small
  unfold TableAcc.store at ok
  cases key with
  | integer i =>
    simp only at ok
    split at ok
    next inArray =>
      split at ok
      · cases ok
      · split at ok
        · cases ok
          have below := toNat_lt i
          refine flags_concat flags (by simp [positive, inArray.1]) (by simp [isString])
            (by simp [isString]) ?_
          simp only [List.length_set, List.length_append, List.length_replicate]
          omega
        · cases ok
        · cases ok
    -- only a key below 1 says that not all keys are positive; a later one goes to the map as well
    next outside =>
      obtain ⟨only, other, string, length⟩ := TableAcc.insertMap_keeps ok
      refine flags_concat flags ?_ ?_ ?_ ?_
      · rw [only]
        split
        next low => simp [positive, Int64.not_le.mpr low]
        next high => simp [positive, Int64.not_lt.mp high]
      · rw [other]
        split <;> simp [isString]
      · rw [string]
        split <;> simp [isString]
      · rw [length]
        split <;> exact small
  -- every string key sets the flag, wherever the pair is put
  | string bytes =>
    simp only at ok
    split at ok
    · cases ok
      exact flags_concat flags (by simp [positive]) (by simp [isString]) (by simp [isString]) small
    · split at ok
      · obtain ⟨only, other, string, length⟩ := TableAcc.insertMap_keeps ok
        exact flags_concat flags (by simp [only, positive]) (by simp [other, isString])
          (by simp [string, isString]) (length ▸ small)
      · split at ok
        · cases ok
          exact flags_concat flags (by simp [positive]) (by simp [isString]) (by simp [isString])
            small
        · cases ok
  | boolean b =>
    obtain ⟨only, other, string, length⟩ := TableAcc.insertMap_keeps ok
    exact flags_concat flags (by simp [only, positive]) (by simp [other, isString])
      (by simp [string, isString]) (length ▸ small)
  | nil | number _ | table _ | other =>
    cases ok
    exact flags_concat flags (by simp [positive]) (by simp [isString]) (by simp [isString]) small

/-- Which of the three accumulators is in use, and what its use says about the keys. -/
inductive Mode (lossy : List UInt8 → String) (done : List (LuaValue × Value)) (acc : TableAcc) :
    Prop
  | array (map : acc.mapItems = none) (object : acc.objectItems = some .empty)
      (keys : ∀ e ∈ done, (mapKey lossy e.1).isSome → positive e.1)
      (length : acc.arrayValues.length = acc.maxIdx)
      (last : acc.arrayValues.getLast? ≠ some none)
  | object (map : acc.mapItems = none) (object : acc.objectItems.isSome)
      (array : acc.arrayValues = [])
      (keys : ∀ e ∈ done, (mapKey lossy e.1).isSome → isString e.1)
      (seen : ∃ e ∈ done, isString e.1)
  | map (map : acc.mapItems.isSome) (other : ∃ e ∈ done, positive e.1 = false)
      (other' : ∃ e ∈ done, isString e.1 = false)

/-- What the pass has after the pairs `done`. -/
structure Shape (lossy : List UInt8 → String) (done : List (LuaValue × Value)) (acc : TableAcc) :
    Prop extends Flags done acc where
  stored : acc.stored.Perm (supported lossy done)
  mode : Mode lossy done acc

theorem shape_empty : Shape lossy [] {} :=
  ⟨flags_empty, .refl _, .array rfl rfl (by simp) rfl (by simp)⟩

theorem all_eq_false {p : LuaValue → Bool} (fails : (done.all fun e => p e.1) = false) :
    ∃ e ∈ done, p e.1 = false := by
  simpa using fails

/-- A key is stored under what `mapKey` gives for it. -/
theorem stored_concat (perm : acc.stored.Perm (supported lossy done)) {mk : MapKey}
    (found : mapKey lossy key = some mk) (stored : acc'.stored.Perm (acc.stored ++ [(mk, v)])) :
    acc'.stored.Perm (supported lossy (done ++ [(key, v)])) := by
  rw [supported_append, supported_single found]
  exact stored.trans (perm.append_right _)

/-- A new key is stored nowhere yet. -/
theorem new_of_distinct (perm : acc.stored.Perm (supported lossy done)) {mk : MapKey}
    (found : mapKey lossy key = some mk)
    (distinct : ((supported lossy (done ++ [(key, v)])).map Prod.fst).Nodup) :
    (acc.stored.map Prod.fst).Nodup ∧ mk ∉ acc.stored.map Prod.fst := by
  rw [supported_append, supported_single found, List.map_append, List.nodup_append] at distinct
  obtain ⟨nodup, -, apart⟩ := distinct
  refine ⟨(perm.map Prod.fst).nodup_iff.mpr nodup, fun present => ?_⟩
  exact apart mk ((perm.map Prod.fst).mem_iff.mp present) mk (by simp) rfl

theorem insertMap_stored (acc : TableAcc) (perm : acc.stored.Perm (supported lossy done))
    {mk : MapKey} (found : mapKey lossy key = some mk)
    (distinct : ((supported lossy (done ++ [(key, v)])).map Prod.fst).Nodup) :
    ∃ acc', acc.insertMap mk v = .ok acc' ∧ acc'.mapItems.isSome ∧
      acc'.stored.Perm (supported lossy (done ++ [(key, v)])) := by
  obtain ⟨nodup, new⟩ := new_of_distinct perm found distinct
  obtain ⟨acc', ok, inMap, stored⟩ := TableAcc.insertMap_eq nodup new v
  exact ⟨acc', ok, inMap, stored_concat perm found (stored ▸ .refl _)⟩

/-- Once there is a map there is a reason for it, and it stays one. -/
theorem map_mode_concat {done' : List (LuaValue × Value)} (map : acc'.mapItems.isSome)
    (other : (∃ e ∈ done, positive e.1 = false) ∨ ∃ e ∈ done', positive e.1 = false)
    (other' : (∃ e ∈ done, isString e.1 = false) ∨ ∃ e ∈ done', isString e.1 = false) :
    Mode lossy (done ++ done') acc' := by
  refine .map map ?_ ?_
  · rcases other with ⟨e, member, fails⟩ | ⟨e, member, fails⟩
    · exact ⟨e, List.mem_append_left _ member, fails⟩
    · exact ⟨e, List.mem_append_right _ member, fails⟩
  · rcases other' with ⟨e, member, fails⟩ | ⟨e, member, fails⟩
    · exact ⟨e, List.mem_append_left _ member, fails⟩
    · exact ⟨e, List.mem_append_right _ member, fails⟩

/-- A slot of an array for a new key, after the array has grown. -/
theorem free_slot (perm : (slots acc.arrayValues 0).Perm (supported lossy done)) {i : Int64}
    (pos : 1 ≤ i)
    (distinct : ((supported lossy (done ++ [(.integer i, v)])).map Prod.fst).Nodup) :
    (acc.arrayValues ++ List.replicate (i.toInt.toNat - acc.arrayValues.length) none)[
      i.toInt.toNat - 1]? = some none := by
  have idxPos := toNat_pos pos
  generalize resized : acc.arrayValues ++
    List.replicate (i.toInt.toNat - acc.arrayValues.length) none = values
  have length : values.length = max acc.arrayValues.length i.toInt.toNat := by
    rw [← resized, List.length_append, List.length_replicate]
    omega
  have inside : i.toInt.toNat - 1 < values.length := by omega
  cases slot : values[i.toInt.toNat - 1] with
  | none => rw [List.getElem?_eq_getElem inside, slot]
  | some x =>
    exfalso
    -- the key of the slot would be there twice
    have filled : (MapKey.u64 (UInt64.ofNat i.toInt.toNat), x) ∈ slots values 0 := by
      refine mem_slots.mpr ⟨i.toInt.toNat - 1, ?_, ?_⟩
      · rw [List.getElem?_eq_getElem inside, slot]
      · rw [Nat.zero_add, Nat.sub_add_cancel idxPos]
    rw [← resized, slots_append_replicate] at filled
    rw [supported_append, supported_single (mapKey_of_positive pos), List.map_append,
      List.nodup_append] at distinct
    exact distinct.2.2 _ (List.mem_map_of_mem (perm.mem_iff.mp filled)) _ (by simp) rfl

/-- What a `store` leaves in the accumulators. -/
def Stored (lossy : List UInt8 → String) (done : List (LuaValue × Value))
    (result : Except Failure TableAcc) : Prop :=
  ∃ acc', result = .ok acc' ∧ acc'.stored.Perm (supported lossy done) ∧ Mode lossy done acc'

/-- A positive index goes into its slot, and the slots before it are opened. -/
theorem store_slot (shape : Shape lossy done acc) {i : Int64}
    (distinct : ((supported lossy (done ++ [(.integer i, v)])).map Prod.fst).Nodup)
    (room : i.toInt.toNat ≤ capacity)
    (inArray : 1 ≤ i ∧ acc.onlyPosIntKeys ∧ acc.mapItems.isNone) :
    Stored lossy (done ++ [(.integer i, v)]) (acc.store capacity lossy (.integer i) v) := by
  obtain ⟨pos, only, absent⟩ := inArray
  have idxPos := toNat_pos pos
  cases shape.mode with
  | map present =>
    rw [Option.isNone_iff_eq_none] at absent
    rw [absent] at present
    cases present
  | object _ _ _ _ seen =>
    -- a string was seen, so the flag is down
    obtain ⟨e, member, string⟩ := seen
    rw [shape.only, List.all_eq_true] at only
    have pos := only e member
    cases here : e.1 <;> simp [here, positive, isString] at pos string
  | array map object keys length last =>
    have perm := shape.stored
    rw [TableAcc.stored_of_none map object] at perm
    have free := free_slot (v := v) perm pos distinct
    unfold TableAcc.store
    simp only [pos, only, absent, and_self, if_true]
    rw [if_neg (by omega), free]
    refine ⟨_, rfl, ?_, .array map object ?_ ?_ ?_⟩
    · rw [supported_append, supported_single (mapKey_of_positive pos)]
      have added := slots_set free v 0
      rw [slots_append_replicate, Nat.zero_add, Nat.sub_add_cancel idxPos] at added
      simp only [TableAcc.stored, map, object, Option.getD_some]
      exact (added.trans (perm.cons _)).trans (List.perm_append_singleton _ _).symm
    · intro e member supported
      rcases List.mem_append.mp member with old | new
      · exact keys e old supported
      · rw [List.mem_singleton.mp new]
        exact decide_eq_true pos
    · simp only [List.length_set, List.length_append, List.length_replicate]
      omega
    · -- the last slot is the new one, or it was there before
      rw [List.getLast?_eq_getElem?, List.length_set, List.length_append, List.length_replicate,
        List.getElem?_set]
      split
      · split
        · simp
        · simp
      next elsewhere =>
        rw [List.getLast?_eq_getElem?] at last
        have old : i.toInt.toNat - acc.arrayValues.length = 0 := by omega
        rw [old, List.replicate_zero, List.append_nil, Nat.add_zero]
        exact last

/-- An integer key, in the array or in the map. -/
theorem store_integer (shape : Shape lossy done acc) {i : Int64}
    (distinct : ((supported lossy (done ++ [(.integer i, v)])).map Prod.fst).Nodup)
    (room : i.toInt.toNat ≤ capacity) :
    Stored lossy (done ++ [(.integer i, v)]) (acc.store capacity lossy (.integer i) v) := by
  by_cases inArray : 1 ≤ i ∧ acc.onlyPosIntKeys ∧ acc.mapItems.isNone
  · exact store_slot shape distinct room inArray
  -- the flag is down, or a map is there already: in both cases a key was not positive
  · have other : (∃ e ∈ done, positive e.1 = false) ∨
        ∃ e ∈ [(LuaValue.integer i, v)], positive e.1 = false := by
      by_cases pos : 1 ≤ i
      · left
        by_cases only : acc.onlyPosIntKeys = true
        · cases shape.mode with
          | map _ other => exact other
          | array map => exact absurd ⟨pos, only, by rw [map]; rfl⟩ inArray
          | object map => exact absurd ⟨pos, only, by rw [map]; rfl⟩ inArray
        · rw [Bool.not_eq_true, shape.only] at only
          exact all_eq_false only
      · exact .inr ⟨_, List.mem_singleton_self _, decide_eq_false pos⟩
    unfold TableAcc.store
    simp only [inArray, if_false]
    have perm : (if i < 1 then { acc with sawOtherKey := true, onlyPosIntKeys := false }
        else { acc with sawOtherKey := true } : TableAcc).stored.Perm (supported lossy done) := by
      split <;> exact shape.stored
    obtain ⟨acc', ok, map, stored⟩ := insertMap_stored _ perm rfl distinct
    refine ⟨acc', ok, stored, map_mode_concat map other (.inr ?_)⟩
    exact ⟨_, List.mem_singleton_self _, rfl⟩

/-- A string key without an array before it is inserted into the object. -/
theorem store_in_object (shape : Shape lossy done acc) (map : acc.mapItems = none)
    (object : acc.objectItems.isSome) (array : acc.arrayValues = [])
    (keys : ∀ e ∈ done, (mapKey lossy e.1).isSome → isString e.1) {bytes : List UInt8}
    (distinct : ((supported lossy (done ++ [(.string bytes, v)])).map Prod.fst).Nodup) :
    Stored lossy (done ++ [(.string bytes, v)]) (acc.store capacity lossy (.string bytes) v) := by
  obtain ⟨obj, objects⟩ := Option.isSome_iff_exists.mp object
  have ok : acc.store capacity lossy (.string bytes) v = .ok { acc with
      sawStringKey := true
      onlyPosIntKeys := false
      objectItems := some (obj.insert (text lossy bytes) v) } := by
    simp [TableAcc.store, map, objects, array]
  refine ⟨_, ok, ?_, .object map rfl array ?_ ?_⟩
  · have found : mapKey lossy (.string bytes) = some (.string (text lossy bytes)) := rfl
    obtain ⟨-, new⟩ := new_of_distinct shape.stored found distinct
    refine stored_concat shape.stored found ?_
    rw [TableAcc.stored_of_none map objects, array] at new ⊢
    -- the keys are distinct, so the insert replaces nothing
    have absent : obj.get? (text lossy bytes) = none := by
      rw [HashTable.get?, HashTable.lookup_eq_none_iff]
      intro present
      obtain ⟨e, member, here⟩ := List.mem_map.mp present
      refine new (List.mem_map.mpr ⟨(.string e.1, e.2), ?_, by rw [here]⟩)
      exact List.mem_append_left _ (List.mem_map_of_mem member)
    simp only [TableAcc.stored, map, Option.getD_some, HashTable.insert_entries_of_absent absent]
    simp [slots]
  · intro e member supported
    rcases List.mem_append.mp member with old | new
    · exact keys e old supported
    · rw [List.mem_singleton.mp new]
      rfl
  · exact ⟨_, List.mem_append_right _ (List.mem_singleton_self _), rfl⟩

/-- A string key, in the object or in the map. -/
theorem store_string (shape : Shape lossy done acc) {bytes : List UInt8}
    (distinct : ((supported lossy (done ++ [(.string bytes, v)])).map Prod.fst).Nodup) :
    Stored lossy (done ++ [(.string bytes, v)]) (acc.store capacity lossy (.string bytes) v) := by
  have found : mapKey lossy (.string bytes) = some (.string (text lossy bytes)) := rfl
  have notPositive : ∃ e ∈ [(LuaValue.string bytes, v)], positive e.1 = false :=
    ⟨_, List.mem_singleton_self _, rfl⟩
  obtain ⟨acc', ok, inMap, stored⟩ := insertMap_stored
    { acc with sawStringKey := true, onlyPosIntKeys := false } shape.stored found distinct
  cases shape.mode with
  | map present _ other' =>
    obtain ⟨m, items⟩ := Option.isSome_iff_exists.mp present
    refine ⟨acc', ?_, stored, map_mode_concat inMap (.inr notPositive) (.inl other')⟩
    rw [← ok]
    simp [TableAcc.store, TableAcc.insertMap, TableAcc.ensureMap, items]
  | object map object array keys => exact store_in_object shape map object array keys distinct
  | array map object keys length last =>
    have perm := shape.stored
    rw [TableAcc.stored_of_none map object] at perm
    by_cases array : acc.arrayValues = []
    · -- nothing is stored yet, so no key was supported
      refine store_in_object shape map (by rw [object]; rfl) array ?_ distinct
      intro e member isKey
      obtain ⟨mk, found⟩ := Option.isSome_iff_exists.mp isKey
      have inside := perm.mem_iff.mpr (mem_supported.mpr ⟨e.1, member, found⟩)
      rw [array] at inside
      cases inside
    · refine ⟨acc', ?_, stored, map_mode_concat inMap (.inr notPositive) (.inl ?_)⟩
      · rw [← ok]
        simp [TableAcc.store, map, array]
      -- the last slot holds an entry, and its key is an integer
      · have isLast := List.getLast?_eq_some_getLast array
        cases slot : acc.arrayValues.getLast array with
        | none => exact absurd (slot ▸ isLast) last
        | some x =>
          rw [slot] at isLast
          rw [List.getLast?_eq_getElem?] at isLast
          have filled := perm.mem_iff.mp (mem_slots.mpr ⟨_, isLast, rfl⟩)
          obtain ⟨k, member, isKey⟩ := mem_supported.mp filled
          have pos := keys _ member (by rw [isKey]; rfl)
          refine ⟨_, member, ?_⟩
          cases k <;> simp [positive, isString] at pos ⊢

/-- A pair with another key is left out, and only the flags change. -/
theorem store_unsupported (shape : Shape lossy done acc) (unsupported : mapKey lossy key = none)
    (ok : acc.store capacity lossy key v =
      .ok { acc with sawOtherKey := true, onlyPosIntKeys := false }) :
    Stored lossy (done ++ [(key, v)]) (acc.store capacity lossy key v) := by
  have nothing : supported lossy [(key, v)] = [] := by simp [supported, unsupported]
  -- what is said of the supported keys is not touched by one more of the others
  have keysOf {p : LuaValue → Bool} (keys : ∀ e ∈ done, (mapKey lossy e.1).isSome → p e.1) :
      ∀ e ∈ done ++ [(key, v)], (mapKey lossy e.1).isSome → p e.1 := by
    intro e member isKey
    rcases List.mem_append.mp member with old | new
    · exact keys e old isKey
    · rw [List.mem_singleton.mp new, unsupported] at isKey
      cases isKey
  refine ⟨_, ok, ?_, ?_⟩
  · rw [supported_append, nothing, List.append_nil]
    exact shape.stored
  · cases shape.mode with
    | array map object keys length last => exact .array map object (keysOf keys) length last
    | object map object array keys seen =>
      obtain ⟨e, member, string⟩ := seen
      exact .object map object array (keysOf keys) ⟨e, List.mem_append_left _ member, string⟩
    | map map other other' => exact map_mode_concat map (.inl other) (.inl other')

/-- One pair: with new keys that the array has room for, every pair is stored. -/
theorem shape_store (shape : Shape lossy done acc)
    (distinct : ((supported lossy (done ++ [(key, v)])).map Prod.fst).Nodup)
    (room : ∀ i, key = .integer i → i.toInt.toNat ≤ capacity) :
    ∃ acc', acc.store capacity lossy key v = .ok acc' ∧ Shape lossy (done ++ [(key, v)]) acc' := by
  have result : Stored lossy (done ++ [(key, v)]) (acc.store capacity lossy key v) := by
    cases key with
    | integer i => exact store_integer shape distinct (room i rfl)
    | string bytes => exact store_string shape distinct
    | boolean b =>
      -- a boolean is neither: it opens the map
      obtain ⟨acc', ok, map, stored⟩ := insertMap_stored
        { acc with sawOtherKey := true, onlyPosIntKeys := false } shape.stored
        (by rfl) distinct
      refine ⟨acc', ok, stored, map_mode_concat map (.inr ?_) (.inr ?_)⟩
      · exact ⟨_, List.mem_singleton_self _, rfl⟩
      · exact ⟨_, List.mem_singleton_self _, rfl⟩
    | nil | number _ | table _ | other => exact store_unsupported shape rfl rfl
  obtain ⟨acc', ok, stored, mode⟩ := result
  exact ⟨acc', ok, flags_store shape.toFlags ok, stored, mode⟩

end Pass

end Wrkr.ValueUtil
