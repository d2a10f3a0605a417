import Wrkr.Lib.Fallible
import Wrkr.Lua.TablePass

/-!
# The result of the pass

The keys of a table alone decide the kind of its value, whatever their order (`finish_of_shape`),
and a table keeps its entries exactly when it is `Keepable` (`table_kept_iff`).
-/
namespace Wrkr.ValueUtil

open Wrkr.Lib Wrkr.Lua

section Result

variable {capacity : Nat} {lossy : List UInt8 → String} {acc acc' : TableAcc}
  {done : List (LuaValue × Value)} {key : LuaValue} {v : Value}

/-! ### The end of the pass -/

/-- An array has an empty slot, or all its values can be taken. -/
theorem full_or_hole (values : List (Option Value)) :
    (values.any Option.isNone = true ∧ ∃ n : Nat, values[n]? = some none) ∨
      ∃ out, values = out.map some ∧ values.any Option.isNone = false ∧
        values.mapM takeSlot = .ok out := by
  induction values with
  | nil => exact .inr ⟨[], rfl, rfl, rfl⟩
  | cons slot rest ih =>
    cases slot with
    | none => exact .inl ⟨rfl, 0, rfl⟩
    | some v =>
      rcases ih with ⟨any, n, hole⟩ | ⟨out, rfl, full, taken⟩
      · exact .inl ⟨any, n + 1, hole⟩
      · refine .inr ⟨v :: out, rfl, full, ?_⟩
        rw [List.mapM_cons, taken]
        rfl

/-- What every table value keeps to. -/
structure WellFormed (w : Value) : Prop where
  nodup : ((tableEntries w).map Prod.fst).Nodup
  small : ∀ items, w = .array items → items.length < 2 ^ 63

theorem wellFormed_array {items : List Value} (small : items.length < 2 ^ 63) :
    WellFormed (.array items) := by
  refine ⟨nodup_slots (by rw [List.length_map]; omega), ?_⟩
  intro items' same
  cases same
  exact small

theorem wellFormed_object {fields : List (String × Value)}
    (distinct : (fields.map Prod.fst).Nodup) : WellFormed (.object fields) := by
  refine ⟨?_, fun _ same => by cases same⟩
  have keys : (tableEntries (.object fields)).map Prod.fst =
      (fields.map Prod.fst).map MapKey.string := by
    simp [tableEntries, Function.comp_def]
  rw [keys]
  exact distinct.map fun _ _ => MapKey.string.inj

theorem wellFormed_map {entries : List (MapKey × Value)}
    (distinct : (entries.map Prod.fst).Nodup) : WellFormed (.map entries) :=
  ⟨distinct, fun _ same => by cases same⟩

/-- Whatever is returned has no key twice. -/
theorem wellFormed_finish (small : acc.arrayValues.length < 2 ^ 63) {w : Value}
    (ok : acc.finish = .ok w) : WellFormed w := by
  unfold TableAcc.finish at ok
  split at ok
  -- the map, the array and the object have the keys that their containers keep apart
  next m _ =>
    cases ok
    exact wellFormed_map m.nodup
  · split at ok
    · split at ok
      · cases ok
        exact wellFormed_array (by simp)
      · split at ok
        · cases ok
        next full =>
          -- past the check for holes nothing is lost when the slots are flattened
          rcases full_or_hole acc.arrayValues with ⟨any, -⟩ | ⟨out, same, -, taken⟩
          · exact absurd (.inr any) full
          · rw [taken] at ok
            cases ok
            rw [same, List.length_map] at small
            exact wellFormed_array small
    · split at ok
      · cases ok
        exact wellFormed_object (HashTable.nodup _)
      · cases ok
        exact wellFormed_map List.nodup_nil

/-- An entry with a positive integer key is in the slot of its index. -/
theorem mem_iff_slot (perm : (slots acc.arrayValues 0).Perm (supported lossy done))
    (small : acc.arrayValues.length < 2 ^ 63) {i : Int64} (pos : 1 ≤ i) {x : Value} :
    (LuaValue.integer i, x) ∈ done ↔ acc.arrayValues[i.toInt.toNat - 1]? = some (some x) := by
  have idxPos := toNat_pos pos
  have below := toNat_lt i
  constructor
  -- the entry is stored in some slot, and the index of a slot is its key
  · intro member
    have stored := perm.mem_iff.mpr (mem_supported.mpr ⟨_, member, mapKey_of_positive pos⟩)
    obtain ⟨n, filled, same⟩ := mem_slots.mp stored
    obtain ⟨inside, -⟩ := List.getElem?_eq_some_iff.mp filled
    rw [index_inj (by omega) (by omega) same, Nat.zero_add, Nat.add_sub_cancel]
    exact filled
  · intro filled
    have stored := perm.mem_iff.mp (mem_slots.mpr ⟨_, filled, rfl⟩)
    obtain ⟨k, member, found⟩ := mem_supported.mp stored
    rw [Nat.zero_add, Nat.sub_add_cancel idxPos] at found
    -- only an integer has an integer key, and it is the same number
    obtain ⟨j, rfl, nonneg, same⟩ := integer_of_mapKey (by omega) found
    have equal : j = i := by
      rw [← Int64.toInt_inj]
      rw [one_le_iff] at pos
      omega
    exact equal ▸ member

/-- In a table with positive integer keys only, an empty slot is a hole. -/
theorem empty_slot_iff (perm : (slots acc.arrayValues 0).Perm (supported lossy done))
    (small : acc.arrayValues.length < 2 ^ 63) (last : acc.arrayValues.getLast? ≠ some none)
    (all : ∀ e ∈ done, positive e.1) :
    (∃ n : Nat, acc.arrayValues[n]? = some none) ↔ Holes done := by
  constructor
  · rintro ⟨n, empty⟩
    obtain ⟨inside, -⟩ := List.getElem?_eq_some_iff.mp empty
    rw [List.getLast?_eq_getElem?] at last
    cases end_ : acc.arrayValues[acc.arrayValues.length - 1]? with
    | none =>
      rw [List.getElem?_eq_none_iff] at end_
      omega
    | some slot =>
      cases slot with
      | none => exact absurd end_ last
      | some x =>
        -- the last slot is filled, so an empty one has a larger index behind it
        have before : n ≠ acc.arrayValues.length - 1 := by
          rintro rfl
          rw [end_] at empty
          cases empty
        obtain ⟨i, pos, value⟩ := exists_index (n := n) (by omega)
        obtain ⟨j, pos', value'⟩ := exists_index (n := acc.arrayValues.length - 1) (by omega)
        refine ⟨i, pos, ⟨(.integer j, x), (mem_iff_slot perm small pos').mpr ?_, j, rfl, ?_⟩, ?_⟩
        · rw [value', show ((acc.arrayValues.length - 1 : Nat) + 1 : Int).toNat - 1 =
            acc.arrayValues.length - 1 by omega]
          exact end_
        · rw [Int64.lt_iff_toInt_lt]
          omega
        · rintro ⟨k, y⟩ member rfl
          have filled := (mem_iff_slot perm small pos).mp member
          rw [value, show ((n : Int) + 1).toNat - 1 = n by omega, empty] at filled
          cases filled
  -- the slot of an index that is missing is empty, as a filled one would be an entry
  · rintro ⟨i, pos, ⟨⟨k, x⟩, member, j, rfl, above⟩, absent⟩
    have pos' : 1 ≤ j := of_decide_eq_true (all _ member)
    obtain ⟨inside, -⟩ := List.getElem?_eq_some_iff.mp ((mem_iff_slot perm small pos').mp member)
    have idxPos := toNat_pos pos
    rw [Int64.lt_iff_toInt_lt] at above
    have within : i.toInt.toNat - 1 < acc.arrayValues.length := by omega
    refine ⟨i.toInt.toNat - 1, ?_⟩
    rw [List.getElem?_eq_getElem within]
    cases slot : acc.arrayValues[i.toInt.toNat - 1] with
    | none => rfl
    | some y =>
      have present : (LuaValue.integer i, y) ∈ done := by
        rw [mem_iff_slot perm small pos, List.getElem?_eq_getElem within, slot]
      exact absurd rfl (absent _ present)

/-- Some keys are of an unsupported type, and the others are all strings or all positive. -/
def Emptied {ν : Type} (lossy : List UInt8 → String) (es : List (LuaValue × ν)) : Prop :=
  supported lossy es ≠ [] ∧ (∃ e ∈ es, mapKey lossy e.1 = none) ∧
    ((∀ e ∈ es, (mapKey lossy e.1).isSome → isString e.1) ∨
      ∀ e ∈ es, (mapKey lossy e.1).isSome → positive e.1)

/-- The keys decide the kind of the result. Its entries are those of the table, unless a key of an
unsupported type made the pass give up what it had. -/
structure Collected (lossy : List UInt8 → String) (done : List (LuaValue × Value)) (w : Value) :
    Prop where
  kind : tableKind w = some (kindOf done)
  full : kindOf done = .array → ¬Holes done
  entries : (tableEntries w).Perm (supported lossy done) ∨ w = .map [] ∧ Emptied lossy done

theorem kindOf_eq_array (all : ∀ e ∈ done, positive e.1) : kindOf done = .array := by
  rw [kindOf, if_pos (List.all_eq_true.mpr all)]

theorem kindOf_eq_object {e : LuaValue × Value} (member : e ∈ done) (other : positive e.1 = false)
    (all : ∀ e ∈ done, isString e.1) : kindOf done = .object := by
  rw [kindOf, if_neg, if_pos (List.all_eq_true.mpr all)]
  rw [List.all_eq_true]
  intro all
  rw [all e member] at other
  cases other

/-- Two keys of different kinds make a map. -/
theorem kindOf_eq_map {e e' : LuaValue × Value} (member : e ∈ done) (other : positive e.1 = false)
    (member' : e' ∈ done) (other' : isString e'.1 = false) : kindOf done = .map := by
  rw [kindOf, if_neg, if_neg]
  · rw [List.all_eq_true]
    intro all
    rw [all e' member'] at other'
    cases other'
  · rw [List.all_eq_true]
    intro all
    rw [all e member] at other
    cases other

theorem not_positive_of_isString {k : LuaValue} (string : isString k) : positive k = false := by
  cases k <;> simp [positive, isString] at string ⊢

theorem isSome_mapKey_of_positive (lossy : List UInt8 → String) {k : LuaValue}
    (pos : positive k) : (mapKey lossy k).isSome := by
  cases k <;> simp [positive, mapKey] at pos ⊢

theorem isSome_mapKey_of_isString (lossy : List UInt8 → String) {k : LuaValue}
    (string : isString k) : (mapKey lossy k).isSome := by
  cases k <;> simp [isString, mapKey] at string ⊢

theorem unsupported_of_keys {p : LuaValue → Bool}
    (keys : ∀ e ∈ done, (mapKey lossy e.1).isSome → p e.1) {e : LuaValue × Value} (member : e ∈ done)
    (other : p e.1 = false) : mapKey lossy e.1 = none := by
  rw [← Option.not_isSome_iff_eq_none]
  intro isKey
  rw [keys e member isKey] at other
  cases other

/-- A map is returned as it is. -/
theorem finish_map (shape : Shape lossy done acc) (present : acc.mapItems.isSome)
    (other : ∃ e ∈ done, positive e.1 = false) (other' : ∃ e ∈ done, isString e.1 = false) :
    ∃ w, acc.finish = .ok w ∧ Collected lossy done w := by
  obtain ⟨m, items⟩ := Option.isSome_iff_exists.mp present
  obtain ⟨e, member, other⟩ := other
  obtain ⟨e', member', other'⟩ := other'
  -- the two kinds of keys are what made the pass open the map
  have kind := kindOf_eq_map member other member' other'
  refine ⟨.map m.entries, by rw [TableAcc.finish, items], ?_, ?_, .inl ?_⟩
  · rw [kind]
    rfl
  · rw [kind]
    intro array
    cases array
  · rw [← TableAcc.stored_of_some items]
    exact shape.stored

/-- With an unsupported key and no map, the pass returns an empty map. -/
theorem finish_empty (map : acc.mapItems = none) (down : acc.onlyPosIntKeys = false)
    (mixed : (acc.sawStringKey && !acc.sawOtherKey) = false) (kind : kindOf done = .map)
    (lost : supported lossy done = [] ∨ Emptied lossy done) :
    ∃ w, acc.finish = .ok w ∧ Collected lossy done w := by
  refine ⟨.map [], ?_, ?_, ?_, ?_⟩
  · rw [TableAcc.finish, map]
    simp [down, mixed]
  · rw [kind]
    rfl
  · rw [kind]
    intro array
    cases array
  · rcases lost with nothing | emptied
    · left
      rw [nothing]
      rfl
    · exact .inr ⟨rfl, emptied⟩

/-- With an object the result is the object, or empty if another key was among them. -/
theorem finish_object (shape : Shape lossy done acc) (map : acc.mapItems = none)
    (object : acc.objectItems.isSome) (array : acc.arrayValues = [])
    (keys : ∀ e ∈ done, (mapKey lossy e.1).isSome → isString e.1)
    (seen : ∃ e ∈ done, isString e.1) : ∃ w, acc.finish = .ok w ∧ Collected lossy done w := by
  obtain ⟨obj, objects⟩ := Option.isSome_iff_exists.mp object
  obtain ⟨e, member, string⟩ := seen
  have other := not_positive_of_isString string
  have down : acc.onlyPosIntKeys = false := by
    rw [shape.only, List.all_eq_false]
    exact ⟨e, member, by simp [other]⟩
  have seenString : acc.sawStringKey = true := by
    rw [shape.string, List.any_eq_true]
    exact ⟨e, member, string⟩
  -- strings only, so the object is what is returned
  by_cases all : ∀ e ∈ done, isString e.1
  · have kind := kindOf_eq_object member other all
    have pure : acc.sawOtherKey = false := by
      rw [shape.other, List.all_eq_true.mpr all]
      rfl
    refine ⟨.object obj.entries, ?_, ?_, ?_, .inl ?_⟩
    · rw [TableAcc.finish, map]
      simp [down, seenString, pure, objects]
    · rw [kind]
      rfl
    · rw [kind]
      intro array
      cases array
    · have perm := shape.stored
      rw [TableAcc.stored_of_none map objects, array] at perm
      simpa [slots, tableEntries] using perm
  · -- a key that is no string is unsupported, and the object is given up
    push Not at all
    obtain ⟨e', member', other'⟩ := all
    replace other' := Bool.eq_false_iff.mpr other'
    have unsupported := unsupported_of_keys keys member' other'
    have mixed : acc.sawOtherKey = true := by
      rw [shape.other, List.all_eq_false.mpr ⟨e', member', by simp [other']⟩]
      rfl
    refine finish_empty map down (by rw [mixed, seenString]; rfl)
      (kindOf_eq_map member other member' other') (.inr ⟨?_, ⟨e', member', unsupported⟩, .inl keys⟩)
    intro nothing
    have isKey := isSome_mapKey_of_isString lossy string
    rw [supported_eq_nil.mp nothing e member] at isKey
    cases isKey

/-- All keys are positive: the array is returned unless it has a hole. -/
theorem finish_positive (shape : Shape lossy done acc) (map : acc.mapItems = none)
    (object : acc.objectItems = some .empty) (all : ∀ e ∈ done, positive e.1)
    (length : acc.arrayValues.length = acc.maxIdx) (last : acc.arrayValues.getLast? ≠ some none) :
    (acc.finish = .error (.error "sparse arrays are not supported") ∧ kindOf done = .array ∧
      Holes done) ∨ ∃ w, acc.finish = .ok w ∧ Collected lossy done w := by
  have perm := shape.stored
  rw [TableAcc.stored_of_none map object] at perm
  have kind := kindOf_eq_array all
  have up : acc.onlyPosIntKeys = true := by rw [shape.only, List.all_eq_true.mpr all]
  have empty := empty_slot_iff perm shape.small last all
  rcases full_or_hole acc.arrayValues with ⟨any, hole⟩ | ⟨out, same, full, taken⟩
  · refine .inl ⟨?_, kind, empty.mp hole⟩
    -- an array with a hole is not the empty one
    have nonempty : acc.maxIdx ≠ 0 := by
      rw [← length]
      intro zero
      rw [List.length_eq_zero_iff.mp zero] at any
      cases any
    rw [TableAcc.finish, map]
    simp only [up, if_true, nonempty, if_false, any, or_true]
  · right
    refine ⟨.array out, ?_, ?_, fun _ holes => ?_, .inl ?_⟩
    · rw [TableAcc.finish, map]
      simp only [up, if_true, full, length, ne_eq, not_true_eq_false, Bool.false_eq_true, or_self,
        if_false, taken]
      split
      next zero =>
        rw [← length, same, List.length_map, List.length_eq_zero_iff] at zero
        rw [zero]
      · rfl
    · rw [kind]
      rfl
    -- a hole would be an empty slot, but all of them are filled
    · obtain ⟨n, hole⟩ := empty.mpr holes
      rw [same, List.getElem?_map] at hole
      cases here : out[n]? <;> simp [here] at hole
    · rw [same] at perm
      exact perm

/-- A key that is not positive is unsupported, and the array is given up. -/
theorem finish_given_up (shape : Shape lossy done acc) (map : acc.mapItems = none)
    (keys : ∀ e ∈ done, (mapKey lossy e.1).isSome → positive e.1)
    {e : LuaValue × Value} (member : e ∈ done) (other : positive e.1 = false) :
    ∃ w, acc.finish = .ok w ∧ Collected lossy done w := by
  have unsupported := unsupported_of_keys keys member other
  have noString : isString e.1 = false := by
    rw [← Bool.not_eq_true]
    intro string
    have isKey := isSome_mapKey_of_isString lossy string
    rw [unsupported] at isKey
    cases isKey
  -- a string would be a key, and all keys here are positive integers
  have noStrings : acc.sawStringKey = false := by
    rw [shape.string, List.any_eq_false]
    intro e' member' string
    have pos := keys e' member' (isSome_mapKey_of_isString lossy string)
    rw [not_positive_of_isString string] at pos
    cases pos
  have down : acc.onlyPosIntKeys = false := by
    rw [shape.only, List.all_eq_false]
    exact ⟨e, member, by simp [other]⟩
  -- no flag is left that returns the array, although it may hold entries
  refine finish_empty map down (by rw [noStrings]; rfl)
    (kindOf_eq_map member other member noString) ?_
  by_cases nothing : supported lossy done = []
  · exact .inl nothing
  · exact .inr ⟨nothing, ⟨e, member, unsupported⟩, .inr keys⟩

/-- The array is what is stored, when every key that can be kept is a positive integer. -/
theorem finish_array (shape : Shape lossy done acc) (map : acc.mapItems = none)
    (object : acc.objectItems = some .empty)
    (keys : ∀ e ∈ done, (mapKey lossy e.1).isSome → positive e.1)
    (length : acc.arrayValues.length = acc.maxIdx) (last : acc.arrayValues.getLast? ≠ some none) :
    (acc.finish = .error (.error "sparse arrays are not supported") ∧ kindOf done = .array ∧
      Holes done) ∨ ∃ w, acc.finish = .ok w ∧ Collected lossy done w := by
  by_cases all : ∀ e ∈ done, positive e.1
  · exact finish_positive shape map object all length last
  · push Not at all
    obtain ⟨e, member, other⟩ := all
    exact .inr (finish_given_up shape map keys member (Bool.eq_false_iff.mpr other))

/-- All cases together. -/
theorem finish_of_shape (shape : Shape lossy done acc) :
    (acc.finish = .error (.error "sparse arrays are not supported") ∧ kindOf done = .array ∧
      Holes done) ∨ ∃ w, acc.finish = .ok w ∧ Collected lossy done w := by
  cases shape.mode with
  | map present other other' => exact .inr (finish_map shape present other other')
  | object map object array keys seen =>
    exact .inr (finish_object shape map object array keys seen)
  | array map object keys length last => exact finish_array shape map object keys length last

/-! ### The whole pass -/

section Run

variable {convert : LuaValue → Except Failure Value} {es es' : List (LuaValue × LuaValue)}

/-- The pairs with their converted values. -/
def converted (convert : LuaValue → Except Failure Value) (es : List (LuaValue × LuaValue)) :
    List (LuaValue × Value) :=
  es.map fun e => (e.1, (convert e.2).toOption.getD .null)

theorem pair_eq {e : LuaValue × LuaValue} :
    acc.pair capacity lossy convert e =
      (convert e.2).bind fun v => acc.store capacity lossy e.1 v := rfl

/-- A pass that gets to the end has converted every value. -/
theorem flags_run (flags : Flags done acc)
    (ok : es.foldlM (TableAcc.pair capacity lossy convert) acc = .ok acc') :
    Flags (done ++ converted convert es) acc' ∧ ∀ e ∈ es, ∃ v, convert e.2 = .ok v := by
  induction es generalizing done acc with
  | nil =>
    cases ok
    rw [converted, List.map_nil, List.append_nil]
    exact ⟨flags, by simp⟩
  | cons e rest ih =>
    rw [List.foldlM_cons] at ok
    obtain ⟨mid, first, later⟩ := Except.bind_eq_ok.mp ok
    rw [pair_eq] at first
    obtain ⟨v, converts, stored⟩ := Except.bind_eq_ok.mp first
    obtain ⟨result, values⟩ := ih (flags_store flags stored) later
    constructor
    · simpa [converted, converts, Except.toOption] using result
    · rw [List.forall_mem_cons]
      exact ⟨⟨v, converts⟩, values⟩

/-- With distinct keys that the array has room for, the pass stores every pair, or it fails with
the value of one of them. -/
theorem shape_run (shape : Shape lossy done acc)
    (distinct : ((supported lossy (done ++ converted convert es)).map Prod.fst).Nodup)
    (room : ∀ e ∈ es, ∀ v, convert e.2 = .ok v → ∀ i, e.1 = .integer i →
      i.toInt.toNat ≤ capacity) :
    (∃ acc', es.foldlM (TableAcc.pair capacity lossy convert) acc = .ok acc' ∧
      Shape lossy (done ++ converted convert es) acc') ∨
    ∃ e ∈ es, ∃ failure, convert e.2 = .error failure ∧
      es.foldlM (TableAcc.pair capacity lossy convert) acc = .error failure := by
  induction es generalizing done acc with
  | nil =>
    left
    rw [converted, List.map_nil, List.append_nil]
    exact ⟨acc, rfl, shape⟩
  | cons e rest ih =>
    rw [List.foldlM_cons, pair_eq]
    cases converts : convert e.2 with
    | error failure => exact .inr ⟨e, List.mem_cons_self, failure, converts, rfl⟩
    | ok v =>
      -- one more pair done; the induction is on those that are left
      have split : done ++ converted convert (e :: rest) =
          done ++ [(e.1, v)] ++ converted convert rest := by
        simp [converted, converts, Except.toOption]
      rw [split] at distinct ⊢
      have first : ((supported lossy (done ++ [(e.1, v)])).map Prod.fst).Nodup := by
        rw [supported_append, List.map_append] at distinct
        exact (List.nodup_append.mp distinct).1
      obtain ⟨mid, stored, next⟩ := shape_store shape first (room e List.mem_cons_self v converts)
      have later := ih next distinct fun e' member => room e' (List.mem_cons_of_mem _ member)
      rcases later with ⟨acc', ok, result⟩ | ⟨e', member, failure, fails, error⟩
      · left
        refine ⟨acc', ?_, result⟩
        simp only [Except.bind, stored, bind]
        exact ok
      · right
        refine ⟨e', List.mem_cons_of_mem _ member, failure, fails, ?_⟩
        simp only [Except.bind, stored, bind]
        exact error

theorem collectPairs_ok {w : Value} (ok : collectPairs capacity lossy convert es = .ok w) :
    WellFormed w ∧ ∀ e ∈ es, ∃ v, convert e.2 = .ok v := by
  obtain ⟨acc, run, finish⟩ := Except.bind_eq_ok.mp ok
  obtain ⟨flags, values⟩ := flags_run flags_empty run
  exact ⟨wellFormed_finish flags.small finish, values⟩

/-- How the conversion of a table ends. -/
theorem collectPairs_cases
    (distinct : ((supported lossy (converted convert es)).map Prod.fst).Nodup)
    (room : ∀ e ∈ es, ∀ v, convert e.2 = .ok v → ∀ i, e.1 = .integer i →
      i.toInt.toNat ≤ capacity) :
    (∃ w, collectPairs capacity lossy convert es = .ok w ∧
      Collected lossy (converted convert es) w) ∨
    (collectPairs capacity lossy convert es = .error (.error "sparse arrays are not supported") ∧
      kindOf (converted convert es) = .array ∧ Holes (converted convert es)) ∨
    ∃ e ∈ es, ∃ failure, convert e.2 = .error failure ∧
      collectPairs capacity lossy convert es = .error failure := by
  -- the pass begins with nothing done
  have run := @shape_run capacity lossy {} [] convert es shape_empty distinct room
  rw [List.nil_append] at run
  rcases run with ⟨acc, ok, shape⟩ | ⟨e, member, failure, fails, error⟩
  · have result : collectPairs capacity lossy convert es = acc.finish := by
      rw [collectPairs, ok]
      rfl
    rw [result]
    rcases finish_of_shape shape with ⟨sparse, kind, holes⟩ | ⟨w, finish, collected⟩
    · exact .inr (.inl ⟨sparse, kind, holes⟩)
    · exact .inl ⟨w, finish, collected⟩
  · refine .inr (.inr ⟨e, member, failure, fails, ?_⟩)
    rw [collectPairs, error]
    rfl

end Run

end Result

/-! ### Values that are the same -/

section Same

variable {w w' : Value}

theorem mem_array {items : List Value} {key : MapKey} {x : Value} :
    (key, x) ∈ tableEntries (.array items) ↔
      ∃ n : Nat, items[n]? = some x ∧ key = .u64 (UInt64.ofNat (n + 1)) := by
  rw [tableEntries, mem_slots]
  simp [List.getElem?_map]

/-- The keys of an array are the indices. -/
theorem key_array {items : List Value} {key : MapKey} :
    key ∈ (tableEntries (.array items)).map Prod.fst ↔
      ∃ n < items.length, key = .u64 (UInt64.ofNat (n + 1)) := by
  rw [List.mem_map]
  constructor
  · rintro ⟨⟨key, x⟩, member, rfl⟩
    obtain ⟨n, here, index⟩ := mem_array.mp member
    exact ⟨n, (List.getElem?_eq_some_iff.mp here).1, index⟩
  · rintro ⟨n, inside, index⟩
    exact ⟨_, mem_array.mpr ⟨n, List.getElem?_eq_getElem inside, index⟩, rfl⟩

/-- The entry of an index is the item there. -/
theorem mem_array_index {items : List Value} (small : items.length < 2 ^ 63) {n : Nat}
    (bound : n < 2 ^ 63) {x : Value} :
    (MapKey.u64 (UInt64.ofNat (n + 1)), x) ∈ tableEntries (.array items) ↔ items[n]? = some x := by
  rw [mem_array]
  constructor
  · rintro ⟨m, here, same⟩
    obtain ⟨inside, -⟩ := List.getElem?_eq_some_iff.mp here
    -- equal keys are of equal slots, as no index wraps
    have indices := index_inj (by omega) (by omega) same
    rw [show n = m by omega]
    exact here
  · intro here
    exact ⟨n, here, rfl⟩

/-- An index is a key up to the length. -/
theorem key_array_index {items : List Value} (small : items.length < 2 ^ 63) {n : Nat}
    (bound : n < 2 ^ 63) :
    MapKey.u64 (UInt64.ofNat (n + 1)) ∈ (tableEntries (.array items)).map Prod.fst ↔
      n < items.length := by
  rw [key_array]
  constructor
  · rintro ⟨m, inside, same⟩
    have indices := index_inj (by omega) (by omega) same
    omega
  · intro inside
    exact ⟨n, inside, rfl⟩

theorem mem_object {fields : List (String × Value)} {k : String} {x : Value} :
    (MapKey.string k, x) ∈ tableEntries (.object fields) ↔ (k, x) ∈ fields := by
  simp [tableEntries]

theorem key_object {fields : List (String × Value)} {k : String} :
    MapKey.string k ∈ (tableEntries (.object fields)).map Prod.fst ↔ k ∈ fields.map Prod.fst := by
  simp [tableEntries]

theorem array_of_kind (kind : tableKind w = some .array) : ∃ items, w = .array items := by
  cases w <;> simp [tableKind] at kind ⊢

theorem object_of_kind (kind : tableKind w = some .object) : ∃ fields, w = .object fields := by
  cases w <;> simp [tableKind] at kind ⊢

theorem map_of_kind (kind : tableKind w = some .map) : ∃ entries, w = .map entries := by
  cases w <;> simp [tableKind] at kind ⊢

/-- The entries determine a table value of a kind. -/
theorem same_of_agree (good : WellFormed w) (good' : WellFormed w') {kind : Kind}
    (isKind : tableKind w = some kind) (isKind' : tableKind w' = some kind)
    (agree : Agree Value.Same (tableEntries w) (tableEntries w')) : w.Same w' := by
  cases kind with
  | array =>
    obtain ⟨xs, rfl⟩ := array_of_kind isKind
    obtain ⟨ys, rfl⟩ := array_of_kind isKind'
    have small := good.small xs rfl
    have small' := good'.small ys rfl
    -- the keys of an array are the indices up to its length
    have inside (n : Nat) (bound : n < 2 ^ 63) : n < xs.length ↔ n < ys.length := by
      rw [← key_array_index small bound, ← key_array_index small' bound]
      exact agree.keys _
    refine .array ?_ fun n x y left right => ?_
    · have first := (inside xs.length small).mpr
      have second := (inside ys.length small').mp
      omega
    · obtain ⟨below, -⟩ := List.getElem?_eq_some_iff.mp left
      exact agree.values ((mem_array_index small (by omega)).mpr left)
        ((mem_array_index small' (by omega)).mpr right)
  | object =>
    obtain ⟨fields, rfl⟩ := object_of_kind isKind
    obtain ⟨fields', rfl⟩ := object_of_kind isKind'
    refine .object (fun k => ?_) fun k x y left right => ?_
    · rw [← key_object, ← key_object]
      exact agree.keys _
    · exact agree.values (mem_object.mpr left) (mem_object.mpr right)
  | map =>
    obtain ⟨entries, rfl⟩ := map_of_kind isKind
    obtain ⟨entries', rfl⟩ := map_of_kind isKind'
    exact .map agree.keys fun _ _ _ => agree.values

end Same

/-! ### Enumeration orders -/

section Orders

variable {lossy : List UInt8 → String} {ν ν' : Type} {es : List (LuaValue × ν)}
  {es' : List (LuaValue × ν')}

/-- What only reads the keys of a table does not see their order. -/
theorem forall_key_congr (keys : ∀ k, k ∈ es.map Prod.fst ↔ k ∈ es'.map Prod.fst)
    (p : LuaValue → Prop) : (∀ e ∈ es, p e.1) ↔ ∀ e ∈ es', p e.1 := by
  have onKeys {μ : Type} (fs : List (LuaValue × μ)) :
      (∀ e ∈ fs, p e.1) ↔ ∀ k ∈ fs.map Prod.fst, p k := List.forall_mem_map.symm
  rw [onKeys, onKeys]
  simp only [keys]

/-- What only asks for keys does not tell two tables with the same keys apart. -/
theorem exists_key_congr (keys : ∀ k, k ∈ es.map Prod.fst ↔ k ∈ es'.map Prod.fst)
    (p : LuaValue → Prop) : (∃ e ∈ es, p e.1) ↔ ∃ e ∈ es', p e.1 := by
  -- that none is there is said of all keys
  have none := forall_key_congr keys fun k => ¬p k
  constructor
  · rintro ⟨e, member, holds⟩
    by_contra absent
    push Not at absent
    exact none.mpr absent e member holds
  · rintro ⟨e, member, holds⟩
    by_contra absent
    push Not at absent
    exact none.mp absent e member holds

theorem kindOf_congr (keys : ∀ k, k ∈ es.map Prod.fst ↔ k ∈ es'.map Prod.fst) :
    kindOf es = kindOf es' := by
  have all (p : LuaValue → Bool) : (es.all fun e => p e.1) = es'.all fun e => p e.1 := by
    rw [Bool.eq_iff_iff, List.all_eq_true, List.all_eq_true]
    exact forall_key_congr keys fun k => p k
  rw [kindOf, kindOf, all, all]

theorem holes_congr (keys : ∀ k, k ∈ es.map Prod.fst ↔ k ∈ es'.map Prod.fst) :
    Holes es ↔ Holes es' := by
  unfold Holes
  refine exists_congr fun i => and_congr_right fun _ => and_congr ?_ ?_
  · exact exists_key_congr keys fun k => ∃ j, k = .integer j ∧ i < j
  · exact forall_key_congr keys fun k => k ≠ .integer i

theorem supported_ne_nil_congr (keys : ∀ k, k ∈ es.map Prod.fst ↔ k ∈ es'.map Prod.fst) :
    supported lossy es ≠ [] ↔ supported lossy es' ≠ [] := by
  rw [ne_eq, ne_eq, supported_eq_nil, supported_eq_nil]
  exact not_congr (forall_key_congr keys fun k => mapKey lossy k = none)

/-- Being emptied is such a question. -/
theorem emptied_congr (keys : ∀ k, k ∈ es.map Prod.fst ↔ k ∈ es'.map Prod.fst) :
    Emptied lossy es ↔ Emptied lossy es' := by
  unfold Emptied
  refine and_congr (supported_ne_nil_congr keys) (and_congr ?_ (or_congr ?_ ?_))
  · exact exists_key_congr keys fun k => mapKey lossy k = none
  · exact forall_key_congr keys fun k => (mapKey lossy k).isSome → isString k
  · exact forall_key_congr keys fun k => (mapKey lossy k).isSome → positive k

end Orders

/-! ### Tables that keep their entries -/

section Kept

variable {capacity : Nat} {lossy : List UInt8 → String}
  {convert : LuaValue → Except Failure Value} {es es' : List (LuaValue × LuaValue)} {w w' : Value}

theorem keys_converted : (converted convert es).map Prod.fst = es.map Prod.fst := by
  simp [converted, Function.comp_def]

theorem supported_converted : supported lossy (converted convert es) =
    (supported lossy es).map fun e => (e.1, (convert e.2).toOption.getD .null) := by
  simp [supported, converted, List.filterMap_map, List.map_filterMap, Function.comp_def,
    Option.map_map]

theorem keys_supported_converted : (supported lossy (converted convert es)).map Prod.fst =
    (supported lossy es).map Prod.fst := by
  rw [supported_converted, List.map_map]
  rfl

/-- The value has the entries with integer, string and boolean keys, with their converted values,
and no others. -/
def Keeps (lossy : List UInt8 → String) (convert : LuaValue → Except Failure Value)
    (es : List (LuaValue × LuaValue)) (w : Value) : Prop :=
  ((tableEntries w).map fun e => (e.1, Except.ok e.2)).Perm
    ((supported lossy es).map fun e => (e.1, convert e.2))

/-- No two string keys become the same text, no index is too large for an array, and the pass does
not end with an empty map. -/
structure Keepable (capacity : Nat) (lossy : List UInt8 → String)
    (es : List (LuaValue × LuaValue)) : Prop where
  distinct : ((supported lossy es).map Prod.fst).Nodup
  room : ∀ e ∈ es, ∀ i, e.1 = .integer i → i.toInt.toNat ≤ capacity
  mixed : ¬Emptied lossy es

/-- All entries are kept if the entries are those of the table. -/
theorem keeps_of_entries (values : ∀ e ∈ es, ∃ v, convert e.2 = .ok v)
    (entries : (tableEntries w).Perm (supported lossy (converted convert es))) :
    Keeps lossy convert es w := by
  refine (entries.map _).trans (.of_eq ?_)
  rw [supported_converted, List.map_map]
  refine List.map_congr_left fun e member => ?_
  obtain ⟨k, inside, -⟩ := mem_supported.mp member
  obtain ⟨v, ok⟩ := values _ inside
  simp only [Function.comp_apply, ok]
  rfl

/-- A keepable table whose values convert is collected, or it has holes. -/
theorem collected_of_keepable (keepable : Keepable capacity lossy es)
    (values : ∀ e ∈ es, ∃ v, convert e.2 = .ok v) :
    (∃ w, collectPairs capacity lossy convert es = .ok w ∧
      tableKind w = some (kindOf es) ∧ (kindOf es = .array → ¬Holes es) ∧
      (tableEntries w).Perm (supported lossy (converted convert es))) ∨
    ∃ failure, collectPairs capacity lossy convert es = .error failure ∧ kindOf es = .array ∧
      Holes es := by
  have keys (k : LuaValue) : k ∈ (converted convert es).map Prod.fst ↔ k ∈ es.map Prod.fst := by
    rw [keys_converted]
  have nodup : ((supported lossy (converted convert es)).map Prod.fst).Nodup := by
    rw [keys_supported_converted]
    exact keepable.distinct
  rcases collectPairs_cases nodup
    fun e member _ _ => keepable.room e member with
    ⟨w, ok, collected⟩ | ⟨sparse, kind, holes⟩ | ⟨e, member, failure, fails, -⟩
  · left
    refine ⟨w, ok, ?_, ?_, ?_⟩
    · rw [← kindOf_congr keys]
      exact collected.kind
    · rw [← kindOf_congr keys, ← holes_congr keys]
      exact collected.full
    · rcases collected.entries with entries | ⟨-, emptied⟩
      · exact entries
      · exact absurd ((emptied_congr keys).mp emptied) keepable.mixed
  · right
    rw [kindOf_congr keys] at kind
    exact ⟨_, sparse, kind, (holes_congr keys).mp holes⟩
  -- no value fails
  · obtain ⟨v, converts⟩ := values e member
    cases converts.symm.trans fails

theorem keepable_perm (keepable : Keepable capacity lossy es) (perm : es'.Perm es) :
    Keepable capacity lossy es' := by
  refine ⟨?_, fun e member => keepable.room e (perm.mem_iff.mp member), fun emptied => ?_⟩
  · exact ((perm.filterMap _).map _).nodup_iff.mpr keepable.distinct
  · exact keepable.mixed ((emptied_congr fun _ => (perm.map _).mem_iff).mp emptied)

/-- Every order of a keepable table that converts gives the same value. -/
theorem keeps_of_keepable (keepable : Keepable capacity lossy es)
    (ok : collectPairs capacity lossy convert es = .ok w) :
    Keeps lossy convert es w ∧
      ∀ es', es'.Perm es → ∃ w', collectPairs capacity lossy convert es' = .ok w' ∧ w.Same w' := by
  obtain ⟨good, values⟩ := collectPairs_ok ok
  -- the pass did not fail, so it collected the entries, and so does any other order
  rcases collected_of_keepable keepable values with ⟨w₀, ok₀, kind, full, entries⟩ | ⟨_, error, -⟩
  · cases ok.symm.trans ok₀
    refine ⟨keeps_of_entries values entries, fun es' perm => ?_⟩
    have keys (k : LuaValue) : k ∈ es'.map Prod.fst ↔ k ∈ es.map Prod.fst := (perm.map _).mem_iff
    rcases collected_of_keepable (keepable_perm keepable perm)
      fun e member => values e (perm.mem_iff.mp member) with
      ⟨w', ok', kind', -, entries'⟩ | ⟨_, -, array, holes⟩
    · refine ⟨w', ok', ?_⟩
      rw [kindOf_congr keys] at kind'
      -- both values have the entries of the table
      have same := (entries'.trans ((perm.map _).filterMap _)).trans entries.symm
      exact same_of_agree good (collectPairs_ok ok').1 kind kind' (.of_perm good.nodup same .refl)
    · rw [kindOf_congr keys] at array
      exact absurd ((holes_congr keys).mp holes) (full array)
  · cases ok.symm.trans error

/-! ### Tables that do not -/

/-- An index that the array has no room for panics when it comes first. -/
theorem collectPairs_panics {i : Int64} {x : LuaValue} {v : Value} (converts : convert x = .ok v)
    (large : capacity < i.toInt.toNat) :
    collectPairs capacity lossy convert ((.integer i, x) :: es) = .error .panic := by
  have pos : 1 ≤ i := by
    rw [one_le_iff]
    omega
  have room : 0 < i.toInt.toNat := by omega
  have first : TableAcc.pair capacity lossy convert {} (.integer i, x) = .error .panic := by
    rw [pair_eq, converts]
    simp only [Except.bind, TableAcc.store]
    -- `resize_with` is asked for more slots than a `Vec` can have
    rw [if_pos ⟨pos, by simp⟩, if_pos ⟨room, large⟩]
  rw [collectPairs, List.foldlM_cons, first]
  rfl

/-- What the `store` of every pair preserves, the pass preserves. -/
theorem run_keeps {acc acc' : TableAcc} {P : TableAcc → Prop}
    (preserved : ∀ e ∈ es, ∀ acc v acc', P acc → acc.store capacity lossy e.1 v = .ok acc' → P acc')
    (start : P acc) (ok : es.foldlM (TableAcc.pair capacity lossy convert) acc = .ok acc') :
    P acc' := by
  refine foldlM_invariant_mem (fun e member acc acc' holds paired => ?_) start ok
  rw [pair_eq] at paired
  obtain ⟨v, -, stored⟩ := Except.bind_eq_ok.mp paired
  exact preserved e member acc v acc' holds stored

/-- From an empty pass, string keys never open a map. -/
theorem store_isString {acc acc' : TableAcc} {k : LuaValue} {v : Value} (string : isString k)
    (start : acc.mapItems = none ∧ acc.arrayValues = [])
    (ok : acc.store capacity lossy k v = .ok acc') :
    acc'.mapItems = none ∧ acc'.arrayValues = [] := by
  obtain ⟨map, array⟩ := start
  cases k with
  | string bytes =>
    -- the object takes it, if it was not given up
    cases objects : acc.objectItems with
    | none => simp [TableAcc.store, map, array, objects] at ok
    | some obj =>
      simp only [TableAcc.store, map, array, objects, List.isEmpty_nil, Bool.not_true,
        Bool.false_eq_true, if_false, Except.ok.injEq] at ok
      subst ok
      exact ⟨rfl, rfl⟩
  | _ => cases string

/-- Nor do positive integers. -/
theorem store_positive {acc acc' : TableAcc} {k : LuaValue} {v : Value} (pos : positive k)
    (start : acc.mapItems = none ∧ acc.onlyPosIntKeys)
    (ok : acc.store capacity lossy k v = .ok acc') :
    acc'.mapItems = none ∧ acc'.onlyPosIntKeys := by
  obtain ⟨map, only⟩ := start
  cases k with
  | integer i =>
    unfold TableAcc.store at ok
    simp only at ok
    -- with a positive index and no other key so far it is the array that takes the value
    rw [if_pos ⟨of_decide_eq_true pos, only, by rw [map]; rfl⟩] at ok
    split at ok
    · cases ok
    · split at ok
      · cases ok
        exact ⟨map, only⟩
      · cases ok
      · cases ok
  | _ => cases pos

theorem store_none {acc acc' : TableAcc} {k : LuaValue} {v : Value}
    (unsupported : mapKey lossy k = none) (start : acc.mapItems = none)
    (ok : acc.store capacity lossy k v = .ok acc') : acc'.mapItems = none := by
  cases k with
  | integer _ | string _ | boolean _ => cases unsupported
  | nil | number _ | table _ | other =>
    cases ok
    exact start

/-- The supported keys first: then the unsupported ones leave an empty map. -/
theorem collectPairs_emptied (emptied : Emptied lossy es) :
    ∃ es', es'.Perm es ∧
      ∀ w, collectPairs capacity lossy convert es' = .ok w → w = .map [] := by
  obtain ⟨nonempty, ⟨other, isOther, unsupported⟩, keys⟩ := emptied
  let isKey (e : LuaValue × LuaValue) : Bool := (mapKey lossy e.1).isSome
  have perm : (es.filter isKey ++ es.filter fun e => !isKey e).Perm es :=
    List.filter_append_perm isKey es
  refine ⟨_, perm, fun w ok => ?_⟩
  obtain ⟨acc, run, finish⟩ := Except.bind_eq_ok.mp ok
  obtain ⟨flags, -⟩ := flags_run flags_empty run
  rw [List.nil_append] at flags
  rw [List.foldlM_append] at run
  obtain ⟨mid, first, second⟩ := Except.bind_eq_ok.mp run
  -- the supported keys make no map
  have noMap : mid.mapItems = none := by
    rcases keys with strings | positives
    · refine (run_keeps (P := fun acc => acc.mapItems = none ∧ acc.arrayValues = []) ?_ ⟨rfl, rfl⟩
        first).1
      intro e member acc v acc' start ok
      obtain ⟨inside, isKey⟩ := List.mem_filter.mp member
      exact store_isString (strings e inside isKey) start ok
    · refine (run_keeps (P := fun acc => acc.mapItems = none ∧ acc.onlyPosIntKeys) ?_ ⟨rfl, rfl⟩
        first).1
      intro e member acc v acc' start ok
      obtain ⟨inside, isKey⟩ := List.mem_filter.mp member
      exact store_positive (positives e inside isKey) start ok
  have map : acc.mapItems = none := by
    refine run_keeps (P := fun acc => acc.mapItems = none) ?_ noMap second
    intro e member acc v acc' start ok
    obtain ⟨-, noKey⟩ := List.mem_filter.mp member
    rw [Bool.not_eq_true', Option.isSome_eq_false_iff, Option.isNone_iff_eq_none] at noKey
    exact store_none noKey start ok
  -- the unsupported key puts the flags so that neither the array nor the object is returned
  have seen : other.1 ∈ (converted convert (es.filter isKey ++ es.filter fun e => !isKey e)).map
      Prod.fst := by
    rw [keys_converted]
    exact List.mem_map_of_mem (perm.mem_iff.mpr isOther)
  obtain ⟨⟨k, x⟩, member, rfl⟩ := List.mem_map.mp seen
  have down : acc.onlyPosIntKeys = false := by
    rw [flags.only, List.all_eq_false]
    refine ⟨_, member, fun pos => ?_⟩
    have isKey := isSome_mapKey_of_positive lossy pos
    rw [unsupported] at isKey
    cases isKey
  have mixed : acc.sawOtherKey = true := by
    rw [flags.other, Bool.not_eq_true', List.all_eq_false]
    refine ⟨_, member, fun string => ?_⟩
    have isKey := isSome_mapKey_of_isString lossy string
    rw [unsupported] at isKey
    cases isKey
  rw [TableAcc.finish, map] at finish
  simp only [down, mixed, Bool.false_eq_true, if_false, Bool.not_true, Bool.and_false,
    Except.ok.injEq] at finish
  exact finish.symm

theorem keys_of_same_map {w : Value} (same : w.Same (.map [])) : tableEntries w = [] := by
  cases same with
  | refl => rfl
  | map keys _ =>
    rw [tableEntries, List.eq_nil_iff_forall_not_mem]
    intro e member
    exact absurd ((keys e.1).mp (List.mem_map_of_mem member)) (by simp)

/-- If the entries are kept in every order, none of the three reasons to lose some is there. -/
theorem keepable_of_keeps (ok : collectPairs capacity lossy convert es = .ok w)
    (keeps : Keeps lossy convert es w)
    (orders : ∀ es', es'.Perm es → ∃ w', collectPairs capacity lossy convert es' = .ok w' ∧
      w.Same w') : Keepable capacity lossy es := by
  obtain ⟨good, values⟩ := collectPairs_ok ok
  refine ⟨?_, fun e member i here => ?_, fun emptied => ?_⟩
  · have keys := keeps.map Prod.fst
    rw [List.map_map, List.map_map] at keys
    exact keys.nodup_iff.mp good.nodup
  · by_contra large
    obtain ⟨k, x⟩ := e
    cases here
    obtain ⟨v, converts⟩ := values _ member
    obtain ⟨before, after, rfl⟩ := List.append_of_mem member
    obtain ⟨w', ok', -⟩ := orders ((.integer i, x) :: (before ++ after)) List.perm_middle.symm
    rw [collectPairs_panics converts (by omega)] at ok'
    cases ok'
  · obtain ⟨es', perm, empty⟩ := @collectPairs_emptied capacity lossy convert es emptied
    obtain ⟨w', ok', same⟩ := orders es' perm
    rw [empty w' ok'] at same
    -- nothing is left of an entry with a supported key
    rw [Keeps, keys_of_same_map same, List.map_nil, List.nil_perm, List.map_eq_nil_iff] at keeps
    exact emptied.1 keeps

/-- A table that `lua_to_value` converts, at the top or nested in another, keeps the entries with
integer, string and boolean keys, and has the same value in every order of enumeration, exactly when
it is keepable. -/
theorem table_kept_iff (depth : Nat)
    (ok : luaToValueInner capacity lossy (depth + 2) (.table es) = .ok w) :
    (Keeps lossy (luaToValueInner capacity lossy depth) es w ∧
      ∀ es', es'.Perm es → ∃ w', luaToValueInner capacity lossy (depth + 2) (.table es') = .ok w' ∧
        w.Same w') ↔ Keepable capacity lossy es :=
  ⟨fun ⟨keeps, orders⟩ => keepable_of_keeps ok keeps orders, fun keepable =>
    keeps_of_keepable keepable ok⟩

/-- `{true, flag = false}` is kept, as a map. -/
theorem table_kept_mixed :
    (Keeps (fun _ => "") (luaToValueInner 1024 (fun _ => "") 62)
        [(.integer 1, .boolean true), (.string [102], .boolean false)]
        (.map [(.u64 1, .bool true), (.string "f", .bool false)]) ∧
      ∀ es', es'.Perm [(.integer 1, .boolean true), (.string [102], .boolean false)] →
        ∃ w', luaToValueInner 1024 (fun _ => "") 64 (.table es') = .ok w' ∧
          (Value.map [(.u64 1, .bool true), (.string "f", .bool false)]).Same w') ↔
      Keepable 1024 (fun _ => "") [(.integer 1, .boolean true), (.string [102], .boolean false)] :=
  table_kept_iff 62 rfl

/-- `{true, [1.5] = true}`: with the unsupported key last, the entry of the array is lost, and with
it first, it is not. -/
theorem unsupported_key_empties :
    luaToValue 1024 (fun _ => "") (.table [(.integer 1, .boolean true),
        (.number 0x3FF8000000000000, .boolean true)]) .integer = .ok (.map []) ∧
      luaToValue 1024 (fun _ => "") (.table [(.number 0x3FF8000000000000, .boolean true),
        (.integer 1, .boolean true)]) .integer = .ok (.map [(.u64 1, .bool true)]) ∧
      ¬ Keeps (fun _ => "") (luaToValueInner 1024 (fun _ => "") 62) [(.integer 1, .boolean true),
        (.number 0x3FF8000000000000, .boolean true)] (.map []) := by
  refine ⟨rfl, rfl, fun keeps => ?_⟩
  have lost := keeps.length_eq
  exact absurd lost (by decide)

end Kept

end Wrkr.ValueUtil
