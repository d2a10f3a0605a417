import Wrkr.Lua.TableResult

/-!
# Lua values in the shared store

What `lua_to_value` makes of a value with integer, boolean and UTF-8 string keys is given back by
`value_to_lua`, up to the order of the entries (`build_of_same`). An index that the array has no
room for makes the conversion panic in some order of enumeration, and nothing else does
(`survives_iff`).
-/
namespace Wrkr.ValueUtil

open Wrkr.Lib Wrkr.Lua

/-! ### Values of the store -/

/-- A key that survives: an integer, a boolean, or text. -/
def PlainKey : LuaValue → Prop
  | .integer _ | .boolean _ => True
  | .string bytes => (toStr bytes).isSome
  | _ => False

/-- Nil, booleans, numbers, UTF-8 strings, and tables of them, as `pairs` can enumerate them. -/
inductive Plain : LuaValue → Prop
  | nil : Plain .nil
  | boolean (b : Bool) : Plain (.boolean b)
  | integer (i : Int64) : Plain (.integer i)
  | number (bits : UInt64) : Plain (.number bits)
  | string {bytes : List UInt8} (utf8 : (toStr bytes).isSome) : Plain (.string bytes)
  | table {es : List (LuaValue × LuaValue)} (distinct : (es.map Prod.fst).Nodup)
      (keys : ∀ e ∈ es, PlainKey e.1) (present : ∀ e ∈ es, e.2 ≠ .nil)
      (values : ∀ e ∈ es, Plain e.2) : Plain (.table es)

/-- The nesting fits into `n` levels. -/
def Fits : Nat → LuaValue → Prop
  | 0, _ => False
  | n + 1, .table es => ∀ e ∈ es, Fits n e.2
  | _ + 1, _ => True

/-- A table in it has positive integer keys only, and holes. -/
inductive Sparse : LuaValue → Prop
  | here {es : List (LuaValue × LuaValue)} (keys : ∀ e ∈ es, positive e.1) (holes : Holes es) :
      Sparse (.table es)
  | inside {es : List (LuaValue × LuaValue)} {e : LuaValue × LuaValue} (member : e ∈ es)
      (sparse : Sparse e.2) : Sparse (.table es)

/-- Within the depth limit, a table in it has an index above `capacity`, with a value that is
neither too deep nor sparse. -/
def Oversized (capacity : Nat) : Nat → LuaValue → Prop
  | n + 1, .table es => ∃ e ∈ es, Oversized capacity n e.2 ∨
      Fits n e.2 ∧ ¬Sparse e.2 ∧ ∃ i, e.1 = .integer i ∧ capacity < i.toInt.toNat
  | _, _ => False

/-- Hash maps hold one entry for a key. -/
inductive Hashed : Value → Prop
  | atom {w : Value} (atom : tableKind w = none) : Hashed w
  | array {items : List Value} (values : ∀ w ∈ items, Hashed w) : Hashed (.array items)
  | object {fields : List (String × Value)} (distinct : (fields.map Prod.fst).Nodup)
      (values : ∀ e ∈ fields, Hashed e.2) : Hashed (.object fields)
  | map {entries : List (MapKey × Value)} (distinct : (entries.map Prod.fst).Nodup)
      (values : ∀ e ∈ entries, Hashed e.2) : Hashed (.map entries)

/-- The errors that a script can expect. -/
def Explained (n : Nat) (v : LuaValue) (message : String) : Prop :=
  message = "value too deep" ∧ ¬Fits n v ∨
    message = "sparse arrays are not supported" ∧ Sparse v

/-- Whatever the order in which `pairs` enumerates the tables of `v`, its conversion fails with an
error that a script can expect, or whatever the order, it gives the same value, from which
`value_to_lua` builds a value equal to `v`. -/
def Survives (capacity : Nat) (lossy : List UInt8 → String) (v : LuaValue) : Prop :=
  (∀ v', Plain v' → v.Same v' →
    ∃ message, luaToValue capacity lossy v' .integer = .error (.error message) ∧
      Explained 32 v message) ∨
  ∃ w : Value, ∀ v', Plain v' → v.Same v' →
    ∃ w', luaToValue capacity lossy v' .integer = .ok w' ∧ w.Same w' ∧
      ∀ w'', Hashed w'' → w'.Same w'' →
        ∃ u, valueToLua w'' .integer = .ok u ∧ v.Same u

/-! ### Equal values -/

section Congr

variable {v v' : LuaValue}

/-- The depth does not depend on the order. -/
theorem fits_congr {n : Nat} (same : v.Same v') (fits : Fits n v) : Fits n v' := by
  induction n generalizing v v' with
  | zero => exact fits
  | succ n ih =>
    cases same with
    | refl => exact fits
    | table keys values =>
      intro e member
      obtain ⟨x, member'⟩ := exists_value ((keys e.1).mpr (List.mem_map_of_mem member))
      exact ih (values _ x e.2 member' member) (fits _ member')

/-- Nor do holes. -/
theorem sparse_congr (same : v.Same v') (sparse : Sparse v) : Sparse v' := by
  induction sparse generalizing v' with
  | here positives holes =>
    cases same with
    | refl => exact .here positives holes
    | table keys _ =>
      exact .here ((forall_key_congr keys fun k => positive k).mp positives)
        ((holes_congr keys).mp holes)
  | inside member sparse ih =>
    cases same with
    | refl => exact .inside member sparse
    | table keys values =>
      obtain ⟨x, member'⟩ := exists_value ((keys _).mp (List.mem_map_of_mem member))
      exact .inside member' (ih (values _ _ x member member'))

/-- Nor does the size of an index. -/
theorem oversized_congr {capacity n : Nat} (same : v.Same v') (large : Oversized capacity n v) :
    Oversized capacity n v' := by
  induction n generalizing v v' with
  | zero => cases v <;> exact large.elim
  | succ n ih =>
    cases same with
    | refl => exact large
    | table keys values =>
      obtain ⟨e, member, large⟩ := large
      obtain ⟨x, member'⟩ := exists_value ((keys e.1).mp (List.mem_map_of_mem member))
      -- the entry with the same key has a value of the same depth
      have equal := values _ e.2 x member member'
      refine ⟨_, member', ?_⟩
      rcases large with inside | ⟨fits, dense, index⟩
      · exact .inl (ih equal inside)
      · exact .inr ⟨fits_congr equal fits, fun sparse => dense (sparse_congr equal.symm sparse),
          index⟩

theorem explained_congr {n : Nat} {message : String} (same : v.Same v')
    (explained : Explained n v message) : Explained n v' message := by
  rcases explained with ⟨here, deep⟩ | ⟨here, sparse⟩
  · exact .inl ⟨here, fun fits => deep (fits_congr same.symm fits)⟩
  · exact .inr ⟨here, sparse_congr same sparse⟩

/-- What explains the error of a value in a table explains that of the table. -/
theorem explained_table {n : Nat} {message : String} {es : List (LuaValue × LuaValue)}
    {e : LuaValue × LuaValue} (member : e ∈ es) (explained : Explained n e.2 message) :
    Explained (n + 1) (.table es) message := by
  rcases explained with ⟨here, deep⟩ | ⟨here, sparse⟩
  · exact .inl ⟨here, fun fits => deep (fits e member)⟩
  · exact .inr ⟨here, .inside member sparse⟩

end Congr

/-! ### Keys in both directions -/

section Keys

variable {lossy : List UInt8 → String}

theorem toInt64_toUInt64 (i : Int64) : i.toUInt64.toInt64 = i := rfl

/-- A key of a map is read back as the key that was written. -/
theorem mapKey_of_plain (lossy : List UInt8 → String) {k : LuaValue} (plain : PlainKey k) :
    ∃ key, mapKey lossy k = some key ∧ keyToLua .integer key = k := by
  cases k with
  | integer i =>
    by_cases nonneg : 0 ≤ i
    · refine ⟨.u64 i.toUInt64, by rw [mapKey, if_pos nonneg], ?_⟩
      -- what was a non-negative `i64` is one again
      have small : i.toUInt64 ≤ Int64.maxValue.toUInt64 := by
        rw [UInt64.le_iff_toNat_le, Int64.toNat_toUInt64_of_le nonneg]
        exact Nat.le_of_lt_succ (toNat_lt i)
      rw [keyToLua, u64ToLua, if_pos small, toInt64_toUInt64]
    · exact ⟨.i64 i, by rw [mapKey, if_neg nonneg], rfl⟩
  | boolean b => exact ⟨.bool b, rfl, rfl⟩
  | string bytes =>
    obtain ⟨s, decoded⟩ := Option.isSome_iff_exists.mp plain
    refine ⟨.string s, ?_, ?_⟩
    · rw [mapKey, text, decoded]
    · rw [keyToLua, asBytes_of_toStr decoded]
  | nil | number _ | table _ | other => exact plain.elim

theorem keyToLua_of_mapKey {k : LuaValue} (plain : PlainKey k) {key : MapKey}
    (found : mapKey lossy k = some key) : keyToLua .integer key = k := by
  obtain ⟨key', found', back⟩ := mapKey_of_plain lossy plain
  cases found.symm.trans found'
  exact back

variable {ν : Type} {es : List (LuaValue × ν)}

/-- In a table with plain keys, an entry is stored under the key that is read back as its own. -/
theorem mem_supported_of_plain (plain : ∀ e ∈ es, PlainKey e.1) {key : MapKey} {v : ν}
    (found : (key, v) ∈ supported lossy es) :
    (keyToLua .integer key, v) ∈ es ∧ mapKey lossy (keyToLua .integer key) = some key := by
  obtain ⟨k, member, found⟩ := mem_supported.mp found
  rw [keyToLua_of_mapKey (plain _ member) found]
  exact ⟨member, found⟩

/-- Plain keys stay distinct. -/
theorem supported_nodup (lossy : List UInt8 → String) (plain : ∀ e ∈ es, PlainKey e.1)
    (distinct : (es.map Prod.fst).Nodup) :
    ((supported lossy es).map Prod.fst).Nodup := by
  induction es with
  | nil => exact List.nodup_nil
  | cons e rest ih =>
    rw [List.map_cons, List.nodup_cons] at distinct
    rw [List.forall_mem_cons] at plain
    obtain ⟨key, found, back⟩ := mapKey_of_plain lossy plain.1
    have split : supported lossy (e :: rest) = (key, e.2) :: supported lossy rest := by
      simp [supported, found]
    rw [split, List.map_cons, List.nodup_cons]
    refine ⟨fun present => distinct.1 ?_, ih plain.2 distinct.2⟩
    obtain ⟨⟨key', v⟩, member, same⟩ := List.mem_map.mp present
    cases same
    have inside := (mem_supported_of_plain plain.2 member).1
    -- equal keys are read back as equal keys
    rw [back] at inside
    exact List.mem_map.mpr ⟨_, inside, rfl⟩

/-- A key that is stored is that of a key in the table, and comes back as it. -/
theorem key_supported_iff (plain : ∀ e ∈ es, PlainKey e.1) {key : MapKey} :
    key ∈ (supported lossy es).map Prod.fst ↔
      keyToLua .integer key ∈ es.map Prod.fst ∧
        mapKey lossy (keyToLua .integer key) = some key := by
  rw [List.mem_map, List.mem_map]
  constructor
  · rintro ⟨⟨key, v⟩, member, rfl⟩
    obtain ⟨inside, found⟩ := mem_supported_of_plain plain member
    exact ⟨⟨_, inside, rfl⟩, found⟩
  · rintro ⟨⟨⟨k, v⟩, member, here⟩, found⟩
    cases here
    exact ⟨_, mem_supported.mpr ⟨_, member, found⟩, rfl⟩

theorem agree_supported (lossy : List UInt8 → String) {R : ν → ν → Prop} {es' : List (LuaValue × ν)}
    (plain : ∀ e ∈ es, PlainKey e.1) (plain' : ∀ e ∈ es', PlainKey e.1) (agree : Agree R es es') :
    Agree R (supported lossy es) (supported lossy es') := by
  constructor
  · intro key
    rw [key_supported_iff plain, key_supported_iff plain', agree.keys]
  · intro key v v' left right
    exact agree.values (mem_supported_of_plain plain left).1 (mem_supported_of_plain plain' right).1

theorem not_emptied (plain : ∀ e ∈ es, PlainKey e.1) : ¬Emptied lossy es := by
  rintro ⟨-, ⟨e, member, unsupported⟩, -⟩
  obtain ⟨key, found, -⟩ := mapKey_of_plain lossy (plain e member)
  rw [found] at unsupported
  cases unsupported

end Keys

/-! ### The conversion to a value -/

section ToValue

variable {capacity : Nat} {lossy : List UInt8 → String} {v v' : LuaValue} {w w' : Value}
  {es : List (LuaValue × LuaValue)} {n : Nat}

theorem positive_of_kindOf {ν : Type} {es : List (LuaValue × ν)} (kind : kindOf es = .array) :
    ∀ e ∈ es, positive e.1 := by
  unfold kindOf at kind
  split at kind
  next all => exact List.all_eq_true.mp all
  · split at kind <;> cases kind

/-- Two levels of the depth limit are one level of tables. -/
theorem toValue_table (capacity : Nat) (lossy : List UInt8 → String) (n : Nat)
    (es : List (LuaValue × LuaValue)) : luaToValueInner capacity lossy (2 * (n + 1)) (.table es) =
      collectPairs capacity lossy (luaToValueInner capacity lossy (2 * n)) es := rfl

/-- A conversion within bounds ends with a value, or with an error that the value explains. -/
theorem toValue_cases (lossy : List UInt8 → String) (plain : Plain v)
    (bounded : ¬Oversized capacity n v) :
    (Fits n v ∧ ¬Sparse v ∧ ∃ w, luaToValueInner capacity lossy (2 * n) v = .ok w) ∨
    ∃ message, luaToValueInner capacity lossy (2 * n) v = .error (.error message) ∧
      Explained n v message := by
  induction n generalizing v with
  | zero =>
    refine .inr ⟨"value too deep", ?_, .inl ⟨rfl, fun fits => by cases v <;> exact fits.elim⟩⟩
    cases v <;> rfl
  | succ n ih =>
    cases plain with
    | nil | boolean | integer | number | string =>
      exact .inl ⟨trivial, (fun sparse => by cases sparse), _, rfl⟩
    | @table es distinct keys present values =>
      have each (e) (member : e ∈ es) := ih (values e member) fun large =>
        bounded ⟨e, member, .inl large⟩
      have nodup : ((supported lossy (converted (luaToValueInner capacity lossy (2 * n)) es)).map
          Prod.fst).Nodup := by
        rw [keys_supported_converted]
        exact supported_nodup lossy keys distinct
      have sameKeys (k : LuaValue) :
          k ∈ (converted (luaToValueInner capacity lossy (2 * n)) es).map Prod.fst ↔
            k ∈ es.map Prod.fst := by
        rw [keys_converted]
      -- an index without room would be an oversized value
      have room (e) (member : e ∈ es) (v)
          (converts : luaToValueInner capacity lossy (2 * n) e.2 = .ok v) (i)
          (index : e.1 = .integer i) : i.toInt.toNat ≤ capacity := by
        by_contra large
        rcases each e member with ⟨fits, dense, -⟩ | ⟨_, error, -⟩
        · exact bounded ⟨e, member, .inr ⟨fits, dense, i, index, by omega⟩⟩
        · cases converts.symm.trans error
      rw [toValue_table]
      rcases collectPairs_cases nodup room with ⟨w, ok, collected⟩ | ⟨sparse, kind, holes⟩ |
        ⟨e, member, failure, fails, error⟩
      · -- every value was converted, so none is too deep or sparse
        have good (e) (member : e ∈ es) : Fits n e.2 ∧ ¬Sparse e.2 := by
          rcases each e member with ⟨fits, dense, -⟩ | ⟨_, error, -⟩
          · exact ⟨fits, dense⟩
          · obtain ⟨_, converts⟩ := (collectPairs_ok ok).2 e member
            cases converts.symm.trans error
        refine .inl ⟨fun e member => (good e member).1, fun sparse => ?_, w, ok⟩
        cases sparse with
        | here positives holes =>
          have all := (forall_key_congr sameKeys fun k => positive k).mpr positives
          exact collected.full (kindOf_eq_array all) ((holes_congr sameKeys).mpr holes)
        | inside member sparse => exact (good _ member).2 sparse
      · refine .inr ⟨_, sparse, .inr ⟨rfl, .here ?_ ((holes_congr sameKeys).mp holes)⟩⟩
        exact (forall_key_congr sameKeys fun k => positive k).mp (positive_of_kindOf kind)
      -- the first value that fails explains the failure of the table
      · rcases each e member with ⟨-, -, _, converts⟩ | ⟨message, error', explained⟩
        · cases converts.symm.trans fails
        · cases error'.symm.trans fails
          exact .inr ⟨message, error, explained_table member explained⟩

/-- `x` is the value of `v`, which is the value of an entry. -/
structure Converts (capacity : Nat) (lossy : List UInt8 → String) (n : Nat) (x : Value)
    (v : LuaValue) : Prop where
  ok : luaToValueInner capacity lossy (2 * n) v = .ok x
  plain : Plain v
  present : v ≠ .nil
  bounded : ¬Oversized capacity n v

/-- The value of a plain table has the kind that the keys say, and the value of each entry under
its key. -/
theorem table_value (plain : Plain (.table es)) (bounded : ¬Oversized capacity (n + 1) (.table es))
    (ok : luaToValueInner capacity lossy (2 * (n + 1)) (.table es) = .ok w) :
    WellFormed w ∧ tableKind w = some (kindOf es) ∧
      Agree (Converts capacity lossy n) (tableEntries w) (supported lossy es) := by
  rw [toValue_table] at ok
  cases plain with
  | table distinct keys present values =>
    obtain ⟨good, converts⟩ := collectPairs_ok ok
    have nodup := supported_nodup lossy keys distinct
    have keepable : Keepable capacity lossy es := by
      refine ⟨nodup, fun e member i index => ?_, not_emptied keys⟩
      by_contra large
      have inner : ¬Oversized capacity n e.2 := fun large => bounded ⟨e, member, .inl large⟩
      rcases toValue_cases lossy (values e member) inner with
        ⟨fits, dense, -⟩ | ⟨_, error, -⟩
      · exact bounded ⟨e, member, .inr ⟨fits, dense, i, index, by omega⟩⟩
      · obtain ⟨_, converted⟩ := converts e member
        cases converted.symm.trans error
    rcases collected_of_keepable keepable converts with ⟨w', ok', kind, -, entries⟩ | ⟨_, error, -⟩
    · cases ok.symm.trans ok'
      refine ⟨good, kind, ?_, ?_⟩
      · intro key
        rw [(entries.map _).mem_iff, keys_supported_converted]
      · intro key x v left right
        -- the entry of `w` is the converted entry of the table
        rw [entries.mem_iff, supported_converted] at left
        obtain ⟨⟨key', v'⟩, member, here⟩ := List.mem_map.mp left
        cases here
        cases eq_of_mem_of_nodup nodup member right
        have inside := (mem_supported_of_plain keys member).1
        obtain ⟨y, converted⟩ := converts _ inside
        refine ⟨?_, values _ inside, present _ inside, fun large => ?_⟩
        · dsimp only at converted ⊢
          rw [converted]
          rfl
        · exact bounded ⟨_, inside, .inl large⟩
    · cases ok.symm.trans error

/-- The order of enumeration does not change the value. -/
theorem toValue_same (plain : Plain v) (plain' : Plain v') (same : v.Same v')
    (bounded : ¬Oversized capacity n v) (ok : luaToValueInner capacity lossy (2 * n) v = .ok w)
    (ok' : luaToValueInner capacity lossy (2 * n) v' = .ok w') : w.Same w' := by
  induction n generalizing v v' w w' with
  | zero => cases v <;> cases ok
  | succ n ih =>
    have bounded' : ¬Oversized capacity (n + 1) v' := fun large =>
      bounded (oversized_congr same.symm large)
    cases same with
    | refl =>
      cases ok.symm.trans ok'
      exact .refl w
    | table keys values =>
      obtain ⟨good, kind, entries⟩ := table_value plain bounded ok
      obtain ⟨good', kind', entries'⟩ := table_value plain' bounded' ok'
      rw [← kindOf_congr keys] at kind'
      refine same_of_agree good good' kind kind' ?_
      have plainKeys (es) (plain : Plain (.table es)) : ∀ e ∈ es, PlainKey e.1 := by
        cases plain
        assumption
      have between := agree_supported lossy (plainKeys _ plain) (plainKeys _ plain')
        ⟨keys, values _ _ _⟩
      -- from the entries of `w` to those of the two tables, and on to the entries of `w'`
      refine ((entries.trans between).trans (entries'.symm fun _ _ => id)).mono ?_
      rintro k x x' - - ⟨v', ⟨v, converts, same⟩, converts'⟩
      exact ih converts.plain converts'.plain same converts.bounded converts.ok converts'.ok

end ToValue

/-! ### The way back -/

section ToLua

variable {w w' : Value}

/-- The same table values have the same kind and agree in their entries. -/
theorem agree_of_same (good : WellFormed w) {kind : Kind} (isKind : tableKind w = some kind)
    (same : w.Same w') : tableKind w' = some kind ∧
      (∀ items, w' = .array items → items.length < 2 ^ 63) ∧
      Agree Value.Same (tableEntries w) (tableEntries w') := by
  cases same with
  | refl => exact ⟨isKind, good.small, .of_perm good.nodup (.refl _) .refl⟩
  | @array xs ys length items =>
    have small := good.small xs rfl
    refine ⟨isKind, ?_, fun key => ?_, fun left right => ?_⟩
    · rintro _ ⟨⟩
      exact length ▸ small
    · rw [key_array, key_array, length]
    · obtain ⟨n, here, rfl⟩ := mem_array.mp left
      obtain ⟨below, -⟩ := List.getElem?_eq_some_iff.mp here
      -- the entry with the same key is the item at the same index
      have there := (mem_array_index (length ▸ small) (by omega)).mp right
      exact items n _ _ here there
  | object keys values =>
    refine ⟨isKind, (fun _ here => by cases here), ?_⟩
    exact Agree.mapKeys (f := MapKey.string) ⟨keys, values _ _ _⟩ fun _ _ => MapKey.string.inj
  | map keys values => exact ⟨isKind, (fun _ here => by cases here), keys, values _ _ _⟩

/-- A value whose maps have distinct keys is well formed. -/
theorem wellFormed_of_hashed (hashed : Hashed w) {kind : Kind} (isKind : tableKind w = some kind)
    (small : ∀ items, w = .array items → items.length < 2 ^ 63) :
    WellFormed w ∧ ∀ e ∈ tableEntries w, Hashed e.2 := by
  cases hashed with
  | atom atom => cases atom.symm.trans isKind
  | array values =>
    refine ⟨wellFormed_array (small _ rfl), fun e member => ?_⟩
    obtain ⟨n, here, -⟩ := mem_array.mp member
    exact values _ (List.mem_of_getElem? here)
  | object distinct values =>
    refine ⟨wellFormed_object distinct, fun e member => ?_⟩
    obtain ⟨field, inside, rfl⟩ := List.mem_map.mp member
    exact values field inside
  | map distinct values => exact ⟨wellFormed_map distinct, values⟩

theorem eq_of_rawEq {k k' : LuaValue} (same : rawEq k k') : k = k' := by
  unfold rawEq at same
  split at same <;> simp_all

/-- A set under a new key appends an entry. -/
theorem rawSet_of_absent {t : List (LuaValue × LuaValue)} {k v : LuaValue}
    (absent : k ∉ t.map Prod.fst) (present : v ≠ .nil) : rawSet t k v = t ++ [(k, v)] := by
  have none : (t.any fun e => rawEq e.1 k) = false := by
    rw [List.any_eq_false]
    intro e member same
    exact absent (eq_of_rawEq same ▸ List.mem_map_of_mem member)
  unfold rawSet
  split
  · exact absurd rfl present
  · rw [none]
    rfl

/-- A fresh table gets all entries with new keys and values that are not nil. -/
theorem fillTable_eq {convert : Value → Except Failure LuaValue} {entries : List (LuaValue × Value)}
    (distinct : (entries.map Prod.fst).Nodup)
    (values : ∀ e ∈ entries, ∃ v, convert e.2 = .ok v ∧ v ≠ .nil) :
    fillTable convert entries =
      .ok (.table (entries.map fun e => (e.1, (convert e.2).toOption.getD .nil))) := by
  -- the induction needs a table that is partly filled
  have loop (t : List (LuaValue × LuaValue))
      (apart : (t.map Prod.fst ++ entries.map Prod.fst).Nodup) :
      entries.foldlM (fun t e => do
          let v ← convert e.2
          return rawSet t e.1 v) t =
        (.ok (t ++ entries.map fun e => (e.1, (convert e.2).toOption.getD .nil)) :
          Except Failure (List (LuaValue × LuaValue))) := by
    clear distinct
    induction entries generalizing t with
    | nil => simp [pure, Except.pure]
    | cons e rest ih =>
      obtain ⟨⟨v, converts, present⟩, later⟩ := List.forall_mem_cons.mp values
      have absent : e.1 ∉ t.map Prod.fst := by
        intro member
        exact (List.nodup_append.mp apart).2.2 _ member _ (by simp) rfl
      rw [List.foldlM_cons, converts]
      change rest.foldlM _ (rawSet t e.1 v) = _
      rw [rawSet_of_absent absent present, ih later _ (by simpa using apart)]
      simp [converts, Except.toOption]
  rw [fillTable, loop [] distinct]
  rfl

theorem keyToLua_index {n : Nat} (small : n < 2 ^ 63) :
    keyToLua .integer (.u64 (UInt64.ofNat n)) = .integer (Int64.ofNat n) := by
  have inside : UInt64.ofNat n ≤ Int64.maxValue.toUInt64 := by
    rw [UInt64.le_iff_toNat_le, UInt64.toNat_ofNat', Nat.mod_eq_of_lt (by omega)]
    exact Nat.le_of_lt_succ small
  rw [keyToLua, u64ToLua, if_pos inside]
  rfl

/-- The slots of an array, numbered as Lua does it. -/
theorem slots_array_keys (items : List Value) {start : Nat}
    (small : start + items.length < 2 ^ 63) :
    (slots (items.map some) start).map (fun e => (keyToLua .integer e.1, e.2)) =
      (items.zipIdx start).map fun (item, idx) => (.integer (Int64.ofNat (idx + 1)), item) := by
  induction items generalizing start with
  | nil => rfl
  | cons item rest ih =>
    rw [List.length_cons] at small
    rw [List.map_cons, slots_cons, List.zipIdx_cons, List.map_cons, ← ih (by omega)]
    simp only [Option.map_some, Option.toList_some, List.singleton_append, List.map_cons]
    rw [keyToLua_index (by omega)]

/-- `value_to_lua` on a table value sets its entries under the keys that are read back. -/
theorem build_table (depth : Nat) {kind : Kind} (isKind : tableKind w = some kind)
    (small : ∀ items, w = .array items → items.length < 2 ^ 63) :
    build .integer (depth + 1) w = fillTable (build .integer depth)
      ((tableEntries w).map fun e => (keyToLua .integer e.1, e.2)) := by
  cases w with
  | array items =>
    rw [tableEntries, slots_array_keys items (by simpa using small items rfl)]
    rfl
  | object fields =>
    rw [build, tableEntries, List.map_map]
    rfl
  | map entries => rfl
  | _ => cases isKind

/-- Keys that are read back as themselves stay distinct. -/
theorem nodup_keyToLua {lossy : List UInt8 → String} {entries : List (MapKey × Value)}
    (distinct : (entries.map Prod.fst).Nodup)
    (back : ∀ key ∈ entries.map Prod.fst, mapKey lossy (keyToLua .integer key) = some key) :
    ((entries.map fun e => (keyToLua .integer e.1, e.2)).map Prod.fst).Nodup := by
  have keysOf : (entries.map fun e => (keyToLua .integer e.1, e.2)).map Prod.fst =
      (entries.map Prod.fst).map (keyToLua .integer) := by
    simp [Function.comp_def]
  rw [keysOf]
  refine distinct.map_on fun key member key' member' equal => ?_
  have found := back key member
  rw [equal, back key' member'] at found
  exact (Option.some.inj found).symm

/-- `value_to_lua` gives `v` back from `x`, as the value of an entry. -/
def Rebuilds (depth : Nat) (x : Value) (v : LuaValue) : Prop :=
  ∃ u, build .integer depth x = .ok u ∧ v.Same u ∧ u ≠ .nil

/-- When the values of the entries come back, the table does. -/
theorem build_of_agree {lossy : List UInt8 → String} {es : List (LuaValue × LuaValue)} {kind : Kind}
    {depth : Nat} (keys : ∀ e ∈ es, PlainKey e.1) (isKind : tableKind w = some kind)
    (good : WellFormed w) (agree : Agree (Rebuilds depth) (tableEntries w) (supported lossy es)) :
    ∃ u, build .integer (depth + 1) w = .ok u ∧ (LuaValue.table es).Same u := by
  have isKey {key : MapKey} (member : key ∈ (tableEntries w).map Prod.fst) :=
    (key_supported_iff keys).mp ((agree.keys key).mp member)
  have distinct := nodup_keyToLua good.nodup fun key member => (isKey member).2
  rw [build_table depth isKind good.small, fillTable_eq distinct ?_]
  · refine ⟨_, rfl, .table (fun k => ?_) fun k v u left right => ?_⟩
    · rw [List.map_map, List.map_map, List.mem_map, List.mem_map]
      constructor
      · rintro ⟨⟨k, v⟩, member, rfl⟩
        obtain ⟨key, found, here⟩ := mapKey_of_plain lossy (keys _ member)
        obtain ⟨x, left, -⟩ := agree.exists_left (mem_supported.mpr ⟨_, member, found⟩)
        exact ⟨_, left, here⟩
      · rintro ⟨⟨key, x⟩, member, rfl⟩
        exact List.mem_map.mp (isKey (List.mem_map_of_mem member)).1
    · rw [List.map_map] at right
      obtain ⟨⟨key, x⟩, member, here⟩ := List.mem_map.mp right
      cases here
      have found := (isKey (List.mem_map_of_mem member)).2
      obtain ⟨u, done, same, -⟩ := agree.values member (mem_supported.mpr ⟨_, left, found⟩)
      simp only [done]
      exact same
  -- no value is nil, so setting it keeps its key in the table
  · intro e member
    obtain ⟨⟨key, x⟩, inside, rfl⟩ := List.mem_map.mp member
    obtain ⟨v, -, u, done, -, present⟩ := agree.exists_right inside
    exact ⟨u, done, present⟩

/-- What a value was read from comes back, whatever the iteration order of its hash maps. -/
theorem build_of_same {capacity : Nat} {lossy : List UInt8 → String} {v : LuaValue} {n : Nat}
    (plain : Plain v) (bounded : ¬Oversized capacity n v)
    (ok : luaToValueInner capacity lossy (2 * n) v = .ok w) (hashed : Hashed w')
    (same : w.Same w') (depth : Nat) (deep : n ≤ depth) :
    ∃ u, build .integer depth w' = .ok u ∧ v.Same u := by
  induction n generalizing v w w' depth with
  | zero => cases v <;> cases ok
  | succ n ih =>
    obtain ⟨depth, rfl⟩ : ∃ d, depth = d + 1 := ⟨depth - 1, by omega⟩
    cases plain with
    | nil | boolean | integer | number =>
      cases ok
      cases same
      exact ⟨_, rfl, .refl _⟩
    -- a string that is text comes back byte for byte
    | string utf8 =>
      obtain ⟨s, decoded⟩ := Option.isSome_iff_exists.mp utf8
      cases ok
      cases same
      refine ⟨_, rfl, ?_⟩
      rw [text, decoded]
      dsimp only
      rw [asBytes_of_toStr decoded]
      exact .refl _
    | @table es distinct keys present values =>
      obtain ⟨good, kind, entries⟩ := table_value (.table distinct keys present values) bounded ok
      obtain ⟨kind', small', agree⟩ := agree_of_same good kind same
      obtain ⟨good', hashes⟩ := wellFormed_of_hashed hashed kind' small'
      -- the values come back by induction, and the keys do as they are plain
      refine build_of_agree keys kind' good'
        (((agree.symm fun _ _ => id).trans entries).mono fun key x' v left _ => ?_)
      rintro ⟨x, equal, converts⟩
      obtain ⟨u, done, same⟩ := ih converts.plain converts.bounded converts.ok (hashes _ left)
        equal depth (Nat.le_of_succ_le_succ deep)
      refine ⟨u, done, same, fun nil => converts.present ?_⟩
      rw [nil] at same
      cases same
      rfl

end ToLua

/-! ### Panics -/

section Panics

variable {capacity : Nat} {lossy : List UInt8 → String} {v : LuaValue} {n : Nat}

theorem not_nil_of_oversized (large : Oversized capacity n v) : v ≠ .nil := by
  rintro rfl
  cases n <;> exact large

/-- An entry moved to the front, with an equal value. -/
theorem front_entry {k x x' : LuaValue} {before after : List (LuaValue × LuaValue)}
    (plain : Plain (.table (before ++ (k, x) :: after))) (plain' : Plain x') (same : x.Same x')
    (present : x' ≠ .nil) :
    Plain (.table ((k, x') :: (before ++ after))) ∧
      (LuaValue.table (before ++ (k, x) :: after)).Same
        (.table ((k, x') :: (before ++ after))) := by
  cases plain with
  | table distinct keys presents values =>
    have perm : ((k, x) :: (before ++ after)).Perm (before ++ (k, x) :: after) :=
      List.perm_middle.symm
    have distinct' := (perm.map Prod.fst).nodup_iff.mpr distinct
    rw [List.map_cons, List.nodup_cons] at distinct'
    have inRest {e} (member : e ∈ before ++ after) : e ∈ before ++ (k, x) :: after :=
      perm.mem_iff.mp (List.mem_cons_of_mem _ member)
    constructor
    · refine .table ?_ ?_ ?_ ?_
      · rw [List.map_cons, List.nodup_cons]
        exact distinct'
      · rw [List.forall_mem_cons]
        exact ⟨keys (k, x) (by simp), fun e member => keys e (inRest member)⟩
      · rw [List.forall_mem_cons]
        exact ⟨present, fun e member => presents e (inRest member)⟩
      · rw [List.forall_mem_cons]
        exact ⟨plain', fun e member => values e (inRest member)⟩
    · refine .table (fun key => ?_) fun key v v' left right => ?_
      · rw [← (perm.map Prod.fst).mem_iff]
        rfl
      -- at the front the two values are related, at any other place they are the same
      · rw [← perm.mem_iff] at left
        rcases List.mem_cons.mp left with first | left <;>
          rcases List.mem_cons.mp right with second | right
        · cases first
          cases second
          exact same
        · cases first
          exact absurd (List.mem_map_of_mem right) distinct'.1
        · cases second
          exact absurd (List.mem_map_of_mem left) distinct'.1
        · rw [eq_of_mem_of_nodup distinct (inRest left) (inRest right)]
          exact .refl _

/-- With an index too large for the array, some order of enumeration panics. -/
theorem panics_of_oversized (lossy : List UInt8 → String) (plain : Plain v)
    (large : Oversized capacity n v) :
    ∃ v', Plain v' ∧ v.Same v' ∧
      luaToValueInner capacity lossy (2 * n) v' = .error .panic := by
  induction n generalizing v with
  | zero => cases v <;> exact large.elim
  | succ n ih =>
    cases v with
    | table es =>
      obtain ⟨⟨k, x⟩, member, large⟩ := large
      have plainValue : Plain x := by
        cases plain with
        | table _ _ _ values => exact values _ member
      have notNil : x ≠ .nil := by
        cases plain with
        | table _ _ present _ => exact present _ member
      obtain ⟨before, after, rfl⟩ := List.append_of_mem member
      -- the value panics itself, or it is converted and its index does
      by_cases inside : Oversized capacity n x
      · obtain ⟨x', plain', same, panics⟩ := ih plainValue inside
        have present : x' ≠ .nil := not_nil_of_oversized (oversized_congr same inside)
        obtain ⟨whole, equal⟩ := front_entry plain plain' same present
        refine ⟨_, whole, equal, ?_⟩
        rw [toValue_table, collectPairs, List.foldlM_cons, pair_eq, panics]
        rfl
      · rcases large with inside' | ⟨fits, dense, i, index, large⟩
        · exact absurd inside' inside
        · cases index
          obtain ⟨whole, equal⟩ := front_entry plain plainValue (.refl x) notNil
          refine ⟨_, whole, equal, ?_⟩
          rcases toValue_cases lossy plainValue inside with
            ⟨-, -, w, ok⟩ | ⟨_, -, ⟨-, deep⟩ | ⟨-, sparse⟩⟩
          · rw [toValue_table]
            exact collectPairs_panics ok large
          · exact absurd fits deep
          · exact absurd sparse dense
    | _ => exact large.elim

/-- A value with plain keys survives the store exactly when none of its indices is too large. -/
theorem survives_iff (lossy : List UInt8 → String) (plain : Plain v) :
    Survives capacity lossy v ↔ ¬Oversized capacity 32 v := by
  constructor
  · intro survives large
    obtain ⟨v', plain', same, panics⟩ := panics_of_oversized lossy plain large
    change luaToValue capacity lossy v' .integer = _ at panics
    rcases survives with failing | ⟨w, succeeding⟩
    · obtain ⟨message, error, -⟩ := failing v' plain' same
      cases error.symm.trans panics
    · obtain ⟨w', ok, -⟩ := succeeding v' plain' same
      cases ok.symm.trans panics
  · intro bounded
    -- being oversized does not depend on the order of the entries, and neither do depth and holes
    have bounded' {v' : LuaValue} (same : v.Same v') : ¬Oversized capacity 32 v' := fun large =>
      bounded (oversized_congr same.symm large)
    rcases toValue_cases lossy plain bounded with
      ⟨fits, dense, w, ok⟩ | ⟨message, -, explained⟩
    · refine .inr ⟨w, fun v' plain' same => ?_⟩
      rcases toValue_cases lossy plain' (bounded' same) with
        ⟨-, -, w', ok'⟩ | ⟨_, -, ⟨-, deep⟩ | ⟨-, sparse⟩⟩
      · refine ⟨w', ok', toValue_same plain plain' same bounded ok ok', fun w'' hashed equal => ?_⟩
        obtain ⟨u, built, back⟩ := build_of_same plain' (bounded' same) ok' hashed equal 64
          (by decide)
        exact ⟨u, built, same.trans back⟩
      · exact absurd (fits_congr same fits) deep
      · exact absurd (sparse_congr same.symm sparse) dense
    -- in another order another error may come first, but there is one, and the table explains it
    · refine .inl fun v' plain' same => ?_
      rcases toValue_cases lossy plain' (bounded' same) with
        ⟨fits, dense, -⟩ | ⟨message', error, explained'⟩
      · rcases explained with ⟨-, deep⟩ | ⟨-, sparse⟩
        · exact absurd (fits_congr same.symm fits) deep
        · exact absurd (sparse_congr same sparse) dense
      · exact ⟨message', error, explained_congr same.symm explained'⟩

/-- A table in a table, with an index, a key and a boolean. -/
theorem survives_nested :
    Survives 1024 (fun _ => "") (.table [(.integer 1, .boolean true), (.string [102], .table [])]) ↔
      ¬Oversized 1024 32 (.table [(.integer 1, .boolean true), (.string [102], .table [])]) :=
  survives_iff _ (by
    refine .table (by simp) ?_ (by simp) ?_
    · simp only [List.forall_mem_cons]
      exact ⟨trivial, rfl, by simp⟩
    · simp only [List.forall_mem_cons]
      exact ⟨.boolean true, .table List.nodup_nil (by simp) (by simp) (by simp), by simp⟩)

/-- `{[1 << 62] = true}`. With 64 bytes for a slot, `isize::MAX` bytes are less than `2 ^ 57`
slots. -/
theorem large_index_panics :
    ¬Survives (2 ^ 57) (fun _ => "") (.table [(.integer 4611686018427387904, .boolean true)]) := by
  have plain : Plain (.table [(.integer 4611686018427387904, .boolean true)]) := by
    refine .table (by simp) ?_ (by simp) ?_
    · simp only [List.forall_mem_cons]
      exact ⟨trivial, by simp⟩
    · simp only [List.forall_mem_cons]
      exact ⟨.boolean true, by simp⟩
  have panics : luaToValue (2 ^ 57) (fun _ => "")
      (.table [(.integer 4611686018427387904, .boolean true)]) .integer = .error .panic := rfl
  -- a panic is neither an error nor a value
  rintro (failing | ⟨w, succeeding⟩)
  · obtain ⟨message, error, -⟩ := failing _ plain (.refl _)
    cases panics.symm.trans error
  · obtain ⟨w', ok, -⟩ := succeeding _ plain (.refl _)
    cases panics.symm.trans ok

end Panics

end Wrkr.ValueUtil
