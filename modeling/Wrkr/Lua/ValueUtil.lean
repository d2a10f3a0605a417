import Wrkr.Lib.HashTable
import Wrkr.Lua.LuaValue
import Wrkr.Value

/-!
# Conversion of Lua values

`lua_to_value` reads a table in one pass: it collects an array, an object or a map, moves what it
has to a map when the keys turn out to be mixed, and decides at the end which of them it returns.
`value_to_lua` builds a fresh table. Both are limited in depth.
-/
namespace Wrkr.ValueUtil

open Wrkr.Lib Wrkr.Lua

inductive Int64Repr
  | integer
  | string
  deriving DecidableEq, Repr

/-- How a conversion fails: with an error for the script, or with a panic of a `Vec` that cannot
grow. -/
inductive Failure
  | error (message : String)
  | panic
  deriving DecidableEq, Repr

/-- `to_str` of a Lua string. -/
def toStr (bytes : List UInt8) : Option String := String.fromUTF8? ⟨bytes.toArray⟩

/-- `create_string` on the bytes of a text. -/
def asBytes (s : String) : List UInt8 := s.toUTF8.data.toList

theorem asBytes_of_toStr {bytes : List UInt8} {s : String} (decoded : toStr bytes = some s) :
    asBytes s = bytes := by
  unfold toStr String.fromUTF8? at decoded
  split at decoded
  · cases decoded
    rfl
  · cases decoded

/-! ### Reading a table -/

/-- The local variables of `table_to_value`. -/
structure TableAcc where
  onlyPosIntKeys : Bool := true
  maxIdx : Nat := 0
  arrayValues : List (Option Value) := []
  sawStringKey : Bool := false
  sawOtherKey : Bool := false
  objectItems : Option (HashTable String Value) := some .empty
  mapItems : Option (HashTable MapKey Value) := none

/-- The filled slots of an array, under the keys that they have in a map. -/
def slots (arrayValues : List (Option Value)) (start : Nat) : List (MapKey × Value) :=
  (arrayValues.zipIdx start).filterMap fun (slot, idx) =>
    slot.map fun v => (.u64 (UInt64.ofNat (idx + 1)), v)

namespace TableAcc

/-- The map that `ensure_map` fills from the object and the array. -/
def migrate (acc : TableAcc) : HashTable MapKey Value :=
  let m := match acc.objectItems with
    | some obj => obj.entries.foldl (fun m e => m.insert (.string e.1) e.2) .empty
    | none => .empty
  (slots acc.arrayValues 0).foldl (fun m e => m.insert e.1 e.2) m

/-- The first key that needs a map moves everything into one. -/
def ensureMap (acc : TableAcc) : TableAcc :=
  match acc.mapItems with
  | some _ => acc
  | none => { acc with
      mapItems := some acc.migrate
      objectItems := none
      arrayValues := acc.arrayValues.map fun _ => none }

/-- The map is there after `ensureMap`. -/
def insertMap (acc : TableAcc) (key : MapKey) (v : Value) : Except Failure TableAcc :=
  let acc := acc.ensureMap
  match acc.mapItems with
  | some m => .ok { acc with mapItems := some (m.insert key v) }
  | none => .error (.error "internal: failed to initialize map")

end TableAcc

section Convert

variable (capacity : Nat) (lossy : List UInt8 → String)

/-- The text of a Lua string, with `to_string_lossy` where it is not UTF-8. -/
def text (bytes : List UInt8) : String :=
  match toStr bytes with
  | some s => s
  | none => lossy bytes

/-- The `match` on the key of a pair. The `resize_with` of the array panics beyond `capacity`, the
largest length that a `Vec<Option<Value>>` can get: it has `isize::MAX` bytes at most. -/
def TableAcc.store (acc : TableAcc) (key : LuaValue) (v : Value) : Except Failure TableAcc :=
  match key with
  | .integer i =>
    let acc := { acc with sawOtherKey := true }
    if 1 ≤ i ∧ acc.onlyPosIntKeys ∧ acc.mapItems.isNone then
      let idx := i.toInt.toNat
      -- `resize_with` before the slot is looked at
      let acc := { acc with maxIdx := max acc.maxIdx idx }
      if acc.arrayValues.length < idx ∧ capacity < idx then .error .panic
      else
        let arrayValues :=
          acc.arrayValues ++ List.replicate (idx - acc.arrayValues.length) none
        match arrayValues[idx - 1]? with
        | some none => .ok { acc with arrayValues := arrayValues.set (idx - 1) (some v) }
        | some (some _) => .error (.error "duplicate array index")
        | none => .error .panic
    else
      let acc := if i < 1 then { acc with onlyPosIntKeys := false } else acc
      acc.insertMap (if 0 ≤ i then .u64 i.toUInt64 else .i64 i) v
  | .string bytes =>
    let acc := { acc with sawStringKey := true, onlyPosIntKeys := false }
    let key := text lossy bytes
    match acc.mapItems with
    | some m => .ok { acc with mapItems := some (m.insert (.string key) v) }
    | none =>
      -- a string after positive integers turns the table into a map
      if !acc.arrayValues.isEmpty then acc.insertMap (.string key) v
      else match acc.objectItems with
        | some obj => .ok { acc with objectItems := some (obj.insert key v) }
        | none => .error (.error "internal: object map missing")
  | .boolean b =>
    let acc := { acc with sawOtherKey := true, onlyPosIntKeys := false }
    acc.insertMap (.bool b) v
  -- an unsupported key: only the flags remember it
  | _ => .ok { acc with sawOtherKey := true, onlyPosIntKeys := false }

/-- An empty slot is a hole. -/
def takeSlot : Option Value → Except Failure Value
  | some v => .ok v
  | none => .error (.error "sparse arrays are not supported")

/-- What `table_to_value` returns after the last pair. -/
def TableAcc.finish (acc : TableAcc) : Except Failure Value :=
  match acc.mapItems with
  | some m => .ok (.map m.entries)
  | none =>
    if acc.onlyPosIntKeys then
      if acc.maxIdx = 0 then .ok (.array [])
      else if acc.arrayValues.length ≠ acc.maxIdx ∨ acc.arrayValues.any Option.isNone then
        .error (.error "sparse arrays are not supported")
      else do
        let out ← acc.arrayValues.mapM takeSlot
        return .array out
    else if acc.sawStringKey && !acc.sawOtherKey then
      .ok (.object (acc.objectItems.getD .empty).entries)
    else .ok (.map [])

/-- One turn of the loop of `table_to_value`. -/
def TableAcc.pair (convert : LuaValue → Except Failure Value) (acc : TableAcc)
    (e : LuaValue × LuaValue) : Except Failure TableAcc := do
  let v ← convert e.2
  acc.store capacity lossy e.1 v

/-- The body of `table_to_value`. The entries come in the order in which `pairs` enumerates them. -/
def collectPairs (convert : LuaValue → Except Failure Value)
    (entries : List (LuaValue × LuaValue)) : Except Failure Value := do
  let acc ← entries.foldlM (TableAcc.pair capacity lossy convert) {}
  acc.finish

mutual

/-- One level of nesting is used up by the table and one by its values. -/
def tableToValue : Nat → List (LuaValue × LuaValue) → Except Failure Value
  | 0, _ => .error (.error "value too deep")
  | depth + 1, entries => collectPairs capacity lossy (luaToValueInner depth) entries

/-- Anything that is neither a scalar nor a table is an error. -/
def luaToValueInner : Nat → LuaValue → Except Failure Value
  | 0, _ => .error (.error "value too deep")
  | depth + 1, value =>
    match value with
    | .nil => .ok .null
    | .boolean v => .ok (.bool v)
    | .integer v => .ok (.i64 v)
    | .number v => .ok (.f64 v)
    | .string bytes => .ok (.string (text lossy bytes))
    | .table entries => tableToValue depth entries
    | .other => .error (.error "unsupported value type")

end

/-- The depth of the code. -/
def luaToValue (value : LuaValue) (_int64Repr : Int64Repr) : Except Failure Value :=
  luaToValueInner capacity lossy 64 value

end Convert

/-! ### Building a table -/

/-- Raw equality of the keys that `value_to_lua` makes. -/
def rawEq : LuaValue → LuaValue → Bool
  | .boolean a, .boolean b => a == b
  | .integer a, .integer b => a == b
  | .string a, .string b => a == b
  | _, _ => false

/-- `Table::set`: an entry with value nil is no entry. -/
def rawSet (t : List (LuaValue × LuaValue)) (key v : LuaValue) : List (LuaValue × LuaValue) :=
  match v with
  | .nil => t.filter fun e => !rawEq e.1 key
  | v =>
    if t.any fun e => rawEq e.1 key then t.map fun e => if rawEq e.1 key then (e.1, v) else e
    else t ++ [(key, v)]

section Build

variable (int64Repr : Int64Repr)

/-- As an integer, or as its text. -/
def i64ToLua (i : Int64) : LuaValue :=
  match int64Repr with
  | .integer => .integer i
  | .string => .string (asBytes (toString i.toInt))

/-- What is too large for an integer is a text in any case. -/
def u64ToLua (u : UInt64) : LuaValue :=
  match int64Repr with
  | .integer =>
    if u ≤ Int64.maxValue.toUInt64 then .integer u.toInt64
    else .string (asBytes (toString u.toNat))
  | .string => .string (asBytes (toString u.toNat))

/-- A key as a value of Lua. -/
def keyToLua : MapKey → LuaValue
  | .bool b => .boolean b
  | .i64 i => i64ToLua int64Repr i
  | .u64 u => u64ToLua int64Repr u
  | .string s => .string (asBytes s)

/-- The loop that sets the entries of a fresh table. -/
def fillTable (convert : Value → Except Failure LuaValue) (entries : List (LuaValue × Value)) :
    Except Failure LuaValue := do
  let t ← entries.foldlM (fun t e => do
    let v ← convert e.2
    return rawSet t e.1 v) []
  return .table t

/-- The depth is counted as in the other direction. -/
def build : Nat → Value → Except Failure LuaValue
  | 0, _ => .error (.error "value too deep")
  | depth + 1, value =>
    match value with
    | .null => .ok .nil
    | .bool v => .ok (.boolean v)
    | .i64 v => .ok (i64ToLua int64Repr v)
    | .u64 v => .ok (u64ToLua int64Repr v)
    | .f64 v => .ok (.number v)
    | .string s => .ok (.string (asBytes s))
    | .bytes b => .ok (.string b)
    | .array items =>
      fillTable (build depth) (items.zipIdx.map fun (item, idx) =>
        (.integer (Int64.ofNat (idx + 1)), item))
    | .object items =>
      fillTable (build depth) (items.map fun (k, v) => (.string (asBytes k), v))
    | .map items => fillTable (build depth) (items.map fun (k, v) => (keyToLua int64Repr k, v))

end Build

/-- The depth of the code. -/
def valueToLua (value : Value) (int64Repr : Int64Repr) : Except Failure LuaValue :=
  build int64Repr 64 value

/-! ### Tables on both sides -/

/-- The three ways to store a table. -/
inductive Kind
  | array
  | object
  | map
  deriving DecidableEq, Repr

/-- Which of them it is, if it is a table at all. -/
def tableKind : Value → Option Kind
  | .array _ => some .array
  | .object _ => some .object
  | .map _ => some .map
  | _ => none

/-- The entries of a table value, under the keys that they have in a map. -/
def tableEntries : Value → List (MapKey × Value)
  | .array items => slots (items.map some) 0
  | .object fields => fields.map fun e => (.string e.1, e.2)
  | .map entries => entries
  | _ => []

def positive : LuaValue → Bool
  | .integer i => 1 ≤ i
  | _ => false

def isString : LuaValue → Bool
  | .string _ => true
  | _ => false

/-- What the keys of a Lua table make of it. -/
def kindOf {ν : Type} (es : List (LuaValue × ν)) : Kind :=
  if es.all fun e => positive e.1 then .array
  else if es.all fun e => isString e.1 then .object
  else .map

/-- A positive integer that is no key lies below a key. -/
def Holes {ν : Type} (es : List (LuaValue × ν)) : Prop :=
  ∃ i : Int64, 1 ≤ i ∧ (∃ e ∈ es, ∃ j, e.1 = .integer j ∧ i < j) ∧ ∀ e ∈ es, e.1 ≠ .integer i

section Keys

variable (lossy : List UInt8 → String) {ν : Type}

/-- The key that is stored. Other keys are not supported. -/
def mapKey : LuaValue → Option MapKey
  | .integer i => some (if 0 ≤ i then .u64 i.toUInt64 else .i64 i)
  | .string bytes => some (.string (text lossy bytes))
  | .boolean b => some (.bool b)
  | _ => none

/-- The entries with a key that a map can have. -/
def supported (es : List (LuaValue × ν)) : List (MapKey × ν) :=
  es.filterMap fun e => (mapKey lossy e.1).map fun key => (key, e.2)

variable {lossy}

theorem mem_supported {es : List (LuaValue × ν)} {key : MapKey} {v : ν} :
    (key, v) ∈ supported lossy es ↔ ∃ k, (k, v) ∈ es ∧ mapKey lossy k = some key := by
  simp only [supported, List.mem_filterMap, Option.map_eq_some_iff, Prod.mk.injEq]
  constructor
  · rintro ⟨⟨k, v'⟩, member, key', found, rfl, rfl⟩
    exact ⟨k, member, found⟩
  · rintro ⟨k, member, found⟩
    exact ⟨(k, v), member, key, found, rfl, rfl⟩

theorem supported_append (es es' : List (LuaValue × ν)) :
    supported lossy (es ++ es') = supported lossy es ++ supported lossy es' :=
  List.filterMap_append

theorem supported_single {k : LuaValue} {key : MapKey} (found : mapKey lossy k = some key) (v : ν) :
    supported lossy [(k, v)] = [(key, v)] := by
  simp [supported, found]

theorem supported_eq_nil {es : List (LuaValue × ν)} :
    supported lossy es = [] ↔ ∀ e ∈ es, mapKey lossy e.1 = none := by
  simp [supported, List.filterMap_eq_nil_iff]

theorem one_le_iff {i : Int64} : 1 ≤ i ↔ 1 ≤ i.toInt := Int64.le_iff_toInt_le

theorem nonneg_of_positive {i : Int64} (pos : 1 ≤ i) : 0 ≤ i :=
  Int64.le_trans (by decide) pos

theorem toNat_pos {i : Int64} (pos : 1 ≤ i) : 0 < i.toInt.toNat := by
  rw [one_le_iff] at pos
  omega

theorem toNat_lt (i : Int64) : i.toInt.toNat < 2 ^ 63 := by
  have below := i.toInt_lt
  omega

theorem exists_index {n : Nat} (small : n + 1 < 2 ^ 63) :
    ∃ i : Int64, 1 ≤ i ∧ i.toInt = n + 1 := by
  have value : (Int64.ofNat (n + 1)).toInt = n + 1 := Int64.toInt_ofNat_of_lt small
  refine ⟨Int64.ofNat (n + 1), ?_, value⟩
  rw [one_le_iff, value]
  omega

theorem mapKey_of_positive {i : Int64} (pos : 1 ≤ i) :
    mapKey lossy (.integer i) = some (.u64 (UInt64.ofNat i.toInt.toNat)) := by
  have same : i.toUInt64 = UInt64.ofNat i.toInt.toNat := by
    apply UInt64.toNat.inj
    rw [Int64.toNat_toUInt64_of_le (nonneg_of_positive pos), UInt64.toNat_ofNat']
    exact (Nat.mod_eq_of_lt (lt_trans (toNat_lt i) (by decide))).symm
  rw [mapKey, if_pos (nonneg_of_positive pos), same]

/-- An unsigned key comes from an integer. -/
theorem integer_of_mapKey {k : LuaValue} {n : Nat} (small : n < 2 ^ 64)
    (found : mapKey lossy k = some (.u64 (UInt64.ofNat n))) :
    ∃ i : Int64, k = .integer i ∧ 0 ≤ i ∧ i.toInt.toNat = n := by
  unfold mapKey at found
  split at found
  next i =>
    split at found
    next nonneg =>
      refine ⟨i, rfl, nonneg, ?_⟩
      have same := congrArg UInt64.toNat (MapKey.u64.inj (Option.some.inj found))
      rw [Int64.toNat_toUInt64_of_le nonneg, UInt64.toNat_ofNat', Nat.mod_eq_of_lt small] at same
      exact same
    · cases found
  all_goals cases found

end Keys

end Wrkr.ValueUtil
