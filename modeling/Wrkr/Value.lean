import Mathlib.Data.List.Basic

/-!
# Dynamic values

`wrkr_value::Value`, the currency between Lua, the shared store and the gRPC codec. A hash map is
modelled by the list of its entries in iteration order, so that a statement about every value
speaks about every iteration order as well. Floats are kept as their bits.
-/
namespace Wrkr

inductive MapKey
  | bool (b : Bool)
  | i64 (i : Int64)
  | u64 (u : UInt64)
  | string (s : String)
  deriving DecidableEq, Repr

inductive Value
  | null
  | bool (b : Bool)
  | i64 (i : Int64)
  | u64 (u : UInt64)
  | f64 (bits : UInt64)
  | string (s : String)
  | bytes (b : List UInt8)
  | array (items : List Value)
  | object (fields : List (String × Value))
  | map (entries : List (MapKey × Value))
  deriving Repr

namespace Value

def asI64 : Value → Option Int64
  | .i64 v => some v
  | _ => none

/-- Equality up to the iteration order of the hash maps. -/
inductive Same : Value → Value → Prop
  | refl (v : Value) : Same v v
  | array {xs ys : List Value} (length : xs.length = ys.length)
      (items : ∀ (n : Nat) x y, xs[n]? = some x → ys[n]? = some y → Same x y) :
      Same (.array xs) (.array ys)
  | object {fields fields' : List (String × Value)}
      (keys : ∀ k, k ∈ fields.map Prod.fst ↔ k ∈ fields'.map Prod.fst)
      (values : ∀ k x y, (k, x) ∈ fields → (k, y) ∈ fields' → Same x y) :
      Same (.object fields) (.object fields')
  | map {entries entries' : List (MapKey × Value)}
      (keys : ∀ k, k ∈ entries.map Prod.fst ↔ k ∈ entries'.map Prod.fst)
      (values : ∀ k x y, (k, x) ∈ entries → (k, y) ∈ entries' → Same x y) :
      Same (.map entries) (.map entries')

end Value

end Wrkr
