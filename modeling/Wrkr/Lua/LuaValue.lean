import Wrkr.Lib.Agree

/-!
# Lua values

The values that scripts pass to the runtime, as `mlua::Value` shows them.
-/
namespace Wrkr.Lua

/-- A number is its `f64`, on its bits. A table is the list of its entries, in the order in which
`pairs` enumerates them; functions, userdata and threads are `other`. -/
inductive LuaValue
  | nil
  | boolean (b : Bool)
  | integer (i : Int64)
  | number (bits : UInt64)
  | string (bytes : List UInt8)
  | table (entries : List (LuaValue × LuaValue))
  | other

/-- Deep equality: equal tables have the same keys, and equal values under each key. -/
inductive LuaValue.Same : LuaValue → LuaValue → Prop
  | refl (v : LuaValue) : Same v v
  | table {es es' : List (LuaValue × LuaValue)}
      (keys : ∀ k, k ∈ es.map Prod.fst ↔ k ∈ es'.map Prod.fst)
      (values : ∀ k v v', (k, v) ∈ es → (k, v') ∈ es' → Same v v') :
      Same (.table es) (.table es')

namespace LuaValue.Same

variable {u v w : LuaValue} {es es' : List (LuaValue × LuaValue)}

theorem symm (same : v.Same w) : w.Same v := by
  induction same with
  | refl v => exact .refl v
  | table keys _ ih =>
    exact .table (fun k => (keys k).symm) fun k v v' left right => ih k v' v right left

theorem trans (first : u.Same v) (second : v.Same w) : u.Same w := by
  induction first generalizing w with
  | refl => exact second
  | table keys values ih =>
    cases second with
    | refl => exact .table keys values
    | table keys' values' =>
      refine .table (fun k => (keys k).trans (keys' k)) fun k v v'' left right => ?_
      obtain ⟨v', member⟩ := Lib.exists_value ((keys k).mp (List.mem_map_of_mem left))
      exact ih k v v' left member (values' k v' v'' member right)

end LuaValue.Same

end Wrkr.Lua
