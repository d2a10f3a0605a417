import Wrkr.Core.Thresholds

/-!
# Options of a Lua script

The `thresholds` of the script's `Options` table, as `get_thresholds` reads them.
-/
namespace Wrkr.Lua

open Wrkr.Core Wrkr.Lib

/-- A Lua value; a string is a string of bytes, a table the list of its pairs in the order of
iteration. -/
inductive Value
  | nil
  | integer (i : Int)
  | string (bytes : List UInt8)
  | table (pairs : List (Value × Value))
  | other

inductive Error
  | invalidThresholds
  deriving DecidableEq, Repr

namespace Value

/-- The value at an integer key. -/
def rawGet (pairs : List (Value × Value)) (i : Int) : Value :=
  match pairs.find? fun pair => match pair.1 with
    | .integer j => i == j
    | _ => false with
  | some (_, value) => value
  | none => .nil

/-- The values at `i`, `i + 1`, ... up to the first nil; at most one for each pair. -/
def sequenceFrom (pairs : List (Value × Value)) (i : Int) : Nat → List Value
  | 0 => []
  | fuel + 1 => match rawGet pairs i with
    | .nil => []
    | value => value :: sequenceFrom pairs (i + 1) fuel

def sequenceValues (pairs : List (Value × Value)) : List Value :=
  sequenceFrom pairs 1 pairs.length

end Value

section Thresholds

variable (toStringLossy : List UInt8 → String)

def getExpression : Value → Except Error String
  | .string bytes => .ok (toStringLossy bytes)
  | _ => .error .invalidThresholds

/-- One expression or a list of them. -/
def getExpressions : Value → Except Error (List String)
  | .string bytes => .ok [toStringLossy bytes]
  | .table list => (Value.sequenceValues list).mapM (getExpression toStringLossy)
  | _ => .error .invalidThresholds

/-- One pair of the `thresholds` table. Keys that are no strings are skipped. -/
def getThreshold (out : List ThresholdSet) : Value × Value → Except Error (List ThresholdSet)
  | (.string bytes, v) =>
    match parseThresholdMetricKey (toStringLossy bytes) with
    | .error _ => .error .invalidThresholds
    | .ok (metric, tags) => do
      let expressions ← getExpressions toStringLossy v
      if expressions = [] then .error .invalidThresholds
      else .ok (out ++ [⟨metric, tags, expressions⟩])
  | _ => .ok out

/-- `thresholds` is the result of `t.get("thresholds")`, or none if that failed. -/
def getThresholds (thresholds : Option Value) : Except Error (List ThresholdSet) :=
  match thresholds with
  | none | some .nil => .ok []
  | some (.table pairs) => pairs.foldlM (getThreshold toStringLossy) []
  | some _ => .error .invalidThresholds

variable {toStringLossy}

/-- A set that a script can declare. -/
def Declared (s : ThresholdSet) : Prop := NormalKey s.metric s.tags ∧ s.expressions ≠ []

/-- What is taken from the options is declared there. -/
theorem getThreshold_declared {out out' : List ThresholdSet} {pair : Value × Value}
    (ok : getThreshold toStringLossy out pair = .ok out') (declared : ∀ s ∈ out, Declared s) :
    ∀ s ∈ out', Declared s := by
  obtain ⟨key, value⟩ := pair
  cases key with
  | string bytes =>
    rw [getThreshold] at ok
    split at ok
    · cases ok
    · rename_i metric tags parsed
      obtain ⟨expressions, -, rest⟩ := Except.bind_eq_ok.mp ok
      split_ifs at rest with empty
      cases rest
      intro s member
      rcases List.mem_append.mp member with old | new
      · exact declared s old
      · rw [List.mem_singleton.mp new]
        exact ⟨normalKey_of_parse parsed, empty⟩
  | _ =>
    cases ok
    exact declared

/-- All sets that a script declares are in normal form. -/
theorem getThresholds_declared {thresholds : Option Value} {sets : List ThresholdSet}
    (ok : getThresholds toStringLossy thresholds = .ok sets) : ∀ s ∈ sets, Declared s := by
  have none : ∀ s ∈ ([] : List ThresholdSet), Declared s := by simp
  simp only [getThresholds] at ok
  split at ok
  · cases ok
    exact none
  · cases ok
    exact none
  · exact foldlM_invariant (fun _ _ _ declared step => getThreshold_declared step declared) none ok
  · cases ok

end Thresholds

end Wrkr.Lua
