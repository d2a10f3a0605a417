import Wrkr.Core.Instants
import Wrkr.Lua.LuaValue

/-!
# Durations in the options of a Lua script

`get_duration` and `get_duration_any` read a number of seconds or a text. `humantime` parses the
text.
-/
namespace Wrkr.Lua

open Wrkr.Core Wrkr.Lib

/-- The errors of the two readers. -/
inductive DurationError
  | invalidDuration
  | invalidTimeUnit
  deriving DecidableEq, Repr

/-- `Duration::from_secs_f64` on a number that the reader takes. -/
def secondsFromNumber (bits : UInt64) : Except (Stop DurationError) Duration :=
  match Duration.fromSecsF64 bits with
  | some d => .ok d
  | none => .error .panic

variable (humantime : String → Except String Duration) (toStringLossy : List UInt8 → String)

/-- The arms of both readers for a value that is not nil. -/
def durationFromValue (e : DurationError) : LuaValue → Except (Stop DurationError) Duration
  | .number n => if Ieee.lt 0 n then secondsFromNumber n else .error (.error e)
  | .integer i => if 0 < i then .ok (.fromSecs i.toUInt64) else .error (.error e)
  | .string bytes =>
    match humantime (toStringLossy bytes) with
    | .ok d => .ok d
    | .error _ => .error (.error e)
  | _ => .error (.error e)

/-- `read` is the result of `t.get("duration")`, or none if that failed. -/
def getDuration (read : Option LuaValue) : Except (Stop DurationError) (Option Duration) :=
  match read with
  | none | some .nil => .ok none
  | some v => (durationFromValue humantime toStringLossy .invalidDuration v).map some

/-- `reads` are the results of `t.get` for the keys in turn. -/
def getDurationAny : List (Option LuaValue) → Except (Stop DurationError) (Option Duration)
  | [] => .ok none
  | none :: rest | some .nil :: rest => getDurationAny rest
  | some v :: _ => (durationFromValue humantime toStringLossy .invalidTimeUnit v).map some

variable {humantime toStringLossy}

/-- A key that is missing or unreadable is passed over. -/
theorem getDurationAny_skip {before : List (Option LuaValue)} {v : LuaValue}
    {rest : List (Option LuaValue)} (skipped : ∀ r ∈ before, r = none ∨ r = some .nil)
    (given : v ≠ .nil) :
    getDurationAny humantime toStringLossy (before ++ some v :: rest) =
      (durationFromValue humantime toStringLossy .invalidTimeUnit v).map some := by
  induction before with
  | nil =>
    rw [List.nil_append]
    cases v <;> first | rfl | exact absurd rfl given
  | cons r before ih =>
    have later := ih fun r member => skipped r (List.mem_cons_of_mem _ member)
    rcases skipped r (List.mem_cons_self ..) with rfl | rfl
    · exact later
    · exact later

end Wrkr.Lua
