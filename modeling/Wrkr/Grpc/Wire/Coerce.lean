import Wrkr.Value
import Wrkr.Grpc.Proto
import Wrkr.Grpc.Wire.Primitives

/-!
# Coercions

How the encoder reads a dynamic value as the kind of a field. Decimal strings are parsed as
`str::parse` does. Floats are kept as their bits, and the conversions of the standard library
between floats, integers and text are the fields of a `Runtime`, of which only that a widened `f32`
survives narrowing and widening (`Runtime.Exact`) is ever relied on.
-/
namespace Wrkr.Grpc.Wire

structure Runtime where
  /-- `f as f32`, from the bits of an `f64`. -/
  narrow : UInt64 → UInt32
  /-- `f64::from(f)`, from the bits of an `f32`. -/
  widen : UInt32 → UInt64
  ofI64 : Int64 → UInt64
  ofU64 : UInt64 → UInt64
  toI64 : UInt64 → Int64
  toU64 : UInt64 → UInt64
  parseF64 : String → Option UInt64
  displayF64 : UInt64 → String
  /-- The `Debug` text of a kind. -/
  debugKind : Kind → String

/-- A widened `f32` comes back from a second trip through `f32`. This is so for a signalling NaN as
well, which the first widening may have made a quiet one. -/
def Runtime.Exact (rt : Runtime) : Prop := ∀ x, rt.widen (rt.narrow (rt.widen x)) = rt.widen x

/-! ### Decimal strings -/

/-- Digits only, and at least one. -/
def parseDigits (digits : List Char) : Option Nat :=
  if digits.isEmpty then none
  else digits.foldlM (fun n c => if c.isDigit then some (10 * n + (c.toNat - '0'.toNat)) else none) 0

/-- `s.parse::<i64>()`. -/
def parseI64 (s : String) : Option Int64 :=
  match s.toList with
  | '-' :: digits =>
    (parseDigits digits).bind fun n => if n ≤ 2 ^ 63 then some (Int64.ofInt (-n)) else none
  | '+' :: digits =>
    (parseDigits digits).bind fun n => if n < 2 ^ 63 then some (Int64.ofNat n) else none
  | digits => (parseDigits digits).bind fun n => if n < 2 ^ 63 then some (Int64.ofNat n) else none

/-- `s.parse::<u64>()`, which takes no minus sign. -/
def parseU64 (s : String) : Option UInt64 :=
  match s.toList with
  | '+' :: digits =>
    (parseDigits digits).bind fun n => if n < 2 ^ 64 then some (UInt64.ofNat n) else none
  | digits => (parseDigits digits).bind fun n => if n < 2 ^ 64 then some (UInt64.ofNat n) else none

def okOr {α : Type} (message : String) : Option α → Except String α
  | some a => .ok a
  | none => .error message

/-! ### Values -/

variable (rt : Runtime)

/-- A number counts as true unless it is zero. -/
def toBool : Value → Bool
  | .bool b => b
  | .string s => s = "true" ∨ s = "1"
  | .i64 i => i ≠ 0
  | .u64 u => u ≠ 0
  | _ => false

/-- An unsigned key is reinterpreted, a boolean one is refused. -/
def mapKeyToI64 : MapKey → Except String Int64
  | .i64 i => .ok i
  | .u64 u => .ok u.toInt64
  | .string s => okOr "invalid int64 string" (parseI64 s)
  | .bool _ => .error "invalid integer map key"

/-- A negative key is refused. -/
def mapKeyToU64 : MapKey → Except String UInt64
  | .u64 u => .ok u
  | .i64 i => if 0 ≤ i then .ok i.toUInt64 else .error "invalid unsigned integer map key"
  | .string s => okOr "invalid uint64 string" (parseU64 s)
  | .bool _ => .error "invalid unsigned integer map key"

/-- The text of a scalar. -/
def toStringLossy : Value → String
  | .string s => s
  | .i64 i => toString i.toInt
  | .u64 u => toString u.toNat
  | .f64 bits => rt.displayF64 bits
  | .bool b => toString b
  | _ => ""

/-- The bytes of a string. -/
def asBytes (s : String) : Bytes := s.toUTF8.data.toList

/-- What is no text has no bytes. -/
def toBytesLossy : Value → Bytes
  | .bytes b => b
  | .string s => asBytes s
  | _ => []

/-- An unsigned number is reinterpreted, a floating-point number is cut. -/
def toI64 : Value → Except String Int64
  | .i64 i => .ok i
  | .u64 u => .ok u.toInt64
  | .f64 bits => .ok (rt.toI64 bits)
  | .string s => okOr "invalid int64 string" (parseI64 s)
  | _ => .error "invalid integer"

/-- A negative number is reinterpreted as well. -/
def toU64 : Value → Except String UInt64
  | .u64 u => .ok u
  | .i64 i => .ok i.toUInt64
  | .f64 bits => .ok (rt.toU64 bits)
  | .string s => okOr "invalid uint64 string" (parseU64 s)
  | _ => .error "invalid integer"

/-- Integers are rounded to the nearest number. -/
def toF64 : Value → Except String UInt64
  | .f64 bits => .ok bits
  | .i64 i => .ok (rt.ofI64 i)
  | .u64 u => .ok (rt.ofU64 u)
  | .string s => okOr "invalid float string" (rt.parseF64 s)
  | _ => .error "invalid float"

end Wrkr.Grpc.Wire
