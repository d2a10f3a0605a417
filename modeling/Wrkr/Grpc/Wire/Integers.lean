import Mathlib.Data.UInt
import Wrkr.Grpc.Wire.RoundTrip

/-!
# Integers in integer fields

A field takes an integer as it comes from Lua, as `I64`, `U64` or decimal text. It goes through one
of two coercions to 64 bits and, for two of the kinds, through a cast to 32 bits. Neither the
coercion of a number nor the cast checks the range.
-/
namespace Wrkr.Grpc.Wire

/-- The numbers that a kind has: from the first one, up to and without the second one. -/
def integerRange : GrpcValueKind → Option (Int × Int)
  | .int32 | .sint32 | .sfixed32 => some (-2 ^ 31, 2 ^ 31)
  | .int64 | .sint64 | .sfixed64 => some (-2 ^ 63, 2 ^ 63)
  | .uint32 | .fixed32 => some (0, 2 ^ 32)
  | .uint64 | .fixed64 => some (0, 2 ^ 64)
  | .bool | .string | .bytes | .float | .double | .enum _ | .message _ => none

def InRange (kind : GrpcValueKind) (n : Int) : Prop :=
  ∃ bounds, integerRange kind = some bounds ∧ bounds.1 ≤ n ∧ n < bounds.2

/-- The 64-bit kind of the coercion. -/
def coercionKind : GrpcValueKind → GrpcValueKind
  | .uint32 | .fixed32 | .uint64 | .fixed64 => .uint64
  | _ => .int64

/-- Decimal text with an optional sign. -/
def decimalValue (s : String) : Option Int :=
  match s.toList with
  | '-' :: digits => (parseDigits digits).map fun n : Nat => -(n : Int)
  | '+' :: digits => (parseDigits digits).map fun n : Nat => (n : Int)
  | digits => (parseDigits digits).map fun n : Nat => (n : Int)

/-- The number that a value stands for. -/
def integerOf : Value → Option Int
  | .i64 i => some i.toInt
  | .u64 u => some u.toNat
  | .string s => decimalValue s
  | _ => none

theorem inRange_iff {kind : GrpcValueKind} {low high n : Int}
    (range : integerRange kind = some (low, high)) : InRange kind n ↔ low ≤ n ∧ n < high := by
  simp [InRange, range]

variable (rt : Runtime)

/-- The encoder refuses the value, or the field has its number, which is one of the kind. -/
def KeepsInteger (fieldNumber : UInt32) (kind : GrpcValueKind) (value : Value) (n : Int) : Prop :=
  (∃ e, encodeScalarField rt fieldNumber kind value = .error e) ∨
    InRange kind n ∧ ∃ payload back,
      encodeScalarField rt fieldNumber kind value =
        .ok (writeTag fieldNumber (wireTypeForKind kind) ++ payload) ∧
      decodeScalarValue rt kind (wireTypeForKind kind) payload = .ok (back, []) ∧
      integerOf back = some n

/-! ### The coercions -/

/-- What is relied on of a coercion: text is refused outside its 64 bits, and within them, except
for the zero with a minus sign, nothing is refused or changed. -/
structure Coerces {α : Type} (coerce : Value → Except String α) (toInt : α → Int)
    (wide : GrpcValueKind) : Prop where
  keeps : ∀ {value n}, integerOf value = some n → InRange wide n →
    (∃ e, coerce value = .error e) ∨ ∃ a, coerce value = .ok a ∧ toInt a = n
  refuses : ∀ {s n}, decimalValue s = some n → ¬InRange wide n → ∃ e, coerce (.string s) = .error e
  refused : ∀ {value n e}, integerOf value = some n → coerce value = .error e →
    (∃ s, value = .string s) ∧ (InRange wide n → n = 0)

/-- Decimal text is its digits after a minus sign, a plus sign or no sign. -/
theorem decimalValue_cases {s : String} {n : Int} (denotes : decimalValue s = some n) :
    (∃ digits m, s.toList = '-' :: digits ∧ parseDigits digits = some m ∧ n = -(m : Int)) ∨
      (∃ digits m, s.toList = '+' :: digits ∧ parseDigits digits = some m ∧ n = m) ∨
      ∃ m : Nat, (∀ digits, s.toList ≠ '-' :: digits) ∧ (∀ digits, s.toList ≠ '+' :: digits) ∧
        parseDigits s.toList = some m ∧ n = m := by
  unfold decimalValue at denotes
  split at denotes
  next digits chars =>
    obtain ⟨m, parsed, rfl⟩ := Option.map_eq_some_iff.mp denotes
    exact .inl ⟨digits, m, chars, parsed, rfl⟩
  next digits chars =>
    obtain ⟨m, parsed, rfl⟩ := Option.map_eq_some_iff.mp denotes
    exact .inr (.inl ⟨digits, m, chars, parsed, rfl⟩)
  next digits notMinus notPlus =>
    obtain ⟨m, parsed, rfl⟩ := Option.map_eq_some_iff.mp denotes
    exact .inr (.inr ⟨m, notMinus, notPlus, parsed, rfl⟩)

/-- Text in the range of `i64` is parsed. -/
theorem parseI64_eq {s : String} {n : Int} (denotes : decimalValue s = some n) :
    parseI64 s = if -2 ^ 63 ≤ n ∧ n < 2 ^ 63 then some (Int64.ofInt n) else none := by
  unfold parseI64
  rcases decimalValue_cases denotes with ⟨digits, m, chars, parsed, rfl⟩ |
    ⟨digits, m, chars, parsed, rfl⟩ | ⟨m, notMinus, notPlus, parsed, rfl⟩
  -- a minus sign, a plus sign, none
  · simp only [chars, parsed, Option.bind_some]
    split_ifs <;> first | rfl | omega
  · simp only [chars, parsed, Option.bind_some, Int64.ofInt_eq_ofNat]
    split_ifs <;> first | rfl | omega
  · split
    next chars => exact absurd chars (notMinus _)
    next chars => exact absurd chars (notPlus _)
    next =>
      simp only [parsed, Option.bind_some, Int64.ofInt_eq_ofNat]
      split_ifs <;> first | rfl | omega

/-- Text in the range of `u64` is parsed, unless it has a minus sign. -/
theorem parseU64_cases {s : String} {n : Int} (denotes : decimalValue s = some n) :
    parseU64 s = (if 0 ≤ n ∧ n < 2 ^ 64 then some (UInt64.ofNat n.toNat) else none) ∨
      parseU64 s = none ∧ n ≤ 0 := by
  unfold parseU64
  rcases decimalValue_cases denotes with ⟨digits, m, chars, parsed, rfl⟩ |
    ⟨digits, m, chars, parsed, rfl⟩ | ⟨m, -, notPlus, parsed, rfl⟩
  · simp only [chars]
    -- even a zero is refused with a minus sign
    exact .inr ⟨rfl, by omega⟩
  · simp only [chars, parsed, Option.bind_some, Int.toNat_natCast]
    left
    split_ifs <;> first | rfl | omega
  · split
    next chars => exact absurd chars (notPlus _)
    next =>
      simp only [parsed, Option.bind_some, Int.toNat_natCast]
      left
      split_ifs <;> first | rfl | omega

/-- Below `2 ^ 63` the two readings of 64 bits agree. -/
theorem toInt_toInt64 {u : UInt64} (small : (u.toNat : Int) < 2 ^ 63) :
    u.toInt64.toInt = u.toNat := by
  change u.toBitVec.toInt = u.toBitVec.toNat
  change (u.toBitVec.toNat : Int) < 2 ^ 63 at small
  rw [BitVec.toInt_eq_toNat_cond, if_pos (by omega)]

theorem toNat_toUInt64 {i : Int64} (nonneg : 0 ≤ i.toInt) : (i.toUInt64.toNat : Int) = i.toInt := by
  change (i.toBitVec.toNat : Int) = i.toBitVec.toInt
  change 0 ≤ i.toBitVec.toInt at nonneg
  have bound := i.toBitVec.isLt
  rw [BitVec.toInt_eq_toNat_cond] at nonneg ⊢
  split_ifs at nonneg ⊢ <;> omega

/-- `to_i64` keeps what fits into 63 bits and a sign. -/
theorem coerces_toI64 : Coerces (toI64 rt) Int64.toInt .int64 where
  keeps := by
    intro value n denotes inRange
    obtain ⟨low, high⟩ := (inRange_iff rfl).mp inRange
    cases value with
    | i64 i =>
      cases denotes
      exact .inr ⟨i, rfl, rfl⟩
    -- an unsigned value in range has the same bits
    | u64 u =>
      cases denotes
      exact .inr ⟨u.toInt64, rfl, toInt_toInt64 high⟩
    | string s =>
      refine .inr ⟨Int64.ofInt n, ?_, Int64.toInt_ofInt_of_le low high⟩
      rw [toI64, parseI64_eq denotes, if_pos ⟨low, high⟩]
      rfl
    | _ => cases denotes
  refuses := by
    intro s n denotes outside
    rw [inRange_iff rfl] at outside
    exact ⟨_, by rw [toI64, parseI64_eq denotes, if_neg outside]; rfl⟩
  refused := by
    intro value n e denotes failed
    cases value with
    | i64 i => cases failed
    | u64 u => cases failed
    | string s =>
      refine ⟨⟨s, rfl⟩, fun inRange => ?_⟩
      rw [toI64, parseI64_eq denotes, if_pos ((inRange_iff rfl).mp inRange)] at failed
      cases failed
    | _ => cases denotes

/-- `to_u64` keeps what fits into 64 bits. -/
theorem coerces_toU64 : Coerces (toU64 rt) (fun u : UInt64 => (u.toNat : Int)) .uint64 where
  keeps := by
    intro value n denotes inRange
    obtain ⟨low, high⟩ := (inRange_iff rfl).mp inRange
    cases value with
    | i64 i =>
      cases denotes
      exact .inr ⟨i.toUInt64, rfl, toNat_toUInt64 low⟩
    | u64 u =>
      cases denotes
      exact .inr ⟨u, rfl, rfl⟩
    | string s =>
      rcases parseU64_cases denotes with parsed | ⟨none, -⟩
      · refine .inr ⟨UInt64.ofNat n.toNat, ?_, ?_⟩
        · rw [toU64, parsed, if_pos ⟨low, high⟩]
          rfl
        · rw [UInt64.toNat_ofNat_of_lt' (by rw [UInt64.size]; omega), Int.toNat_of_nonneg low]
      · exact .inl ⟨_, by rw [toU64, none]; rfl⟩
    | _ => cases denotes
  refuses := by
    intro s n denotes outside
    rw [inRange_iff rfl] at outside
    rcases parseU64_cases denotes with parsed | ⟨none, -⟩
    · exact ⟨_, by rw [toU64, parsed, if_neg outside]; rfl⟩
    · exact ⟨_, by rw [toU64, none]; rfl⟩
  refused := by
    intro value n e denotes failed
    cases value with
    | i64 i => cases failed
    | u64 u => cases failed
    | string s =>
      refine ⟨⟨s, rfl⟩, fun inRange => ?_⟩
      have bounds := (inRange_iff rfl).mp inRange
      rcases parseU64_cases denotes with parsed | ⟨-, minus⟩
      · rw [toU64, parsed, if_pos bounds] at failed
        cases failed
      -- a minus sign in front of a number that is not negative
      · exact le_antisymm minus bounds.1
    | _ => cases denotes

/-! ### The fields -/

/-- A kind has no number that its coercion has not. -/
theorem InRange.wide {kind : GrpcValueKind} {n : Int} (inRange : InRange kind n) :
    InRange (coercionKind kind) n := by
  obtain ⟨⟨low, high⟩, range, atLeast, below⟩ := inRange
  cases kind
  case bool | string | bytes | float | double | enum | message => cases range
  all_goals
    cases range
    refine (inRange_iff rfl).mpr ?_
    dsimp only at atLeast below
    omega

theorem inRange_zero {kind : GrpcValueKind} (isInteger : (integerRange kind).isSome) :
    InRange kind 0 := by
  cases kind
  case bool | string | bytes | float | double | enum | message => cases isInteger
  all_goals exact (inRange_iff rfl).mpr (by decide)

section Fields

variable {rt} {fieldNumber : UInt32} {kind : GrpcValueKind} {value : Value} {n : Int}

/-- A field that a coercion and a payload make up keeps a number exactly when its kind has it, or
when the coercion refuses the text. -/
theorem keepsInteger_of_coerces {α : Type} {coerce : Value → Except String α} {toInt : α → Int}
    (payload : α → Bytes) (coerces : Coerces coerce toInt (coercionKind kind))
    (encodes : ∀ value, encodeScalarField rt fieldNumber kind value =
      coerce value >>= fun a => .ok (writeTag fieldNumber (wireTypeForKind kind) ++ payload a))
    (decodes : ∀ a, InRange kind (toInt a) → ∃ back,
      (∀ rest, decodeScalarValue rt kind (wireTypeForKind kind) (payload a ++ rest) =
        .ok (back, rest)) ∧ integerOf back = some (toInt a))
    (isInteger : (integerRange kind).isSome) (denotes : integerOf value = some n) :
    KeepsInteger rt fieldNumber kind value n ↔
      InRange kind n ∨ (∃ s, value = .string s) ∧ ¬InRange (coercionKind kind) n := by
  constructor
  -- a coercion that refuses has been given a text, or the zero, which every kind has
  · rintro (⟨e, failed⟩ | ⟨inRange, -⟩)
    · rw [encodes] at failed
      cases coerced : coerce value with
      | ok a =>
        rw [coerced] at failed
        cases failed
      | error e' =>
        obtain ⟨isText, isZero⟩ := coerces.refused denotes coerced
        by_cases wide : InRange (coercionKind kind) n
        · exact .inl (isZero wide ▸ inRange_zero isInteger)
        · exact .inr ⟨isText, wide⟩
    · exact .inl inRange
  · rintro (inRange | ⟨⟨s, rfl⟩, outside⟩)
    · rcases coerces.keeps denotes inRange.wide with ⟨e, failed⟩ | ⟨a, coerced, rfl⟩
      · exact .inl ⟨e, by rw [encodes, failed]; rfl⟩
      -- accepted and in range: the decoder gives the number back
      · obtain ⟨back, decoded, same⟩ := decodes a inRange
        have whole := decoded []
        rw [List.append_nil] at whole
        exact .inr ⟨inRange, payload a, back, by rw [encodes, coerced]; rfl, whole, same⟩
    · obtain ⟨e, failed⟩ := coerces.refuses denotes outside
      exact .inl ⟨e, by rw [encodes, failed]; rfl⟩

end Fields

/-- A number is kept by a field exactly when the kind has it, or when it is text outside the 64
bits that the text is parsed to. -/
theorem keepsInteger_iff (rt : Runtime) (fieldNumber : UInt32) (kind : GrpcValueKind)
    (isInteger : (integerRange kind).isSome) (value : Value) (n : Int)
    (denotes : integerOf value = some n) :
    KeepsInteger rt fieldNumber kind value n ↔
      InRange kind n ∨ (∃ s, value = .string s) ∧ ¬InRange (coercionKind kind) n := by
  cases kind
  case bool | string | bytes | float | double | enum | message => cases isInteger
  case int32 | int64 =>
    refine keepsInteger_of_coerces (fun i : Int64 => writeVariant i.toUInt64) (coerces_toI64 rt)
      (fun _ => by rw [encodeScalarField]) (fun i _ => ⟨.i64 i, fun rest => ?_, rfl⟩) rfl denotes
    simp [decodeScalarValue, wireTypeForKind, bind, Except.bind]
  case sint32 | sint64 =>
    refine keepsInteger_of_coerces (fun i : Int64 => writeVariant (encodeZigzag64 i))
      (coerces_toI64 rt) (fun _ => by rw [encodeScalarField])
      (fun i _ => ⟨.i64 i, fun rest => ?_, rfl⟩) rfl denotes
    simp [decodeScalarValue, wireTypeForKind, bind, Except.bind]
  case uint32 | uint64 =>
    refine keepsInteger_of_coerces (fun u : UInt64 => writeVariant u) (coerces_toU64 rt)
      (fun _ => by rw [encodeScalarField]) (fun u _ => ⟨.u64 u, fun rest => ?_, rfl⟩) rfl denotes
    simp [decodeScalarValue, wireTypeForKind, bind, Except.bind]
  case fixed64 =>
    refine keepsInteger_of_coerces (fun u : UInt64 => putU64Le u) (coerces_toU64 rt)
      (fun _ => by rw [encodeScalarField]) (fun u _ => ⟨.u64 u, fun rest => ?_, rfl⟩) rfl denotes
    simp [decodeScalarValue, wireTypeForKind, getU64Le_put, bind, Except.bind]
  case sfixed64 =>
    refine keepsInteger_of_coerces (fun i : Int64 => putI64Le i) (coerces_toI64 rt)
      (fun _ => by rw [encodeScalarField]) (fun i _ => ⟨.i64 i, fun rest => ?_, rfl⟩) rfl denotes
    simp [decodeScalarValue, wireTypeForKind, getI64Le_put, bind, Except.bind]
  -- the casts keep what fits into 32 bits
  case fixed32 =>
    refine keepsInteger_of_coerces (fun u : UInt64 => putU32Le u.toUInt32) (coerces_toU64 rt)
      (fun _ => by rw [encodeScalarField])
      (fun u inRange => ⟨.u64 u.toUInt32.toUInt64, fun rest => ?_, ?_⟩) rfl denotes
    · simp [decodeScalarValue, wireTypeForKind, getU32Le_put, bind, Except.bind]
    · have bounds := (inRange_iff rfl).mp inRange
      rw [integerOf, UInt32.toNat_toUInt64, UInt64.toNat_toUInt32, Nat.mod_eq_of_lt (by omega)]
  case sfixed32 =>
    refine keepsInteger_of_coerces (fun i : Int64 => putI32Le i.toInt32) (coerces_toI64 rt)
      (fun _ => by rw [encodeScalarField])
      (fun i inRange => ⟨.i64 i.toInt32.toInt64, fun rest => ?_, ?_⟩) rfl denotes
    · simp [decodeScalarValue, wireTypeForKind, getI32Le_put, bind, Except.bind]
    · have bounds := (inRange_iff rfl).mp inRange
      rw [integerOf, Int32.toInt_toInt64, Int64.toInt_toInt32,
        Int.bmod_eq_of_le (by omega) (by omega)]

theorem keepsInteger_minus_seven : KeepsInteger ieee 1 .sfixed32 (.string "-7") (-7) :=
  (keepsInteger_iff ieee 1 .sfixed32 rfl (.string "-7") (-7) (by decide +kernel)).mpr
    (.inl ((inRange_iff rfl).mpr (by decide)))

/-- The cast of `2 ^ 32 + 1` to 32 bits is 1. -/
theorem fixed32_truncates : ¬KeepsInteger ieee 1 .fixed32 (.u64 (2 ^ 32 + 1)) (2 ^ 32 + 1) := by
  rintro (⟨e, failed⟩ | ⟨inRange, -⟩)
  · rw [encodeScalarField] at failed
    cases failed
  · exact absurd ((inRange_iff rfl).mp inRange).2 (by decide)

end Wrkr.Grpc.Wire
