import Wrkr.Grpc.Wire.RoundTrip

/-!
# Map entries as messages

On the wire a map entry is a message with the key as field 1 and the value as field 2. Map keys
have an encoder and a decoder of their own, which write every integer key as a plain varint. That
is the standard format for half of the key kinds only: `sint32` and `sint64` want zigzag, and the
fixed-width kinds another wire type. `map_entry_standard_iff` draws the line.
-/
namespace Wrkr.Grpc.Wire

open Wrkr.Lib

variable (rt : Runtime)

/-- The kind of field 1 of the entry message, for the kinds that a map key may have. -/
def keyFieldKind : Kind → Option GrpcValueKind
  | .string => some .string
  | .bool => some .bool
  | .int32 => some .int32
  | .sint32 => some .sint32
  | .sfixed32 => some .sfixed32
  | .int64 => some .int64
  | .sint64 => some .sint64
  | .sfixed64 => some .sfixed64
  | .uint32 => some .uint32
  | .fixed32 => some .fixed32
  | .uint64 => some .uint64
  | .fixed64 => some .fixed64
  | .double | .float | .bytes | .message _ | .enum _ => none

/-- A key as the value that it would be. -/
def keyAsValue : MapKey → Value
  | .bool b => .bool b
  | .i64 i => .i64 i
  | .u64 u => .u64 u
  | .string s => .string s

/-- The payload of the record that `encode_map_entry` writes. -/
def entryPayload (keyKind : Kind) (valueKind : GrpcValueKind) (key : MapKey) (value : Value) :
    Except String Bytes := do
  let keyBytes ← encodeMapKey rt keyKind key
  let valueBytes ← encodeScalarField rt 2 valueKind value
  .ok (keyBytes ++ valueBytes)

/-- An entry is its payload with tag and length in front. -/
theorem encodeMapEntry_eq (n : UInt32) (keyKind : Kind) (valueKind : GrpcValueKind) (key : MapKey)
    (value : Value) :
    encodeMapEntry rt n keyKind (fun v => encodeScalarField rt 2 valueKind v) key value =
      (entryPayload rt keyKind valueKind key value).map fun payload =>
        writeTag n .len ++ writeLenDelimited payload := by
  unfold encodeMapEntry entryPayload
  dsimp only
  cases encodeMapKey rt keyKind key with
  | error e => rfl
  | ok keyBytes => cases encodeScalarField rt 2 valueKind value <;> rfl

/-- The payload of the two-field message. -/
def standardPayload (keyKind : Kind) (valueKind : GrpcValueKind) (key : MapKey) (value : Value) :
    Except String Bytes :=
  match keyFieldKind keyKind with
  | none => .error "no map key kind"
  | some kind => do
    let keyBytes ← encodeScalarField rt 1 kind (keyAsValue key)
    let valueBytes ← encodeScalarField rt 2 valueKind value
    .ok (keyBytes ++ valueBytes)

/-- The plain varint is the standard format of the key. -/
def KeyIsStandard : Kind → MapKey → Prop
  -- zero is the one number that zigzag leaves as it is
  | .sint32, key | .sint64, key => key = .i64 0
  -- four or eight bytes under another wire type
  | .fixed32, _ | .fixed64, _ | .sfixed32, _ | .sfixed64, _ => False
  | _, _ => True

/-! ### Keys -/

/-- Only zero is its own zigzag code. -/
theorem zigzag_bits_fixed {v : BitVec 64} (fixed : (v >>> 1) ^^^ (-(v &&& 1#64)) = v) : v = 0#64 := by
  have low : (v &&& 1#64).toNat = v.toNat % 2 := by
    rw [BitVec.toNat_and]
    exact Nat.and_one_is_mod _
  have bound := v.isLt
  apply BitVec.eq_of_toNat_eq
  rcases Nat.mod_two_eq_zero_or_one v.toNat with even | odd
  -- an even `v` would be its own half
  · have zero : v &&& 1#64 = 0#64 := BitVec.eq_of_toNat_eq (by rw [low, even]; rfl)
    rw [zero, BitVec.neg_zero, BitVec.xor_zero] at fixed
    have half := congrArg BitVec.toNat fixed
    rw [BitVec.toNat_ushiftRight, Nat.shiftRight_eq_div_pow] at half
    change v.toNat = 0
    omega
  · have one : v &&& 1#64 = 1#64 := BitVec.eq_of_toNat_eq (by rw [low, odd]; rfl)
    have ones : -1#64 = BitVec.allOnes 64 := by decide
    rw [one, ones, BitVec.xor_allOnes] at fixed
    have half := congrArg BitVec.toNat fixed
    -- `v + v / 2 = 2 ^ 64 - 1` has no odd solution
    rw [BitVec.toNat_not, BitVec.toNat_ushiftRight, Nat.shiftRight_eq_div_pow] at half
    omega

/-- Zero is the only number that zigzag leaves as it is. -/
theorem encodeZigzag64_eq_self (i : Int64) : encodeZigzag64 i = i.toUInt64 ↔ i = 0 := by
  constructor
  · intro same
    -- decoding both sides: the number is a fixed point of the decoder
    have back := decodeZigzag64_encode i
    rw [same] at back
    exact Int64.toBitVec.inj (zigzag_bits_fixed (congrArg Int64.toBitVec back))
  · rintro rfl
    decide

theorem writeVariant_inj {v w : UInt64} (same : writeVariant v = writeVariant w) : v = w := by
  have read := readVariant_write v []
  rw [same, readVariant_write] at read
  exact (Prod.mk.inj (Except.ok.inj read)).1.symm

/-- What the key encoder writes is field 1 of the key's kind exactly for the standard keys. -/
theorem encodeMapKey_standard {keyKind : Kind} {key : MapKey} (own : CanonicalKey keyKind key) :
    ∃ kind keyBytes fieldBytes, keyFieldKind keyKind = some kind ∧
      encodeMapKey rt keyKind key = .ok keyBytes ∧
      encodeScalarField rt 1 kind (keyAsValue key) = .ok fieldBytes ∧
      (keyBytes = fieldBytes ↔ KeyIsStandard keyKind key) := by
  cases own
  case string s =>
    refine ⟨_, _, _, rfl, rfl, by rw [encodeScalarField], ?_⟩
    simp [KeyIsStandard, wireTypeForKind, toStringLossy, keyAsValue]
  case bool b =>
    refine ⟨_, _, _, rfl, rfl, by rw [encodeScalarField], ?_⟩
    cases b <;> simp [KeyIsStandard, wireTypeForKind, toBool, keyAsValue]
  -- both write the number as it is
  case int32 i | int64 i | uint32 u | uint64 u =>
    refine ⟨_, _, _, rfl, rfl, by rw [encodeScalarField]; rfl, ?_⟩
    simp [KeyIsStandard, wireTypeForKind]
  case sint32 i | sint64 i =>
    refine ⟨_, _, _, rfl, rfl, by rw [encodeScalarField]; rfl, ?_⟩
    -- the tags agree, the varints have to
    rw [wireTypeForKind, List.append_cancel_left_eq]
    constructor
    · intro same
      rw [(encodeZigzag64_eq_self i).mp (writeVariant_inj same).symm]
      rfl
    · rintro ⟨⟩
      rfl
  case fixed32 u | sfixed32 i | fixed64 u | sfixed64 i =>
    refine ⟨_, _, _, rfl, rfl, by rw [encodeScalarField]; rfl, ?_⟩
    -- the tags differ in their wire types
    refine iff_of_false (fun same => ?_) id
    have varint : writeTag 1 .varint = [8] := by decide
    have thirtyTwoBit : writeTag 1 .thirtyTwoBit = [13] := by decide
    have sixtyFourBit : writeTag 1 .sixtyFourBit = [9] := by decide
    simp [wireTypeForKind, varint, thirtyTwoBit, sixtyFourBit] at same

/-! ### Entries -/

variable {rt}

/-- For a key of its kind's own constructor and a value that the encoder accepts: the entry is the
two-field message, and decoding that message returns the key and the value, exactly when the key
is one that a plain varint is the standard format of. -/
theorem map_entry_standard_iff (exact : rt.Exact) {keyKind : Kind} {key : MapKey}
    (own : CanonicalKey keyKind key) {valueKind : GrpcValueKind} {value : Value}
    (accepted : ∃ bytes, encodeScalarField rt 2 valueKind value = .ok bytes) :
    (entryPayload rt keyKind valueKind key value = standardPayload rt keyKind valueKind key value ∧
      ∀ payload, standardPayload rt keyKind valueKind key value = .ok payload →
        payload.length < 2 ^ 64 → valueKind.Unique → Canonical rt.Wide valueKind value →
        decodeMapEntry rt keyKind (fun wireType src => decodeScalarValue rt valueKind wireType src)
          payload = .ok (key, value)) ↔ KeyIsStandard keyKind key := by
  obtain ⟨kind, keyBytes, fieldBytes, isKind, isKey, isField, standard⟩ :=
    encodeMapKey_standard rt own
  obtain ⟨valueBytes, isValue⟩ := accepted
  have written : entryPayload rt keyKind valueKind key value = .ok (keyBytes ++ valueBytes) := by
    rw [entryPayload, isKey, isValue]
    rfl
  -- the two payloads end in the same value bytes
  have expected : standardPayload rt keyKind valueKind key value =
      .ok (fieldBytes ++ valueBytes) := by
    rw [standardPayload, isKind]
    simp only [isField, isValue]
    rfl
  rw [← standard]
  constructor
  · rintro ⟨same, -⟩
    rw [written, expected] at same
    exact List.append_cancel_right (Except.ok.inj same)
  · rintro rfl
    refine ⟨written.trans expected.symm, fun payload isPayload fits unique canonical => ?_⟩
    -- what was written is what the round trip decodes
    obtain ⟨keyType, keyPayload, keyEncodes, keyDecodes⟩ := mapKey_carried rt own
    obtain ⟨valuePayload, valueEncodes, valueDecodes⟩ := carried exact canonical unique
    have keySame := Except.ok.inj (isKey.symm.trans keyEncodes)
    have valueSame := Except.ok.inj (isValue.symm.trans (valueEncodes 2))
    have payloadSame := Except.ok.inj (expected.symm.trans isPayload)
    subst keySame valueSame payloadSame
    simp only [List.length_append] at fits
    exact decodeMapEntry_payload (keyDecodes (by omega)) (valueDecodes (by omega))

/-- An entry of a `map<string, int64>`. -/
theorem map_entry_standard_eu :
    KeyIsStandard .string (.string "EU") ∧
      entryPayload ieee .string .int64 (.string "EU") (.i64 5) =
        standardPayload ieee .string .int64 (.string "EU") (.i64 5) ∧
      decodeMapEntry ieee .string (fun wireType src => decodeScalarValue ieee .int64 wireType src)
        [0x0a, 2, 0x45, 0x55, 0x10, 5] = .ok (.string "EU", .i64 5) := by
  have accepted : ∃ bytes, encodeScalarField ieee 2 .int64 (.i64 5) = .ok bytes := by
    rw [encodeScalarField]
    exact ⟨_, rfl⟩
  have both := (map_entry_standard_iff ieee_exact (CanonicalKey.string "EU") accepted).mpr trivial
  exact ⟨trivial, both.1, both.2 _ rfl (by decide) trivial (.int64 5)⟩

/-- The key −1 of a `map<sint32, bool>` is written as the ten bytes of a plain varint where the
two-field message has the zigzag byte 1, and that byte is read back as the key 1. -/
theorem map_entry_sint32_deviates :
    entryPayload ieee .sint32 .bool (.i64 (-1)) (.bool true) ≠
        standardPayload ieee .sint32 .bool (.i64 (-1)) (.bool true) ∧
      standardPayload ieee .sint32 .bool (.i64 (-1)) (.bool true) = .ok [0x08, 1, 0x10, 1] ∧
      decodeMapEntry ieee .sint32 (fun wireType src => decodeScalarValue ieee .bool wireType src)
        [0x08, 1, 0x10, 1] = .ok (.i64 1, .bool true) := by
  refine ⟨fun same => ?_, rfl, rfl⟩
  have lengths := congrArg (Except.map List.length) same
  revert lengths
  decide +kernel

end Wrkr.Grpc.Wire
