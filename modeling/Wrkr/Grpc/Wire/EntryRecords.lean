import Wrkr.Grpc.Wire.FieldNumbers
import Wrkr.Grpc.Wire.MapEntry

/-!
# Omitted keys and values

Other serializers leave out the field of a map entry that has the default of its kind, write the
two fields in either order and may add fields of their own. The decoder takes the records in any
order and skips what it does not know, but it insists on both fields.
-/
namespace Wrkr.Grpc.Wire

open Wrkr.Lib

/-- What a key is that no record gives. -/
def defaultKey : Kind → Option MapKey
  | .string => some (.string "")
  | .bool => some (.bool false)
  | .int32 | .sint32 | .sfixed32 | .int64 | .sint64 | .sfixed64 => some (.i64 0)
  | .uint32 | .fixed32 | .uint64 | .fixed64 => some (.u64 0)
  | .double | .float | .bytes | .message _ | .enum _ => none

variable (rt : Runtime)

/-- Field 1 of the entry message, in the format of the key's kind. -/
def KeyRecord (keyKind : Kind) (key : MapKey) (record : Bytes) : Prop :=
  ∃ kind, keyFieldKind keyKind = some kind ∧
    encodeScalarField rt 1 kind (keyAsValue key) = .ok record

/-- A field 2 of any serializer that stands for the value. -/
def ValueRecord (valueKind : GrpcValueKind) (value : Value) (record : Bytes) : Prop :=
  ∃ wireType payload, readTag record = .ok (2, wireType, payload) ∧
    decodeScalarValue rt valueKind wireType payload = .ok (value, [])

/-- A record that is neither the key nor the value. -/
def OtherRecord (record : Bytes) : Prop :=
  IsRecord record ∧ ValidNumber record ∧ fullNumber record ≠ 1 ∧ fullNumber record ≠ 2

/-- At most one record of the key and at most one of the value, anywhere among other records. -/
inductive EntryPayload (keyKind : Kind) (valueKind : GrpcValueKind) (key : MapKey)
    (value : Value) : Bool → Bool → Bytes → Prop
  | nil : EntryPayload keyKind valueKind key value false false []
  | key {hasValue : Bool} {record rest : Bytes} (isKey : KeyRecord rt keyKind key record)
    (others : EntryPayload keyKind valueKind key value false hasValue rest) :
    EntryPayload keyKind valueKind key value true hasValue (record ++ rest)
  | value {hasKey : Bool} {record rest : Bytes} (isValue : ValueRecord rt valueKind value record)
    (others : EntryPayload keyKind valueKind key value hasKey false rest) :
    EntryPayload keyKind valueKind key value hasKey true (record ++ rest)
  | other {hasKey hasValue : Bool} {record rest : Bytes} (isOther : OtherRecord record)
    (others : EntryPayload keyKind valueKind key value hasKey hasValue rest) :
    EntryPayload keyKind valueKind key value hasKey hasValue (record ++ rest)

section Steps

variable {rt} {keyKind : Kind} {valueKind : GrpcValueKind} {key : MapKey} {value : Value}
  {record : Bytes}

/-- The record of the key fills the key, whatever has been read so far. -/
theorem reads_keyRecord (own : CanonicalKey keyKind key) (standard : KeyIsStandard keyKind key)
    (isKey : KeyRecord rt keyKind key record) (fits : record.length < 2 ^ 64)
    (entry : Option MapKey × Option Value) :
    Reads .diverge (entryDecoder rt keyKind valueKind).body entry record (some key, entry.2) := by
  obtain ⟨kind, keyBytes, fieldBytes, isKind, isBytes, isField, same⟩ := encodeMapKey_standard rt own
  obtain ⟨kind', isKind', isRecord⟩ := isKey
  cases Option.some.inj (isKind.symm.trans isKind')
  cases Except.ok.inj (isField.symm.trans isRecord)
  cases same.mpr standard
  -- the key's own encoder writes the same bytes, which its decoder reads
  obtain ⟨wireType, payload, encodes, decodes⟩ := mapKey_carried rt own
  cases Except.ok.inj (isBytes.symm.trans encodes)
  rw [List.length_append] at fits
  apply Reads.of_body (entryDecoder rt keyKind valueKind).progress
  intro rest
  change mapEntryStep _ _ _ _ _ = _
  rw [mapEntryStep, List.append_assoc, readTag_write (by decide)]
  simp [bind, Except.bind, decodes (by omega)]

/-- That of the value fills the value. -/
theorem reads_valueRecord (isValue : ValueRecord rt valueKind value record)
    (entry : Option MapKey × Option Value) :
    Reads .diverge (entryDecoder rt keyKind valueKind).body entry record (entry.1, some value) := by
  obtain ⟨wireType, payload, tag, decoded⟩ := isValue
  have step : (entryDecoder rt keyKind valueKind).body entry record =
      .ok ((entry.1, some value), []) := by
    change mapEntryStep _ _ _ _ _ = _
    rw [mapEntryStep, tag]
    simp [bind, Except.bind, decoded]
  exact Reads.of_body (entryDecoder rt keyKind valueKind).progress fun rest =>
    ((entryDecoder rt keyKind valueKind).parses entry).append step rest

/-- Any other one changes nothing. -/
theorem reads_otherRecord (isOther : OtherRecord record) (entry : Option MapKey × Option Value) :
    Reads .diverge (entryDecoder rt keyKind valueKind).body entry record entry := by
  obtain ⟨⟨n, wireType, payload, tag, skips⟩, valid, notKey, notValue⟩ := isOther
  have number := readTag_number tag
  rw [Nat.mod_eq_of_lt (valid.2.trans (by decide))] at number
  -- the number is valid, so what is compared is the number itself
  have isNotKey : n ≠ 1 := by
    rintro rfl
    exact notKey number.symm
  have isNotValue : n ≠ 2 := by
    rintro rfl
    exact notValue number.symm
  have step : (entryDecoder rt keyKind valueKind).body entry record = .ok (entry, []) := by
    change mapEntryStep _ _ _ _ _ = _
    rw [mapEntryStep, tag]
    simp [bind, Except.bind, isNotKey, isNotValue, skips]
  exact Reads.of_body (entryDecoder rt keyKind valueKind).progress fun rest =>
    ((entryDecoder rt keyKind valueKind).parses entry).append step rest

/-- All of them together, by induction over the payload. -/
theorem reads_entryPayload (own : CanonicalKey keyKind key) (standard : KeyIsStandard keyKind key)
    {hasKey hasValue : Bool} {bytes : Bytes}
    (payload : EntryPayload rt keyKind valueKind key value hasKey hasValue bytes)
    (fits : bytes.length < 2 ^ 64) (entry : Option MapKey × Option Value) :
    Reads .diverge (entryDecoder rt keyKind valueKind).body entry bytes
      (if hasKey then some key else entry.1, if hasValue then some value else entry.2) := by
  induction payload generalizing entry with
  | nil => exact Reads.nil entry
  | key isKey others ih =>
    rw [List.length_append] at fits
    exact (reads_keyRecord own standard isKey (by omega) entry).append (ih (by omega) _)
  | value isValue others ih =>
    rw [List.length_append] at fits
    exact (reads_valueRecord isValue entry).append (ih (by omega) _)
  -- an unknown record is skipped
  | other isOther others ih =>
    rw [List.length_append] at fits
    exact (reads_otherRecord isOther entry).append (ih (by omega) entry)

/-- What the encoder of fields writes for a value stands for it. -/
theorem valueRecord_of_carried (carried : Carried rt valueKind value)
    (written : encodeScalarField rt 2 valueKind value = .ok record) (fits : record.length < 2 ^ 64) :
    ValueRecord rt valueKind value record := by
  obtain ⟨payload, encodes, decodes⟩ := carried
  cases Except.ok.inj (written.symm.trans (encodes 2))
  rw [List.length_append] at fits
  refine ⟨wireTypeForKind valueKind, payload, readTag_write (by decide) _ payload, ?_⟩
  have read := decodes (by omega) []
  rwa [List.append_nil] at read

end Steps

/-- An entry with both records is decoded to its key and value, in whatever order and among
whatever other records they come; an entry without one of them is refused, whatever default it has. -/
theorem entry_fields_required (rt : Runtime) {keyKind : Kind} {valueKind : GrpcValueKind}
    {key : MapKey} {value : Value} (own : CanonicalKey keyKind key)
    (standard : KeyIsStandard keyKind key) {hasKey hasValue : Bool} {bytes : Bytes}
    (payload : EntryPayload rt keyKind valueKind key value hasKey hasValue bytes)
    (fits : bytes.length < 2 ^ 64) :
    decodeMapEntry rt keyKind (fun wireType src => decodeScalarValue rt valueKind wireType src)
        bytes =
      match hasKey, hasValue with
      | true, true => .ok (key, value)
      | true, false => fail "map entry missing value"
      | false, _ => fail "map entry missing key" := by
  -- the loop begins with neither key nor value
  have loop := (reads_entryPayload own standard payload fits (none, none)).whileRemaining
  change whileRemaining .diverge (mapEntryStep rt keyKind _) (none, none) bytes = _ at loop
  rw [decodeMapEntry, loop]
  cases hasKey <;> cases hasValue <;> rfl

/-- The value first, then a record with the number 3, then the key. -/
theorem entryPayload_eu : EntryPayload ieee .string .int64 (.string "EU") (.i64 5) true true
    [0x10, 5, 0x18, 1, 0x0a, 2, 0x45, 0x55] := by
  have valueRecord : ValueRecord ieee .int64 (.i64 5) [0x10, 5] :=
    valueRecord_of_carried (carried_of_canonical ieee_exact (.int64 5) (by rintro _ ⟨⟩))
      (by rw [encodeScalarField]; rfl) (by decide)
  have otherRecord : OtherRecord [0x18, 1] :=
    ⟨⟨3, .varint, [1], rfl, rfl⟩, by decide +kernel, by decide +kernel, by decide +kernel⟩
  have keyRecord : KeyRecord ieee .string (.string "EU") [0x0a, 2, 0x45, 0x55] :=
    ⟨.string, rfl, by rw [encodeScalarField]; rfl⟩
  exact .value valueRecord (.other otherRecord (.key keyRecord .nil))

theorem entry_fields_required_eu :
    decodeMapEntry ieee .string (fun wireType src => decodeScalarValue ieee .int64 wireType src)
      [0x10, 5, 0x18, 1, 0x0a, 2, 0x45, 0x55] = .ok (.string "EU", .i64 5) :=
  entry_fields_required ieee (.string "EU") trivial entryPayload_eu (by decide)

/-- The empty string is the default of a string key, and an entry without it is not decoded. -/
theorem entry_default_refused :
    defaultKey .string = some (.string "") ∧
      EntryPayload ieee .string .int64 (.string "") (.i64 1) false true [0x10, 1] ∧
      decodeMapEntry ieee .string (fun wireType src => decodeScalarValue ieee .int64 wireType src)
        [0x10, 1] ≠ .ok (.string "", .i64 1) := by
  have valueRecord : ValueRecord ieee .int64 (.i64 1) [0x10, 1] :=
    valueRecord_of_carried (carried_of_canonical ieee_exact (.int64 1) (by rintro _ ⟨⟩))
      (by rw [encodeScalarField]; rfl) (by decide)
  refine ⟨rfl, .value valueRecord .nil, fun decoded => ?_⟩
  have refused : decodeMapEntry ieee .string
      (fun wireType src => decodeScalarValue ieee .int64 wireType src) [0x10, 1] =
        fail "map entry missing key" := rfl
  rw [refused] at decoded
  cases decoded

end Wrkr.Grpc.Wire
