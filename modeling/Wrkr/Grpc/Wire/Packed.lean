import Wrkr.Grpc.Wire.Parsers
import Wrkr.Grpc.Wire.RoundTrip

/-!
# Packed and unpacked elements

A repeated field of a packable kind may come as one record with all elements in it, or as a record
for each element. The decoder has two implementations: `decode_packed_values` reads the elements in
loops of its own, `decode_scalar_value` reads one. A `Payload` is what both have in common, the
bytes of an element and the value they stand for, and `scalarPayload` and `packedPayload` say what
each of the two does. They differ in one kind only: a packed enum stays a number.
-/
namespace Wrkr.Grpc.Wire

open Wrkr.Lib

variable (rt : Runtime)

/-- How a kind that can be packed is read: as a varint or with a fixed width. -/
inductive Payload
  | varint (value : UInt64 → Value)
  | fixed32 (value : UInt32 → Value)
  | fixed64 (value : UInt64 → Value)

namespace Payload

/-- One value, with the end of the bytes as an error. -/
def read (eof : String) : Payload → Bytes → Decoded (Value × Bytes)
  | .varint value, src => do
    let (v, src) ← readVariant src
    .ok (value v, src)
  | .fixed32 value, src => do
    remaining 4 eof src
    let (v, src) ← getU32Le src
    .ok (value v, src)
  | .fixed64 value, src => do
    remaining 8 eof src
    let (v, src) ← getU64Le src
    .ok (value v, src)

theorem parses_read (payload : Payload) (eof : String) : Parses (payload.read eof) := by
  cases payload with
  | varint value => exact parses_readVariant.map value
  | fixed32 value =>
    refine ((parses_getU32Le eof).map value).congr fun src => ?_
    -- the reader checks the length first and then reads; the lemma has both in one
    exact (bind_assoc ..).symm
  | fixed64 value =>
    refine ((parses_getU64Le eof).map value).congr fun src => ?_
    exact (bind_assoc ..).symm

/-- The text of the error is all that the end of the buffer decides. -/
theorem read_eof {payload : Payload} {eof : String} {src rest : Bytes} {v : Value}
    (done : payload.read eof src = .ok (v, rest)) (eof' : String) :
    payload.read eof' src = .ok (v, rest) := by
  cases payload with
  | varint value => exact done
  | fixed32 value | fixed64 value =>
    obtain ⟨⟨⟩, enough, done⟩ := bind_ok done
    simp only [remaining] at enough
    split at enough
    · cases enough
    -- there were enough bytes, so the text is not used
    next isEnough =>
      simp only [read, remaining, isEnough, ↓reduceIte]
      exact done

/-- An element takes at least one byte. -/
theorem read_shrinks {payload : Payload} {eof : String} {src rest : Bytes} {v : Value}
    (done : payload.read eof src = .ok (v, rest)) : rest.length < src.length := by
  cases payload with
  | varint value =>
    obtain ⟨⟨n, src'⟩, isRead, done⟩ := bind_ok done
    cases done
    exact readVariant_shrinks isRead
  | fixed32 value | fixed64 value =>
    obtain ⟨⟨⟩, -, done⟩ := bind_ok done
    obtain ⟨⟨n, src'⟩, isRead, done⟩ := bind_ok done
    cases done
    obtain ⟨⟨bytes, src''⟩, isSplit, isRead⟩ := bind_ok isRead
    cases isRead
    exact splitTo_shorter (by decide) isSplit

end Payload

/-! ### The two implementations -/

/-- How `decode_scalar_value` reads a packable kind. -/
def scalarPayload : GrpcValueKind → Option Payload
  | .bool => some (.varint fun v => .bool (v ≠ 0))
  | .int32 | .int64 => some (.varint fun v => .i64 v.toInt64)
  | .sint32 | .sint64 => some (.varint fun v => .i64 (decodeZigzag64 v))
  | .uint32 | .uint64 => some (.varint .u64)
  -- `as i32` keeps the low half, then the name is looked up
  | .enum desc => some (.varint fun v => enumValue desc v.toUInt32.toInt32)
  | .fixed32 => some (.fixed32 fun v => .u64 v.toUInt64)
  | .sfixed32 => some (.fixed32 fun v => .i64 v.toInt32.toInt64)
  | .float => some (.fixed32 fun v => .f64 (rt.widen v))
  | .fixed64 => some (.fixed64 .u64)
  | .sfixed64 => some (.fixed64 fun v => .i64 v.toInt64)
  | .double => some (.fixed64 .f64)
  | .string | .bytes | .message _ => none

/-- How `decode_packed_values` reads it: without the names of an enum. -/
def packedPayload : GrpcValueKind → Option Payload
  -- the loop of `Int32 | Int64 | Enum`, without the cast
  | .enum _ => some (.varint fun v => .i64 v.toInt64)
  | kind => scalarPayload rt kind

/-- One iteration of the loops of `decode_packed_values`. -/
def packedStep (read : Bytes → Decoded (Value × Bytes)) (out : List Value) (src : Bytes) :
    Decoded (List Value × Bytes) := do
  let (v, src) ← read src
  .ok (out ++ [v], src)

theorem packedLoop_eq (read : Bytes → Decoded (Value × Bytes)) (bytes : Bytes) :
    packedLoop read bytes = whileRemaining .diverge (packedStep read) [] bytes := rfl

variable {rt} {kind : GrpcValueKind} {payload : Payload}

/-- A signed read is the unsigned one. -/
theorem getI32Le_bind (f : Int32 → Value) (src : Bytes) :
    (getI32Le src >>= fun p => (.ok (f p.1, p.2) : Decoded (Value × Bytes))) =
      getU32Le src >>= fun p => .ok (f p.1.toInt32, p.2) := by
  rw [getI32Le]
  cases getU32Le src <;> rfl

theorem getI64Le_bind (f : Int64 → Value) (src : Bytes) :
    (getI64Le src >>= fun p => (.ok (f p.1, p.2) : Decoded (Value × Bytes))) =
      getU64Le src >>= fun p => .ok (f p.1.toInt64, p.2) := by
  rw [getI64Le]
  cases getU64Le src <;> rfl

/-- A value of its own is read like one of a packed list, behind its tag. -/
theorem decodeScalarValue_payload (stored : scalarPayload rt kind = some payload) :
    ∃ eof message, ∀ wireType src, decodeScalarValue rt kind wireType src =
      expect (wireTypeForKind kind) message wireType >>= fun _ => payload.read eof src := by
  cases kind
  case string | bytes | message => cases stored
  -- a varint ends where it ends, there is no text to choose
  case bool | int32 | int64 | uint32 | uint64 | sint32 | sint64 | enum =>
    cases stored
    exact ⟨"", _, fun _ _ => by rw [decodeScalarValue]; rfl⟩
  case fixed32 | float | fixed64 | double =>
    cases stored
    exact ⟨_, _, fun _ _ => by rw [decodeScalarValue]; rfl⟩
  -- `get_i32_le` and `get_i64_le` are models of their own
  case sfixed32 =>
    cases stored
    refine ⟨"unexpected EOF reading sfixed32", "sfixed32 field must be 32-bit",
      fun wireType src => ?_⟩
    rw [decodeScalarValue]
    congr 1
    funext _
    exact congrArg _ (funext fun _ => getI32Le_bind (.i64 ·.toInt64) src)
  case sfixed64 =>
    cases stored
    refine ⟨"unexpected EOF reading sfixed64", "sfixed64 field must be 64-bit",
      fun wireType src => ?_⟩
    rw [decodeScalarValue]
    congr 1
    funext _
    exact congrArg _ (funext fun _ => getI64Le_bind .i64 src)

/-- A packed list is read value by value. -/
theorem decodePackedValues_payload (stored : packedPayload rt kind = some payload) :
    ∃ eof, ∀ bytes, decodePackedValues rt kind bytes = packedLoop (payload.read eof) bytes := by
  cases kind
  case string | bytes | message => cases stored
  case bool | int32 | int64 | uint32 | uint64 | sint32 | sint64 | enum =>
    cases stored
    exact ⟨"", fun _ => rfl⟩
  case fixed32 | float | fixed64 | double =>
    cases stored
    exact ⟨_, fun _ => rfl⟩
  -- the signed fixed widths are read as unsigned and converted
  case sfixed32 =>
    cases stored
    refine ⟨"unexpected EOF reading packed sfixed32", fun bytes => ?_⟩
    rw [decodePackedValues]
    congr 1
    funext src
    exact congrArg _ (funext fun _ => getI32Le_bind (.i64 ·.toInt64) src)
  case sfixed64 =>
    cases stored
    refine ⟨"unexpected EOF reading packed sfixed64", fun bytes => ?_⟩
    rw [decodePackedValues]
    congr 1
    funext src
    exact congrArg _ (funext fun _ => getI64Le_bind .i64 src)

/-! ### Lists of elements -/

theorem progress_packedStep (payload : Payload) (eof : String) :
    Progress (packedStep (payload.read eof)) := by
  intro out src out' rest done
  obtain ⟨⟨v, src'⟩, isRead, done⟩ := bind_ok done
  cases done
  exact Payload.read_shrinks isRead

/-- The loop reads the elements one after the other. -/
theorem packedLoop_elements {eof : String} {elements : List (Bytes × Value)}
    (valid : ∀ e ∈ elements, payload.read eof e.1 = .ok (e.2, [])) :
    packedLoop (payload.read eof) (elements.flatMap Prod.fst) = .ok (elements.map Prod.snd) := by
  -- generalised over what was read before, by induction on the elements
  have reads (out : List Value) : Reads .diverge (packedStep (payload.read eof)) out
      (elements.flatMap Prod.fst) (out ++ elements.map Prod.snd) := by
    induction elements generalizing out with
    | nil =>
      rw [List.map_nil, List.append_nil]
      exact Reads.nil out
    | cons e rest ih =>
      have first : Reads .diverge (packedStep (payload.read eof)) out e.1 (out ++ [e.2]) := by
        apply Reads.of_body (progress_packedStep payload eof)
        intro more
        -- an element is read off with the other elements behind it
        have isRead := (payload.parses_read eof).append (valid e (List.mem_cons_self ..)) more
        rw [packedStep, isRead]
        rfl
      have later := ih (fun e member => valid e (List.mem_cons_of_mem _ member)) (out ++ [e.2])
      rw [List.append_assoc, List.singleton_append] at later
      exact first.append later
  rw [packedLoop_eq]
  exact (reads []).whileRemaining

variable (rt) in
theorem exists_scalarPayload (packable : kindIsPackable kind = true) :
    ∃ payload, scalarPayload rt kind = some payload := by
  cases kind
  case string | bytes | message => simp [kindIsPackable] at packable
  all_goals exact ⟨_, rfl⟩

variable (rt) in
theorem exists_packedPayload (packable : kindIsPackable kind = true) :
    ∃ payload, packedPayload rt kind = some payload := by
  cases kind
  case string | bytes | message => simp [kindIsPackable] at packable
  all_goals exact ⟨_, rfl⟩

/-- Both sides give the element one value: it is no enum, or a number that the enum does not
declare and that an `i32` can hold. -/
def SameWhenPacked (kind : GrpcValueKind) (element : Bytes) : Prop :=
  match kind with
  | .enum desc => ∀ v, readVariant element = .ok (v, []) →
      desc.getValue v.toUInt32.toInt32 = none ∧ v.toUInt32.toInt32.toInt64 = v.toInt64
  | _ => True

theorem enumValue_eq_i64 (desc : EnumDescriptor) (n : Int32) (i : Int64) :
    enumValue desc n = .i64 i ↔ desc.getValue n = none ∧ n.toInt64 = i := by
  unfold enumValue
  cases desc.getValue n <;> simp

variable (rt) in
/-- The value of an element in the packed loop, next to the one of the scalar decoder. -/
theorem packed_value (packable : kindIsPackable kind = true) :
    ∃ (eof : String) (payload : Payload) (packedValue : Bytes → Value),
      (∀ bytes, decodePackedValues rt kind bytes = packedLoop (payload.read eof) bytes) ∧
        ∀ element v, decodeScalarValue rt kind (wireTypeForKind kind) element = .ok (v, []) →
          payload.read eof element = .ok (packedValue element, []) ∧
            (packedValue element = v ↔ SameWhenPacked kind element) := by
  obtain ⟨scalar, isScalar⟩ := exists_scalarPayload rt packable
  obtain ⟨eof, message, scalarReads⟩ := decodeScalarValue_payload isScalar
  by_cases isEnum : ∃ desc, kind = .enum desc
  · obtain ⟨desc, rfl⟩ := isEnum
    cases isScalar
    -- the packed loop reads the same varint and skips the lookup of the name
    have stored : packedPayload rt (.enum desc) = some _ := rfl
    obtain ⟨eof', packedReads⟩ := decodePackedValues_payload stored
    refine ⟨eof', _, fun element => match readVariant element with
      | .ok (v, _) => .i64 v.toInt64
      | .error _ => .null, packedReads, fun element v decoded => ?_⟩
    rw [scalarReads, expect_self] at decoded
    change (readVariant element >>= _) = _ at decoded
    obtain ⟨⟨n, rest⟩, isVarint, decoded⟩ := bind_ok decoded
    cases decoded
    refine ⟨by simp only [Payload.read, isVarint]; rfl, ?_⟩
    simp only [isVarint, SameWhenPacked, eq_comm (a := Value.i64 n.toInt64), enumValue_eq_i64,
      Except.ok.injEq, Prod.mk.injEq, and_true, forall_eq']
  -- all other kinds have one payload on both sides; the texts at the end of the buffer differ
  · have same : packedPayload rt kind = some scalar := by
      rw [← isScalar]
      cases kind
      case enum desc => exact absurd ⟨desc, rfl⟩ isEnum
      all_goals rfl
    have always (element : Bytes) : SameWhenPacked kind element := by
      cases kind
      case enum desc => exact absurd ⟨desc, rfl⟩ isEnum
      all_goals trivial
    obtain ⟨eof', packedReads⟩ := decodePackedValues_payload same
    refine ⟨eof', scalar, fun element => match scalar.read eof' element with
      | .ok (v, _) => v
      | .error _ => .null, packedReads, fun element v decoded => ?_⟩
    rw [scalarReads, expect_self] at decoded
    have isRead : scalar.read eof' element = .ok (v, []) := Payload.read_eof decoded eof'
    refine ⟨by simp only [isRead], ?_⟩
    simp [isRead, always]

/-! ### Repeated fields -/

/-- One record with all elements. -/
def packedRecord (fieldNumber : UInt32) (elements : List Bytes) : Bytes :=
  writeTag fieldNumber .len ++ writeLenDelimited elements.flatten

/-- A record for each element. -/
def unpackedRecords (fieldNumber : UInt32) (kind : GrpcValueKind) (elements : List Bytes) : Bytes :=
  elements.flatMap fun element => writeTag fieldNumber (wireTypeForKind kind) ++ element

section Records

variable {numbered : UInt32 → Option FieldDecoder} {field : FieldDescriptor} {out : ObjectMap}

/-- One record after the other adds one item after the other. -/
theorem reads_unpackedRecords (progress : Progress (messageStep numbered))
    (positive : field.number ≠ 0)
    (found : numbered field.number = some (decodeFieldInto rt field.name (.list kind)))
    (packable : kindIsPackable kind = true) {elements : List (Bytes × Value)}
    (valid : ∀ e ∈ elements,
      decodeScalarValue rt kind (wireTypeForKind kind) e.1 = .ok (e.2, []))
    (absent : field.name ∉ out.map Prod.fst) (done : List Value) :
    Reads .diverge (messageStep numbered) (accumulated out field.name .array done)
      (unpackedRecords field.number kind (elements.map Prod.fst))
      (accumulated out field.name .array (done ++ elements.map Prod.snd)) := by
  obtain ⟨payload, isScalar⟩ := exists_scalarPayload rt packable
  obtain ⟨eof, message, scalarReads⟩ := decodeScalarValue_payload isScalar
  induction elements generalizing done with
  | nil =>
    simp only [List.map_nil, List.append_nil]
    exact Reads.nil _
  | cons e rest ih =>
    have first : Reads .diverge (messageStep numbered) (accumulated out field.name .array done)
        (writeTag field.number (wireTypeForKind kind) ++ e.1)
        (accumulated out field.name .array (done ++ [e.2])) := by
      apply reads_record progress positive found
      intro more
      -- `valid` is about the element alone, the record has more records behind it
      have isRead := valid e (List.mem_cons_self ..)
      rw [scalarReads, expect_self] at isRead
      have decoded : decodeScalarValue rt kind (wireTypeForKind kind) (e.1 ++ more) =
          .ok (e.2, more) := by
        rw [scalarReads, expect_self]
        exact (payload.parses_read eof).append isRead more
      -- the wire type of the kind is not `len`, so the record is no packed one
      rw [decodeFieldInto, decodeList, if_neg (not_packed kind), decoded]
      simp only [bind, Except.bind, mergeDecodedField_item absent]
    have later := ih (fun e member => valid e (List.mem_cons_of_mem _ member)) (done ++ [e.2])
    rw [List.append_assoc, List.singleton_append] at later
    exact first.append later

/-- One record with all of them adds all of them. -/
theorem reads_packedRecord (progress : Progress (messageStep numbered))
    (positive : field.number ≠ 0)
    (found : numbered field.number = some (decodeFieldInto rt field.name (.list kind)))
    (packable : kindIsPackable kind = true) {elements : List Bytes} {items : List Value}
    (decoded : decodePackedValues rt kind elements.flatten = .ok items)
    (fits : elements.flatten.length < 2 ^ 64) (absent : field.name ∉ out.map Prod.fst) :
    Reads .diverge (messageStep numbered) out (packedRecord field.number elements)
      (out ++ [(field.name, .array items)]) := by
  apply reads_record progress positive found
  intro rest
  rw [decodeFieldInto, decodeList, if_pos ⟨rfl, packable⟩, readLenDelimited_write fits]
  simp only [bind, Except.bind, decoded, mergeDecodedField, HashTable.lookup_eq_none_iff.mpr absent,
    HashTable.insertEntry_of_absent absent]

end Records

section Fields

variable {elements : List (Bytes × Value)}

/-- A packed list decodes to the values of its elements exactly when no element is the number of an
enum that packing treats differently. -/
theorem decodePackedValues_iff (packable : kindIsPackable kind = true)
    (valid : ∀ e ∈ elements,
      decodeScalarValue rt kind (wireTypeForKind kind) e.1 = .ok (e.2, [])) :
    decodePackedValues rt kind (elements.map Prod.fst).flatten = .ok (elements.map Prod.snd) ↔
      ∀ e ∈ elements, SameWhenPacked kind e.1 := by
  obtain ⟨eof, payload, packedValue, packedReads, values⟩ := packed_value rt packable
  -- what the packed side gives in any case
  have decoded : decodePackedValues rt kind (elements.map Prod.fst).flatten =
      .ok (elements.map fun e => packedValue e.1) := by
    have each : ∀ e ∈ elements.map fun e => (e.1, packedValue e.1),
        payload.read eof e.1 = .ok (e.2, []) := by
      intro e member
      obtain ⟨e, inElements, rfl⟩ := List.mem_map.mp member
      exact (values e.1 e.2 (valid e inElements)).1
    have loop := packedLoop_elements each
    rw [packedReads]
    simpa [List.flatMap_def, Function.comp_def] using loop
  have agree : (elements.map fun e => packedValue e.1) = elements.map Prod.snd ↔
      ∀ e ∈ elements, SameWhenPacked kind e.1 := by
    rw [List.map_inj_left]
    exact forall₂_congr fun e member => (values e.1 e.2 (valid e member)).2
  rw [decoded, Except.ok.injEq, agree]

variable {fields : List GrpcInputFieldMeta} {field : FieldDescriptor}

/-- A message of this one record has the list as its one field. -/
theorem decode_packedRecord (unique : UniqueFields fields)
    (member : .mk field (.list kind) ∈ fields) (packable : kindIsPackable kind = true)
    {elements : List Bytes} {items : List Value}
    (decoded : decodePackedValues rt kind elements.flatten = .ok items)
    (fits : elements.flatten.length < 2 ^ 64) :
    decodeMessageForMeta rt (.mk fields) (packedRecord field.number elements) =
      .ok (.object [(field.name, .array items)]) := by
  have progress := progress_decodeNumbered rt fields
  have positive : field.number ≠ 0 := unique.positive _ member
  -- the number is that of the one field
  have found : decodeNumbered rt fields field.number =
      .some (decodeFieldInto rt field.name (.list kind)) :=
    finds_decodeNumbered rt unique _ member
  have absent : field.name ∉ ([] : ObjectMap).map Prod.fst := by simp
  have reads := reads_packedRecord progress positive found packable decoded fits absent
  simp only [decodeMessageForMeta, GrpcMessageMeta.fields, decodeMessageWith]
  rw [reads.whileRemaining]
  rfl

/-- Without an element there are no records and the field is absent. -/
theorem decode_unpackedRecords (unique : UniqueFields fields)
    (member : .mk field (.list kind) ∈ fields) (packable : kindIsPackable kind = true)
    (valid : ∀ e ∈ elements,
      decodeScalarValue rt kind (wireTypeForKind kind) e.1 = .ok (e.2, [])) :
    decodeMessageForMeta rt (.mk fields)
        (unpackedRecords field.number kind (elements.map Prod.fst)) =
      .ok (.object (if elements = [] then [] else
        [(field.name, .array (elements.map Prod.snd))])) := by
  have progress := progress_decodeNumbered rt fields
  have positive : field.number ≠ 0 := unique.positive _ member
  have found : decodeNumbered rt fields field.number =
      .some (decodeFieldInto rt field.name (.list kind)) :=
    finds_decodeNumbered rt unique _ member
  have absent : field.name ∉ ([] : ObjectMap).map Prod.fst := by simp
  have reads : Reads .diverge (messageStep (decodeNumbered rt fields)) []
      (unpackedRecords field.number kind (elements.map Prod.fst))
      (accumulated [] field.name .array ([] ++ elements.map Prod.snd)) :=
    reads_unpackedRecords progress positive found packable valid absent []
  simp only [decodeMessageForMeta, GrpcMessageMeta.fields, decodeMessageWith]
  rw [reads.whileRemaining]
  -- no record, no field
  cases elements <;> simp [accumulated, bind, Except.bind]

end Fields

/-- A packed list decodes to the values of its elements exactly when no element is the number of an
enum that packing treats differently. A repeated field decodes alike in both of its encodings under
the same condition, unless it is empty: a packed record without elements makes it present. -/
theorem packed_and_unpacked_alike (packable : kindIsPackable kind = true)
    {elements : List (Bytes × Value)}
    (valid : ∀ e ∈ elements,
      decodeScalarValue rt kind (wireTypeForKind kind) e.1 = .ok (e.2, [])) :
    (decodePackedValues rt kind (elements.map Prod.fst).flatten = .ok (elements.map Prod.snd) ↔
      ∀ e ∈ elements, SameWhenPacked kind e.1) ∧
    ((decodePackedValues rt kind (elements.map Prod.fst).flatten = .ok (elements.map Prod.snd) ∧
      ∀ (fields : List GrpcInputFieldMeta) (field : FieldDescriptor), UniqueFields fields →
        .mk field (.list kind) ∈ fields → (elements.map Prod.fst).flatten.length < 2 ^ 64 →
        decodeMessageForMeta rt (.mk fields)
            (packedRecord field.number (elements.map Prod.fst)) =
          decodeMessageForMeta rt (.mk fields)
            (unpackedRecords field.number kind (elements.map Prod.fst))) ↔
      elements ≠ [] ∧ ∀ e ∈ elements, SameWhenPacked kind e.1) := by
  have alike := decodePackedValues_iff packable valid
  refine ⟨alike, ?_, ?_⟩
  · rintro ⟨decoded, fieldAlike⟩
    refine ⟨?_, alike.mp decoded⟩
    -- for an empty list any schema with such a field tells the two encodings apart
    rintro rfl
    have unique : UniqueFields [.mk ⟨"values", 1⟩ (.list kind)] :=
      ⟨List.nodup_singleton _, List.nodup_singleton _, by simp⟩
    have member : GrpcInputFieldMeta.mk ⟨"values", 1⟩ (.list kind) ∈
        [GrpcInputFieldMeta.mk ⟨"values", 1⟩ (.list kind)] := List.mem_singleton_self _
    have same := fieldAlike _ _ unique member (by simp)
    rw [decode_packedRecord unique member packable decoded (by simp),
      decode_unpackedRecords unique member packable valid] at same
    simp at same
  · rintro ⟨some, same⟩
    have decoded := alike.mpr same
    refine ⟨decoded, fun fields field unique member fits => ?_⟩
    rw [decode_packedRecord unique member packable decoded fits,
      decode_unpackedRecords unique member packable valid, if_neg some]

/-- Two `int32` elements, of which the second takes two bytes. -/
theorem packed_and_unpacked_int32 :
    decodePackedValues ieee .int32 [5, 0xac, 0x02] = .ok [.i64 5, .i64 300] ∧
      decodeMessageForMeta ieee (.mk [.mk ⟨"values", 1⟩ (.list .int32)])
          (packedRecord 1 [[5], [0xac, 0x02]]) =
        decodeMessageForMeta ieee (.mk [.mk ⟨"values", 1⟩ (.list .int32)])
          (unpackedRecords 1 .int32 [[5], [0xac, 0x02]]) := by
  have valid : ∀ e ∈ [([5], .i64 5), ([0xac, 0x02], .i64 300)],
      decodeScalarValue ieee .int32 (wireTypeForKind .int32) e.1 = .ok (e.2, []) := by
    intro e member
    simp only [List.mem_cons, List.not_mem_nil, or_false] at member
    rcases member with rfl | rfl <;> rfl
  obtain ⟨decoded, alike⟩ :=
    (packed_and_unpacked_alike rfl valid).2.mpr ⟨by simp, fun _ _ => trivial⟩
  exact ⟨decoded, alike _ ⟨"values", 1⟩
    ⟨List.nodup_singleton _, List.nodup_singleton _, by simp⟩ (List.mem_singleton_self _) (by decide)⟩

/-- A packed `DOLLAR` comes back as the number 1. -/
theorem packed_enum_stays_number :
    decodeScalarValue ieee (.enum unitEnum) (wireTypeForKind (.enum unitEnum)) [1] =
        .ok (.string "DOLLAR", []) ∧
      decodePackedValues ieee (.enum unitEnum) [1] ≠ .ok [.string "DOLLAR"] := by
  have packed : decodePackedValues ieee (.enum unitEnum) [1] = .ok [.i64 1] := rfl
  refine ⟨rfl, ?_⟩
  rw [packed]
  simp

end Wrkr.Grpc.Wire
