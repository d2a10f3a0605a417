import Wrkr.Grpc.Wire.Encode

/-!
# Decoding messages

The decoder loops over the records of a buffer and looks the fields up by number. Like the encoder
it is defined by recursion on the schema, with `decodeNumbered` as the lookup of the field decoders
(`decodeNumbered_eq`). A decoder of values returns the value and the rest of the buffer; a decoder
of fields merges what it decoded into the object read so far.
-/
namespace Wrkr.Grpc.Wire

open Wrkr.Lib

variable (rt : Runtime)

/-- The entries of an `AHashMap` from names to values. -/
abbrev ObjectMap := List (String × Value)

/-- Decodes one value and returns the bytes behind it. -/
abbrev ValueDecoder := WireType → Bytes → Decoded (Value × Bytes)

/-- The same into the object that is being built. -/
abbrev FieldDecoder := WireType → ObjectMap → Bytes → Decoded (ObjectMap × Bytes)

/-- `std::str::from_utf8`. -/
def fromUtf8 (bytes : Bytes) : Option String := String.fromUTF8? ⟨bytes.toArray⟩

/-- A check of the remaining bytes before a fixed-width read. -/
def remaining (n : Nat) (message : String) (src : Bytes) : Decoded Unit :=
  if src.length < n then fail message else .ok ()

/-- A check of the wire type before a read. -/
def expect (expected : WireType) (message : String) (wireType : WireType) : Decoded Unit :=
  if wireType ≠ expected then fail message else .ok ()

/-- A number without a name is kept as a number. -/
def enumValue (desc : EnumDescriptor) (n : Int32) : Value :=
  match desc.getValue n with
  | some v => .string v.name
  | none => .i64 n.toInt64

/-! ### Packed values -/

/-- Everything of a fixed width or a varint can be packed. -/
def kindIsPackable : GrpcValueKind → Bool
  | .string | .bytes | .message _ => false
  | _ => true

/-- `while bytes.has_remaining() { out.push(..) }`. -/
def packedLoop (read : Bytes → Decoded (Value × Bytes)) (bytes : Bytes) : Decoded (List Value) :=
  whileRemaining .diverge (fun out src => do
    let (v, src) ← read src
    .ok (out ++ [v], src)) [] bytes

/-- Values without tags, up to the end of the payload. -/
def decodePackedValues (kind : GrpcValueKind) (bytes : Bytes) : Decoded (List Value) :=
  match kind with
  | .bool =>
    packedLoop (fun src => do
      let (v, src) ← readVariant src
      .ok (.bool (v ≠ 0), src)) bytes
  -- a packed enum stays a number
  | .int32 | .int64 | .enum _ =>
    packedLoop (fun src => do
      let (v, src) ← readVariant src
      .ok (.i64 v.toInt64, src)) bytes
  | .sint32 | .sint64 =>
    packedLoop (fun src => do
      let (v, src) ← readVariant src
      .ok (.i64 (decodeZigzag64 v), src)) bytes
  | .uint32 | .uint64 =>
    packedLoop (fun src => do
      let (v, src) ← readVariant src
      .ok (.u64 v, src)) bytes
  | .fixed32 =>
    packedLoop (fun src => do
      remaining 4 "unexpected EOF reading packed fixed32" src
      let (v, src) ← getU32Le src
      .ok (.u64 v.toUInt64, src)) bytes
  | .sfixed32 =>
    packedLoop (fun src => do
      remaining 4 "unexpected EOF reading packed sfixed32" src
      let (v, src) ← getI32Le src
      .ok (.i64 v.toInt64, src)) bytes
  | .float =>
    packedLoop (fun src => do
      remaining 4 "unexpected EOF reading packed float" src
      let (v, src) ← getU32Le src
      .ok (.f64 (rt.widen v), src)) bytes
  | .fixed64 =>
    packedLoop (fun src => do
      remaining 8 "unexpected EOF reading packed fixed64" src
      let (v, src) ← getU64Le src
      .ok (.u64 v, src)) bytes
  | .sfixed64 =>
    packedLoop (fun src => do
      remaining 8 "unexpected EOF reading packed sfixed64" src
      let (v, src) ← getI64Le src
      .ok (.i64 v, src)) bytes
  | .double =>
    packedLoop (fun src => do
      remaining 8 "unexpected EOF reading packed double" src
      let (v, src) ← getU64Le src
      .ok (.f64 v, src)) bytes
  | .string | .bytes | .message _ => fail "packed encoding is not valid for this field type"

/-! ### Map entries -/

/-- The wire type has to be that of the kind. -/
def decodeMapKey (kind : Kind) (wireType : WireType) (src : Bytes) : Decoded (MapKey × Bytes) :=
  let i64 (message : String) : Decoded (MapKey × Bytes) := do
    expect .varint message wireType
    let (v, src) ← readVariant src
    .ok (.i64 v.toInt64, src)
  let u64 (message : String) : Decoded (MapKey × Bytes) := do
    expect .varint message wireType
    let (v, src) ← readVariant src
    .ok (.u64 v, src)
  -- integer keys are plain varints whatever their kind
  match kind with
  | .string => do
    expect .len "map key (string) must be length-delimited" wireType
    let (b, src) ← readLenDelimited src
    match fromUtf8 b with
    | some s => .ok (.string s, src)
    | none => fail "invalid utf-8 map key"
  | .bool => do
    expect .varint "map key (bool) must be varint" wireType
    let (v, src) ← readVariant src
    .ok (.bool (v ≠ 0), src)
  | .int32 | .sint32 | .sfixed32 => i64 "map key (int32) must be varint"
  | .int64 | .sint64 | .sfixed64 => i64 "map key (int64) must be varint"
  | .uint32 | .fixed32 => u64 "map key (uint32) must be varint"
  | .uint64 | .fixed64 => u64 "map key (uint64) must be varint"
  | other => fail ("unsupported map key type for proto kind " ++ rt.debugKind other)

/-- One record of a map entry. -/
def mapEntryStep (keyKind : Kind) (decodeValue : ValueDecoder)
    (entry : Option MapKey × Option Value) (src : Bytes) :
    Decoded ((Option MapKey × Option Value) × Bytes) := do
  let (fieldNumber, wireType, src) ← readTag src
  if fieldNumber = 1 then
    let (key, src) ← decodeMapKey rt keyKind wireType src
    .ok ((some key, entry.2), src)
  else if fieldNumber = 2 then
    let (value, src) ← decodeValue wireType src
    .ok ((entry.1, some value), src)
  else
    let src ← skipValue wireType src
    .ok (entry, src)

/-- Key and value can come in any order and more than once; both have to be there. -/
def decodeMapEntry (keyKind : Kind) (decodeValue : ValueDecoder) (bytes : Bytes) :
    Decoded (MapKey × Value) := do
  let (key, value) ← whileRemaining .diverge (mapEntryStep rt keyKind decodeValue) (none, none) bytes
  match key with
  | none => fail "map entry missing key"
  | some k =>
    match value with
    | none => fail "map entry missing value"
    | some v => .ok (k, v)

/-- An entry replaces one with the same key. -/
def decodeMapEntryIntoObject (out : ObjectMap) (name : String) (keyKind : Kind)
    (decodeValue : ValueDecoder) (wireType : WireType) (src : Bytes) :
    Decoded (ObjectMap × Bytes) := do
  expect .len "map field must be length-delimited" wireType
  let (bytes, src) ← readLenDelimited src
  let (k, v) ← decodeMapEntry rt keyKind decodeValue bytes
  match out.lookup name with
  | some (.map existing) =>
    .ok (HashTable.insertEntry out name (.map (HashTable.insertEntry existing k v)), src)
  | _ => .ok (HashTable.insertEntry out name (.map [(k, v)]), src)

/-! ### Fields -/

/-- A list grows by the items and a map by the entries; a single value is replaced. -/
def mergeDecodedField (out : ObjectMap) (name : String) (shape : GrpcFieldShape) (v : Value) :
    Decoded ObjectMap :=
  let items : List Value := match v with
    | .array items => items
    | other => [other]
  match shape with
  | .scalar _ => .ok (HashTable.insertEntry out name v)
  | .list _ =>
    match out.lookup name with
    | none => .ok (HashTable.insertEntry out name (.array items))
    | some (.array existing) => .ok (HashTable.insertEntry out name (.array (existing ++ items)))
    -- a value that is no array is kept as the first item
    | some prev => .ok (HashTable.insertEntry out name (.array (prev :: items)))
  | .map _ _ =>
    match v with
    | .map newMap =>
      match out.lookup name with
      | some (.map existing) =>
        .ok (HashTable.insertEntry out name
          (.map (newMap.foldl (fun m (k, v) => HashTable.insertEntry m k v) existing)))
      | _ => .ok (HashTable.insertEntry out name (.map newMap))
    | _ => fail "decoded map field was not a map"

/-- `decodeScalar` decodes one element. -/
def decodeList (kind : GrpcValueKind) (decodeScalar : ValueDecoder) (wireType : WireType)
    (src : Bytes) : Decoded (Value × Bytes) :=
  -- one record with all items, or a record for each
  if wireType = .len ∧ kindIsPackable kind then do
    let (bytes, src) ← readLenDelimited src
    let items ← decodePackedValues rt kind bytes
    .ok (.array items, src)
  else do
    let (v, src) ← decodeScalar wireType src
    .ok (.array [v], src)

/-! ### Messages -/

/-- One record of a message. -/
def messageStep (numbered : UInt32 → Option FieldDecoder) (out : ObjectMap) (src : Bytes) :
    Decoded (ObjectMap × Bytes) := do
  let (fieldNumber, wireType, src) ← readTag src
  match numbered fieldNumber with
  -- a number that the schema does not know
  | none =>
    let src ← skipValue wireType src
    .ok (out, src)
  | some decode => decode wireType out src

/-- The loop over the records of a message. -/
def decodeMessageWith (numbered : UInt32 → Option FieldDecoder) (bytes : Bytes) : Decoded Value := do
  let out ← whileRemaining .diverge (messageStep numbered) [] bytes
  .ok (.object out)

mutual

/-- The wire type is checked first, then the value is read. -/
def decodeScalarValue (kind : GrpcValueKind) (wireType : WireType) (src : Bytes) :
    Decoded (Value × Bytes) :=
  match kind with
  | .bool => do
    expect .varint "bool field must be varint" wireType
    let (v, src) ← readVariant src
    .ok (.bool (v ≠ 0), src)
  | .string => do
    expect .len "string field must be length-delimited" wireType
    let (b, src) ← readLenDelimited src
    -- bytes that are not UTF-8 become the empty string
    .ok (.string ((fromUtf8 b).getD ""), src)
  | .bytes => do
    expect .len "bytes field must be length-delimited" wireType
    let (b, src) ← readLenDelimited src
    .ok (.bytes b, src)
  | .int32 | .int64 => do
    expect .varint "int field must be varint" wireType
    let (v, src) ← readVariant src
    .ok (.i64 v.toInt64, src)
  | .uint32 | .uint64 => do
    expect .varint "uint field must be varint" wireType
    let (v, src) ← readVariant src
    .ok (.u64 v, src)
  | .sint32 | .sint64 => do
    expect .varint "sint field must be varint" wireType
    let (v, src) ← readVariant src
    .ok (.i64 (decodeZigzag64 v), src)
  | .fixed32 => do
    expect .thirtyTwoBit "fixed32 field must be 32-bit" wireType
    remaining 4 "unexpected EOF reading fixed32" src
    let (v, src) ← getU32Le src
    .ok (.u64 v.toUInt64, src)
  | .sfixed32 => do
    expect .thirtyTwoBit "sfixed32 field must be 32-bit" wireType
    remaining 4 "unexpected EOF reading sfixed32" src
    let (v, src) ← getI32Le src
    .ok (.i64 v.toInt64, src)
  | .float => do
    expect .thirtyTwoBit "float field must be 32-bit" wireType
    remaining 4 "unexpected EOF reading float" src
    let (v, src) ← getU32Le src
    .ok (.f64 (rt.widen v), src)
  | .fixed64 => do
    expect .sixtyFourBit "fixed64 field must be 64-bit" wireType
    remaining 8 "unexpected EOF reading fixed64" src
    let (v, src) ← getU64Le src
    .ok (.u64 v, src)
  | .sfixed64 => do
    expect .sixtyFourBit "sfixed64 field must be 64-bit" wireType
    remaining 8 "unexpected EOF reading sfixed64" src
    let (v, src) ← getI64Le src
    .ok (.i64 v, src)
  | .double => do
    expect .sixtyFourBit "double field must be 64-bit" wireType
    remaining 8 "unexpected EOF reading double" src
    let (v, src) ← getU64Le src
    .ok (.f64 v, src)
  | .enum desc => do
    expect .varint "enum field must be varint" wireType
    let (v, src) ← readVariant src
    -- `as i32` keeps the low half
    .ok (enumValue desc v.toUInt32.toInt32, src)
  | .message (.mk fields) => do
    expect .len "message field must be length-delimited" wireType
    let (bytes, src) ← readLenDelimited src
    let v ← decodeMessageWith (decodeNumbered fields) bytes
    .ok (v, src)

/-- What the loop over the records does once it has found the field. -/
def decodeFieldInto (name : String) (shape : GrpcFieldShape) (wireType : WireType)
    (out : ObjectMap) (src : Bytes) : Decoded (ObjectMap × Bytes) :=
  match shape with
  | .map keyKind valueKind =>
    decodeMapEntryIntoObject rt out name keyKind
      (fun wireType src => decodeScalarValue valueKind wireType src) wireType src
  | .scalar kind => do
    let (v, src) ← decodeScalarValue kind wireType src
    let out ← mergeDecodedField out name (.scalar kind) v
    .ok (out, src)
  | .list kind => do
    let (v, src) ← decodeList rt kind (fun wireType src => decodeScalarValue kind wireType src)
      wireType src
    let out ← mergeDecodedField out name (.list kind) v
    .ok (out, src)

/-- The decoder of the field that a lookup by number finds. -/
def decodeNumbered (fields : List GrpcInputFieldMeta) (fieldNumber : UInt32) :
    Option FieldDecoder :=
  match fields with
  | [] => none
  | .mk field shape :: rest =>
    -- `insert` replaces, so the last field with the number is found
    (decodeNumbered rest fieldNumber).or
      (if field.number ≠ 0 ∧ field.number = fieldNumber then
        some fun wireType out src => decodeFieldInto field.name shape wireType out src
      else none)

end

/-- A nested message, or one that is read by its shape. -/
def decodeMessageForMeta (msg : GrpcMessageMeta) (bytes : Bytes) : Decoded Value :=
  decodeMessageWith (decodeNumbered rt msg.fields) bytes

/-- The lookup of a method: the index of the field, then the field at that index. -/
def decodeIndexed (method : GrpcMethod) (fieldNumber : UInt32) : Option FieldDecoder :=
  (method.outputFieldIndexByNumber.get? fieldNumber).map fun idx wireType out src =>
    match method.outputFields[idx]? with
    -- `&fields[idx]` past the end
    | none => .error .panic
    | some entry => decodeFieldInto rt entry.name entry.shape wireType out src

/-- The output of a method, by the index that was built for it. -/
def decodeMessageForMethod (method : GrpcMethod) (bytes : Bytes) : Decoded Value :=
  decodeMessageWith (decodeIndexed rt method) bytes

def decodeValueForMethod (method : GrpcMethod) (bytes : Bytes) : Decoded Value :=
  decodeMessageForMethod rt method bytes

/-! ### Lookups -/

/-- Of several fields with one number the last one counts. -/
theorem decodeNumbered_eq_lastWith (fields : List GrpcInputFieldMeta) (n : UInt32) :
    decodeNumbered rt fields n =
      (HashTable.lastWith (fun entry => entry.field.number) n
        (fields.filter fun entry => entry.field.number ≠ 0)).map fun entry =>
        decodeFieldInto rt entry.field.name entry.shape := by
  induction fields with
  | nil => simp [decodeNumbered, HashTable.lastWith]
  | cons entry rest ih =>
    obtain ⟨field, shape⟩ := entry
    rw [decodeNumbered, ih, List.filter_cons]
    -- a field without a number is not entered
    by_cases zero : field.number = 0
    · simp [zero]
    · generalize rest.filter (fun entry => entry.field.number ≠ 0) = kept
      by_cases here : field.number = n
      · subst here
        cases found : HashTable.lastWith (fun entry : GrpcInputFieldMeta => entry.field.number)
          field.number kept
        · simp [zero, HashTable.lastWith, found]
        · simp [zero, HashTable.lastWith, found]
      · simp [zero, here, HashTable.lastWith]

/-- The lookup by number goes through the map that `build_message_meta` fills. -/
theorem decodeNumbered_eq (fields : List GrpcInputFieldMeta) (n : UInt32) :
    decodeNumbered rt fields n =
      ((fieldsByNumber fields).get? n).map fun (name, shape) => decodeFieldInto rt name shape := by
  have filled := HashTable.get?_foldl_insert (fun entry : GrpcInputFieldMeta => entry.field.number)
    (fun entry => (entry.field.name, entry.shape))
    (fields.filter fun entry => entry.field.number ≠ 0) HashTable.empty n
  -- the loop skips fields without a number; the same as filtering them out first
  rw [List.foldl_filter] at filled
  simp only [decide_eq_true_eq] at filled
  rw [decodeNumbered_eq_lastWith, fieldsByNumber, filled]
  cases HashTable.lastWith (fun entry : GrpcInputFieldMeta => entry.field.number) n
    (fields.filter fun entry => entry.field.number ≠ 0) <;> simp

/-- The lookup finds the fields of the schema. -/
def Finds (fields : List GrpcInputFieldMeta) (numbered : UInt32 → Option FieldDecoder) : Prop :=
  ∀ entry ∈ fields,
    numbered entry.field.number = some (decodeFieldInto rt entry.field.name entry.shape)

/-- With distinct numbers each field finds its own decoder. -/
theorem finds_decodeNumbered {fields : List GrpcInputFieldMeta} (unique : UniqueFields fields) :
    Finds rt fields (decodeNumbered rt fields) := by
  intro entry member
  -- no field of a schema has the number 0
  have all : fields.filter (fun entry => entry.field.number ≠ 0) = fields := by
    rw [List.filter_eq_self]
    intro entry member
    simpa using unique.positive entry member
  rw [decodeNumbered_eq_lastWith, all]
  rw [HashTable.lastWith_of_nodup (fun entry : GrpcInputFieldMeta => entry.field.number)
    unique.numbers member]
  rfl

/-- The index that a method keeps for a number is that of a field with the number, so both decoders
find the same field. -/
theorem decodeIndexed_new (input fields : List GrpcInputFieldMeta) (n : UInt32) :
    decodeIndexed rt (GrpcMethod.new input fields) n = decodeNumbered rt fields n := by
  let toOutput (entry : GrpcInputFieldMeta) : GrpcOutputFieldMeta :=
    ⟨entry.field, entry.field.name, entry.shape⟩
  let outputFields := fields.map toOutput
  -- what `GrpcMethod::new` goes through to fill the index
  let kept := outputFields.zipIdx.filter fun p => p.1.field.number ≠ 0
  let last := HashTable.lastWith (fun p : GrpcOutputFieldMeta × Nat => p.1.field.number) n kept
  have index : (GrpcMethod.new input fields).outputFieldIndexByNumber.get? n =
      last.map Prod.snd := by
    have filled := HashTable.get?_foldl_insert
      (fun p : GrpcOutputFieldMeta × Nat => p.1.field.number) Prod.snd kept HashTable.empty n
    rw [List.foldl_filter] at filled
    simp only [decide_eq_true_eq, HashTable.get?_empty, Option.or_none] at filled
    exact filled
  -- the fields that have a number, with and without their indices
  have fieldsKept : (fields.filter fun entry => entry.field.number ≠ 0).map toOutput =
      kept.map Prod.fst := by
    let hasNumber (o : GrpcOutputFieldMeta) : Bool := o.field.number ≠ 0
    calc (fields.filter (hasNumber ∘ toOutput)).map toOutput
        = (fields.map toOutput).filter hasNumber := List.filter_map.symm
      _ = (outputFields.zipIdx.map Prod.fst).filter hasNumber := by rw [List.zipIdx_map_fst]
      _ = (outputFields.zipIdx.filter (hasNumber ∘ Prod.fst)).map Prod.fst := List.filter_map
  have byNumber : (HashTable.lastWith (fun entry : GrpcInputFieldMeta => entry.field.number) n
      (fields.filter fun entry => entry.field.number ≠ 0)).map toOutput = last.map Prod.fst := by
    rw [← HashTable.lastWith_map (fun o : GrpcOutputFieldMeta => o.field.number) toOutput,
      fieldsKept, HashTable.lastWith_map]
  rw [decodeIndexed, index, decodeNumbered_eq_lastWith]
  cases isLast : last with
  | none =>
    rw [isLast, Option.map_none, Option.map_eq_none_iff] at byNumber
    rw [byNumber]
    rfl
  | some p =>
    obtain ⟨output, i⟩ := p
    rw [isLast, Option.map_some, Option.map_eq_some_iff] at byNumber
    obtain ⟨entry, isEntry, rfl⟩ := byNumber
    have inKept := HashTable.lastWith_mem _ isLast
    -- the index was taken by enumerating the fields, so the field is at it
    have found : (GrpcMethod.new input fields).outputFields[i]? = some (toOutput entry) :=
      List.mem_zipIdx_iff_getElem?.mp (List.mem_of_mem_filter inKept)
    rw [isEntry]
    simp only [Option.map_some, found]
    rfl

theorem decodeMessageForMethod_new (input fields : List GrpcInputFieldMeta)
    (bytes : Bytes) : decodeMessageForMethod rt (GrpcMethod.new input fields) bytes =
      decodeMessageForMeta rt (.mk fields) bytes := by
  rw [decodeMessageForMethod, decodeMessageForMeta, funext (decodeIndexed_new rt input fields)]
  rfl

theorem finds_decodeIndexed {fields : List GrpcInputFieldMeta} (unique : UniqueFields fields)
    (input : List GrpcInputFieldMeta) :
    Finds rt fields (decodeIndexed rt (GrpcMethod.new input fields)) := by
  intro entry member
  rw [decodeIndexed_new]
  exact finds_decodeNumbered rt unique entry member

/-! ### What is left of the buffer -/

/-- A decoder of values does not lengthen the buffer. -/
def Shrinks {α : Type} (decode : Bytes → Decoded (α × Bytes)) : Prop :=
  ∀ src a rest, decode src = .ok (a, rest) → rest.length ≤ src.length

/-- A check, then a read: what is done with the value read leaves the buffer alone. -/
theorem rest_le {α β : Type} {read : Bytes → Decoded (β × Bytes)} (shrinks : Shrinks read)
    {check : Decoded Unit} {f : β × Bytes → Decoded (α × Bytes)}
    (keeps : ∀ b src a rest, f (b, src) = .ok (a, rest) → rest = src) {src : Bytes} {a : α}
    {rest : Bytes} (done : (check >>= fun _ => read src >>= f) = .ok (a, rest)) :
    rest.length ≤ src.length := by
  obtain ⟨-, -, done⟩ := bind_ok done
  obtain ⟨⟨b, src'⟩, isRead, done⟩ := bind_ok done
  rw [keeps b src' a rest done]
  exact shrinks src b src' isRead

theorem shrinks_readVariant : Shrinks readVariant :=
  fun _ _ _ read => Nat.le_of_lt (readVariant_shrinks read)

theorem shrinks_readLenDelimited : Shrinks readLenDelimited :=
  fun _ _ _ read => Nat.le_of_lt (readLenDelimited_shrinks read)

theorem shrinks_getU32Le : Shrinks getU32Le := by
  intro src n rest done
  obtain ⟨⟨bytes, src'⟩, split, done⟩ := bind_ok done
  cases done
  exact splitTo_shrinks split

theorem shrinks_getU64Le : Shrinks getU64Le := by
  intro src n rest done
  obtain ⟨⟨bytes, src'⟩, split, done⟩ := bind_ok done
  cases done
  exact splitTo_shrinks split

theorem shrinks_getI32Le : Shrinks getI32Le := by
  intro src n rest done
  obtain ⟨⟨bits, src'⟩, read, done⟩ := bind_ok done
  cases done
  exact shrinks_getU32Le _ _ _ read

theorem shrinks_getI64Le : Shrinks getI64Le := by
  intro src n rest done
  obtain ⟨⟨bits, src'⟩, read, done⟩ := bind_ok done
  cases done
  exact shrinks_getU64Le _ _ _ read

/-- A value takes no bytes that are not there. -/
theorem shrinks_decodeScalarValue (kind : GrpcValueKind) (wireType : WireType) :
    Shrinks (decodeScalarValue rt kind wireType) := by
  intro src v rest done
  cases kind
  -- one case for each of the reads that the kinds share
  case bool | int32 | int64 | uint32 | uint64 | sint32 | sint64 | enum =>
    rw [decodeScalarValue] at done
    exact rest_le shrinks_readVariant (by rintro b src a rest ⟨⟩; rfl) done
  case string | bytes =>
    rw [decodeScalarValue] at done
    exact rest_le shrinks_readLenDelimited (by rintro b src a rest ⟨⟩; rfl) done
  case fixed32 | float =>
    rw [decodeScalarValue] at done
    obtain ⟨-, -, done⟩ := bind_ok done
    exact rest_le shrinks_getU32Le (by rintro b src a rest ⟨⟩; rfl) done
  case sfixed32 =>
    rw [decodeScalarValue] at done
    obtain ⟨-, -, done⟩ := bind_ok done
    exact rest_le shrinks_getI32Le (by rintro b src a rest ⟨⟩; rfl) done
  case fixed64 | double =>
    rw [decodeScalarValue] at done
    obtain ⟨-, -, done⟩ := bind_ok done
    exact rest_le shrinks_getU64Le (by rintro b src a rest ⟨⟩; rfl) done
  case sfixed64 =>
    rw [decodeScalarValue] at done
    obtain ⟨-, -, done⟩ := bind_ok done
    exact rest_le shrinks_getI64Le (by rintro b src a rest ⟨⟩; rfl) done
  case message msg =>
    obtain ⟨fields⟩ := msg
    rw [decodeScalarValue] at done
    refine rest_le shrinks_readLenDelimited ?_ done
    -- the nested loop runs on the payload, not on what is behind it
    intro bytes src a rest nested
    obtain ⟨value, -, nested⟩ := bind_ok nested
    cases nested
    rfl

/-- Nor does a key. -/
theorem shrinks_decodeMapKey (kind : Kind) (wireType : WireType) :
    Shrinks (decodeMapKey rt kind wireType) := by
  intro src key rest done
  cases kind
  case int32 | sint32 | sfixed32 | int64 | sint64 | sfixed64 | uint32 | fixed32 | uint64 | fixed64 |
      bool =>
    exact rest_le shrinks_readVariant (by rintro b src a rest ⟨⟩; rfl) done
  case string =>
    refine rest_le shrinks_readLenDelimited ?_ done
    intro b src a rest decoded
    dsimp only at decoded
    split at decoded
    · cases decoded
      rfl
    · cases decoded
  -- such keys are refused
  case double | float | bytes | message | enum => cases done

/-- Every record of a map entry takes its tag off the buffer. -/
theorem progress_mapEntryStep (keyKind : Kind) {decodeValue : ValueDecoder}
    (shrinks : ∀ wireType, Shrinks (decodeValue wireType)) :
    Progress (mapEntryStep rt keyKind decodeValue) := by
  intro entry src entry' rest done
  obtain ⟨⟨n, wireType, src'⟩, tag, done⟩ := bind_ok done
  -- the tag is read in any case, and nothing after it gives bytes back
  have shorter := readTag_shrinks tag
  dsimp only at done
  split at done
  · obtain ⟨⟨key, src''⟩, isKey, done⟩ := bind_ok done
    cases done
    have less := shrinks_decodeMapKey rt keyKind wireType _ _ _ isKey
    exact Nat.lt_of_le_of_lt less shorter
  · split at done
    · obtain ⟨⟨value, src''⟩, isValue, done⟩ := bind_ok done
      cases done
      have less := shrinks wireType _ _ _ isValue
      exact Nat.lt_of_le_of_lt less shorter
    · obtain ⟨src'', skipped, done⟩ := bind_ok done
      cases done
      have less := skipValue_shrinks skipped
      omega

/-- Nor does a field. -/
theorem shrinks_decodeFieldInto (name : String) (shape : GrpcFieldShape) (wireType : WireType)
    (out : ObjectMap) : Shrinks (decodeFieldInto rt name shape wireType out) := by
  intro src out' rest done
  cases shape with
  | scalar kind =>
    rw [decodeFieldInto] at done
    obtain ⟨⟨v, src'⟩, read, done⟩ := bind_ok done
    obtain ⟨out'', -, done⟩ := bind_ok done
    cases done
    exact shrinks_decodeScalarValue rt kind wireType _ _ _ read
  | list kind =>
    rw [decodeFieldInto] at done
    obtain ⟨⟨v, src'⟩, read, done⟩ := bind_ok done
    obtain ⟨out'', -, done⟩ := bind_ok done
    cases done
    -- packed, the payload is taken whole; else one element
    unfold decodeList at read
    split at read
    · obtain ⟨⟨bytes, src'⟩, payload, read⟩ := bind_ok read
      obtain ⟨items, -, read⟩ := bind_ok read
      cases read
      exact shrinks_readLenDelimited _ _ _ payload
    · obtain ⟨⟨item, src'⟩, payload, read⟩ := bind_ok read
      cases read
      exact shrinks_decodeScalarValue rt kind wireType _ _ _ payload
  | map keyKind valueKind =>
    rw [decodeFieldInto] at done
    obtain ⟨-, -, done⟩ := bind_ok done
    obtain ⟨⟨bytes, src'⟩, read, done⟩ := bind_ok done
    obtain ⟨⟨k, v⟩, -, done⟩ := bind_ok done
    have less := shrinks_readLenDelimited _ _ _ read
    dsimp only at done
    split at done <;> cases done <;> exact less

/-- Every record of a message takes its tag off the buffer. -/
theorem progress_messageStep {numbered : UInt32 → Option FieldDecoder}
    (shrinks : ∀ n decode, numbered n = some decode → ∀ wireType out,
      Shrinks (decode wireType out)) : Progress (messageStep numbered) := by
  intro out src out' rest done
  obtain ⟨⟨n, wireType, src'⟩, tag, done⟩ := bind_ok done
  -- the same argument with any decoders of fields
  have shorter := readTag_shrinks tag
  dsimp only at done
  split at done
  · obtain ⟨src'', skipped, done⟩ := bind_ok done
    cases done
    have less := skipValue_shrinks skipped
    omega
  next decode found =>
    have less := shrinks n decode found wireType out _ _ _ done
    omega

theorem progress_decodeNumbered (fields : List GrpcInputFieldMeta) :
    Progress (messageStep (decodeNumbered rt fields)) := by
  apply progress_messageStep
  intro n decode found wireType out
  rw [decodeNumbered_eq, Option.map_eq_some_iff] at found
  obtain ⟨⟨name, shape⟩, -, rfl⟩ := found
  exact shrinks_decodeFieldInto rt name shape wireType out

/-- The loop ends, as a tag takes at least one byte. -/
theorem progress_decodeIndexed (method : GrpcMethod) :
    Progress (messageStep (decodeIndexed rt method)) := by
  apply progress_messageStep
  intro n decode found wireType out
  rw [decodeIndexed, Option.map_eq_some_iff] at found
  obtain ⟨idx, -, rfl⟩ := found
  intro src out' rest done
  dsimp only at done
  split at done
  -- a panic is no step
  · cases done
  · exact shrinks_decodeFieldInto rt _ _ wireType out src out' rest done

end Wrkr.Grpc.Wire
