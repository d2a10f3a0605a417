import Wrkr.Grpc.Wire.Coerce

/-!
# Encoding messages

The encoder walks the value and looks the fields up by name. It is defined by recursion on the
schema: `encodeNamed` turns a list of fields into the lookup of their encoders, in the order in
which the fields were inserted into the map (`encodeNamed_eq`), so that a nested message only
refers to the fields inside it. Every function returns the bytes it appends to the buffer.
-/
namespace Wrkr.Grpc.Wire

open Wrkr.Lib

variable (rt : Runtime)

/-- How a kind is written. -/
def wireTypeForKind : GrpcValueKind → WireType
  | .bool | .int32 | .sint32 | .int64 | .sint64 | .uint32 | .uint64 | .enum _ => .varint
  | .fixed32 | .sfixed32 | .float => .thirtyTwoBit
  | .fixed64 | .sfixed64 | .double => .sixtyFourBit
  | .string | .bytes | .message _ => .len

/-- A loop that appends the bytes of each element, and stops at the first error. -/
def concatM {α : Type} (f : α → Except String Bytes) : List α → Except String Bytes
  | [] => .ok []
  | x :: rest => do
    let first ← f x
    let later ← concatM f rest
    .ok (first ++ later)

/-! ### Map entries -/

/-- The key of an entry as field 1. Signed keys are written as plain varints, also where the kind is
a zigzag one. -/
def encodeMapKey (kind : Kind) (key : MapKey) : Except String Bytes :=
  match kind with
  | .string =>
    match key with
    | .string s => .ok (writeTag 1 .len ++ writeLenDelimited (asBytes s))
    | _ => .error "map key must be a string"
  | .bool =>
    match key with
    | .bool b => .ok (writeTag 1 .varint ++ writeVariant (if b then 1 else 0))
    | _ => .error "map key must be boolean"
  | .int32 | .sint32 | .sfixed32 | .int64 | .sint64 | .sfixed64 => do
    let n ← mapKeyToI64 key
    .ok (writeTag 1 .varint ++ writeVariant n.toUInt64)
  | .uint32 | .fixed32 | .uint64 | .fixed64 => do
    let n ← mapKeyToU64 key
    .ok (writeTag 1 .varint ++ writeVariant n)
  | other => .error ("unsupported map key type for proto kind " ++ rt.debugKind other)

/-- `encodeValue` writes the value as field 2 of the entry. -/
def encodeMapEntry (fieldNumber : UInt32) (keyKind : Kind)
    (encodeValue : Value → Except String Bytes) (key : MapKey) (value : Value) :
    Except String Bytes := do
  let keyBytes ← encodeMapKey rt keyKind key
  let valueBytes ← encodeValue value
  .ok (writeTag fieldNumber .len ++ writeLenDelimited (keyBytes ++ valueBytes))

/-! ### Fields and messages -/

/-- The number written for an enum: a name, or any integer. -/
def enumNumber (desc : EnumDescriptor) : Value → Int64
  | .string s => ((desc.getValueByName s).map fun v => v.number.toInt64).getD 0
  | .i64 i => i
  | .u64 u => u.toInt64
  | _ => 0

/-- Every entry must name a field. Anything but an object is refused. -/
def encodeMessageWith (named : String → Option (Value → Except String Bytes)) (value : Value) :
    Except String Bytes :=
  let encodeEntry (name : String) (v : Value) : Except String Bytes :=
    match named name with
    | none => .error ("unknown field '" ++ name ++ "'")
    | some encode => encode v
  match value with
  | .object m => concatM (fun (name, v) => encodeEntry name v) m
  | .map m =>
    concatM (fun (k, v) =>
      match k with
      | .string name => encodeEntry name v
      | _ => .error "message expects string field names") m
  | _ => .error "message must be an object"

mutual

/-- The value is coerced to its kind and written behind its tag. -/
def encodeScalarField (fieldNumber : UInt32) (kind : GrpcValueKind) (value : Value) :
    Except String Bytes :=
  let tag := writeTag fieldNumber (wireTypeForKind kind)
  match kind with
  | .bool => .ok (tag ++ writeVariant (if toBool value then 1 else 0))
  | .string => .ok (tag ++ writeLenDelimited (asBytes (toStringLossy rt value)))
  | .bytes => .ok (tag ++ writeLenDelimited (toBytesLossy value))
  | .int32 | .int64 => do
    let n ← toI64 rt value
    .ok (tag ++ writeVariant n.toUInt64)
  | .uint32 | .uint64 => do
    let n ← toU64 rt value
    .ok (tag ++ writeVariant n)
  | .sint32 | .sint64 => do
    let n ← toI64 rt value
    .ok (tag ++ writeVariant (encodeZigzag64 n))
  -- the fixed widths cut what does not fit
  | .fixed32 => do
    let n ← toU64 rt value
    .ok (tag ++ putU32Le n.toUInt32)
  | .sfixed32 => do
    let n ← toI64 rt value
    .ok (tag ++ putI32Le n.toInt32)
  | .float => do
    let f ← toF64 rt value
    .ok (tag ++ putU32Le (rt.narrow f))
  | .fixed64 => do
    let n ← toU64 rt value
    .ok (tag ++ putU64Le n)
  | .sfixed64 => do
    let n ← toI64 rt value
    .ok (tag ++ putI64Le n)
  | .double => do
    let f ← toF64 rt value
    .ok (tag ++ putU64Le f)
  | .enum desc => .ok (tag ++ writeVariant (enumNumber desc value).toUInt64)
  -- a nested message is encoded on its own and written with its length
  | .message (.mk fields) => do
    let buf ← encodeMessageWith (encodeNamed fields) value
    .ok (tag ++ writeLenDelimited buf)

/-- A list is written as one record for each item, a map as one for each entry. -/
def encodeField (field : FieldDescriptor) (shape : GrpcFieldShape) (value : Value) :
    Except String Bytes :=
  if field.number = 0 then .error ("invalid field number for '" ++ field.name ++ "'")
  else
    match shape with
    | .scalar kind => encodeScalarField field.number kind value
    | .list kind =>
      match value with
      | .array items => concatM (fun item => encodeScalarField field.number kind item) items
      | _ => .error ("field '" ++ field.name ++ "' must be an array")
    | .map keyKind valueKind =>
      let encodeEntry (k : MapKey) (v : Value) : Except String Bytes :=
        encodeMapEntry rt field.number keyKind (fun v => encodeScalarField 2 valueKind v) k v
      match value with
      | .object m => concatM (fun (k, v) => encodeEntry (.string k) v) m
      | .map m => concatM (fun (k, v) => encodeEntry k v) m
      | _ => .error ("field '" ++ field.name ++ "' must be a map/object")

/-- The encoder of the field that a lookup by name finds. -/
def encodeNamed (fields : List GrpcInputFieldMeta) (name : String) :
    Option (Value → Except String Bytes) :=
  match fields with
  | [] => none
  | .mk field shape :: rest =>
    (encodeNamed rest name).or
      (if field.name = name then some fun value => encodeField field shape value else none)

end

/-- `encode_message` over the map of the fields by name. -/
def encodeMessage (fields : List GrpcInputFieldMeta) (value : Value) : Except String Bytes :=
  encodeMessageWith (encodeNamed rt fields) value

def encodeValueForMethod (method : GrpcMethod) (value : Value) : Except String Bytes :=
  encodeMessage rt method.inputFields value

/-- Of several fields with one name the last one counts. -/
theorem encodeNamed_eq_lastWith (fields : List GrpcInputFieldMeta) (name : String) :
    encodeNamed rt fields name =
      (HashTable.lastWith (fun entry => entry.field.name) name fields).map fun entry =>
        encodeField rt entry.field entry.shape := by
  induction fields with
  | nil => simp [encodeNamed, HashTable.lastWith]
  | cons entry rest ih =>
    obtain ⟨field, shape⟩ := entry
    rw [encodeNamed, ih, HashTable.lastWith, Option.map_or]
    by_cases here : field.name = name <;> simp [here]

/-- The lookup by name goes through the map that `build_message_meta` fills. -/
theorem encodeNamed_eq (fields : List GrpcInputFieldMeta) (name : String) :
    encodeNamed rt fields name =
      ((fieldsByName fields).get? name).map fun entry => encodeField rt entry.field entry.shape := by
  have filled := HashTable.get?_foldl_insert (fun entry : GrpcInputFieldMeta => entry.field.name)
    (fun entry => entry) fields HashTable.empty name
  rw [encodeNamed_eq_lastWith, fieldsByName, filled]
  simp

theorem encodeScalarField_message (fieldNumber : UInt32) (msg : GrpcMessageMeta) (value : Value) :
    encodeScalarField rt fieldNumber (.message msg) value =
      (encodeMessage rt msg.fields value).bind fun buf =>
        .ok (writeTag fieldNumber .len ++ writeLenDelimited buf) := by
  obtain ⟨fields⟩ := msg
  rw [encodeScalarField]
  rfl

end Wrkr.Grpc.Wire
