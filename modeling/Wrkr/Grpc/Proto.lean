import Mathlib.Data.List.Induction
import Wrkr.Lib.HashTable

/-!
# Message schemas

What the codec knows of a message: the shape of each field, with the metas of nested messages in
place. Both maps of a `GrpcMessageMeta` are filled by one loop over the fields of the descriptor,
so the meta is kept as that list of fields, and a lookup finds the last field inserted under a name
or a number. Descriptors of `prost_reflect` are modelled by what is asked of them; a schema is a
finite tree, since `build_message_meta` rejects recursive messages.
-/
namespace Wrkr.Grpc

open Wrkr.Lib

structure EnumValueDescriptor where
  name : String
  number : Int32
  deriving DecidableEq, Repr

/-- The names of an enum are distinct; of several values with one number it is not specified which
one `get_value` returns. -/
structure EnumDescriptor where
  values : List EnumValueDescriptor
  getValue : Int32 → Option EnumValueDescriptor
  distinct : (values.map EnumValueDescriptor.name).Nodup
  getValue_some : ∀ n v, getValue n = some v → v ∈ values ∧ v.number = n
  getValue_none : ∀ n, getValue n = none → ∀ v ∈ values, v.number ≠ n

namespace EnumDescriptor

/-- Of several values with the name the last one. -/
def getValueByName (desc : EnumDescriptor) (name : String) : Option EnumValueDescriptor :=
  HashTable.lastWith EnumValueDescriptor.name name desc.values

theorem getValueByName_of_mem {desc : EnumDescriptor} {v : EnumValueDescriptor}
    (member : v ∈ desc.values) : desc.getValueByName v.name = some v :=
  HashTable.lastWith_of_nodup EnumValueDescriptor.name desc.distinct member

/-- An enum without aliases, whose `get_value` needs no choice. -/
def ofValues (values : List EnumValueDescriptor)
    (distinct : (values.map EnumValueDescriptor.name).Nodup) : EnumDescriptor where
  values
  getValue n := values.find? fun v => v.number = n
  distinct
  getValue_some n v found :=
    ⟨List.mem_of_find?_eq_some found, by simpa using List.find?_some found⟩
  getValue_none n absent v member := by simpa using List.find?_eq_none.mp absent v member

end EnumDescriptor

structure MessageDescriptor where
  fullName : String
  deriving DecidableEq, Repr

/-- `prost_reflect::Kind`. -/
inductive Kind
  | double
  | float
  | int32
  | int64
  | uint32
  | uint64
  | sint32
  | sint64
  | fixed32
  | fixed64
  | sfixed32
  | sfixed64
  | bool
  | string
  | bytes
  | message (desc : MessageDescriptor)
  | enum (desc : EnumDescriptor)

/-- Name and number of a field. -/
structure FieldDescriptor where
  name : String
  number : UInt32
  deriving DecidableEq, Repr

mutual

/-- One value, many, or a map. -/
inductive GrpcFieldShape
  | scalar (kind : GrpcValueKind)
  | list (kind : GrpcValueKind)
  | map (keyKind : Kind) (valueKind : GrpcValueKind)

/-- The kinds of values; a message carries its own shape. -/
inductive GrpcValueKind
  | bool
  | string
  | bytes
  | int32
  | sint32
  | sfixed32
  | int64
  | sint64
  | sfixed64
  | uint32
  | fixed32
  | uint64
  | fixed64
  | float
  | double
  | enum (desc : EnumDescriptor)
  | message (msg : GrpcMessageMeta)

inductive GrpcInputFieldMeta
  | mk (field : FieldDescriptor) (shape : GrpcFieldShape)

inductive GrpcMessageMeta
  | mk (fields : List GrpcInputFieldMeta)

end

namespace GrpcInputFieldMeta

def field : GrpcInputFieldMeta → FieldDescriptor
  | .mk field _ => field

def shape : GrpcInputFieldMeta → GrpcFieldShape
  | .mk _ shape => shape

@[simp] theorem field_mk (f : FieldDescriptor) (s : GrpcFieldShape) : (mk f s).field = f := rfl

@[simp] theorem shape_mk (f : FieldDescriptor) (s : GrpcFieldShape) : (mk f s).shape = s := rfl

theorem eta (entry : GrpcInputFieldMeta) : mk entry.field entry.shape = entry := by
  cases entry
  rfl

end GrpcInputFieldMeta

def GrpcMessageMeta.fields : GrpcMessageMeta → List GrpcInputFieldMeta
  | .mk fields => fields

/-- The `HashMap` by name, filled in the order of the fields. -/
def fieldsByName (fields : List GrpcInputFieldMeta) : HashTable String GrpcInputFieldMeta :=
  fields.foldl (fun table entry => table.insert entry.field.name entry) HashTable.empty

/-- The `HashMap` by number, which leaves fields without a number out. -/
def fieldsByNumber (fields : List GrpcInputFieldMeta) :
    HashTable UInt32 (String × GrpcFieldShape) :=
  fields.foldl (fun table entry =>
    if entry.field.number ≠ 0 then table.insert entry.field.number (entry.field.name, entry.shape)
    else table) HashTable.empty

/-- A field of the output, which is found by its number. -/
structure GrpcOutputFieldMeta where
  field : FieldDescriptor
  name : String
  shape : GrpcFieldShape

/-- The shapes of both sides of a method, and where to find an output field. -/
structure GrpcMethod where
  inputFields : List GrpcInputFieldMeta
  outputFields : List GrpcOutputFieldMeta
  outputFieldIndexByNumber : HashTable UInt32 Nat

/-- The end of `ProtoSchema::method`, once the shapes of both messages are built. -/
def GrpcMethod.new (input output : List GrpcInputFieldMeta) : GrpcMethod :=
  let outputFields := output.map fun entry => ⟨entry.field, entry.field.name, entry.shape⟩
  { inputFields := input
    outputFields
    outputFieldIndexByNumber := outputFields.zipIdx.foldl (fun table (entry, idx) =>
      if entry.field.number ≠ 0 then table.insert entry.field.number idx else table)
      HashTable.empty }

/-- The index that the loop over the output fields fills: under a number, the place of the last
field that has it. -/
theorem get?_indexByNumber (outputFields : List GrpcOutputFieldMeta) (number : UInt32) (idx : Nat) :
    (outputFields.zipIdx.foldl (fun table (entry, idx) =>
        if entry.field.number ≠ 0 then table.insert entry.field.number idx else table)
        HashTable.empty).get? number = some idx ↔
      number ≠ 0 ∧ (∃ entry, outputFields[idx]? = some entry ∧ entry.field.number = number) ∧
        ∀ later entry, idx < later → outputFields[later]? = some entry →
          entry.field.number ≠ number := by
  -- by induction from the end: the last field overwrites what the ones before it left
  induction outputFields using List.reverseRecOn with
  | nil => simp
  | append_singleton fields last ih =>
    have places (place : Nat) (entry : GrpcOutputFieldMeta) :
        (fields ++ [last])[place]? = some entry ↔
          fields[place]? = some entry ∨ place = fields.length ∧ last = entry := by
      rcases Nat.lt_trichotomy place fields.length with before | rfl | after
      · simp [List.getElem?_append_left before, before.ne]
      · simp
      · have past : fields.length ≤ place := after.le
        simp [List.getElem?_append_right past, List.getElem?_eq_none past, after.ne',
          Nat.sub_ne_zero_of_lt after]
    have low {place : Nat} {entry : GrpcOutputFieldMeta} (found : fields[place]? = some entry) :
        place < fields.length := (List.getElem?_eq_some_iff.mp found).1
    rw [List.zipIdx_append, List.foldl_append]
    simp only [List.zipIdx_singleton, List.foldl_cons, List.foldl_nil, Nat.zero_add, places]
    by_cases here : last.field.number = number ∧ number ≠ 0
    · obtain ⟨rfl, nonzero⟩ := here
      rw [if_pos nonzero, HashTable.get?_insert_self, Option.some.injEq]
      constructor
      · rintro rfl
        refine ⟨nonzero, ⟨last, .inr ⟨rfl, rfl⟩, rfl⟩, fun later entry after found => ?_⟩
        rcases found with old | ⟨rfl, -⟩
        · exact absurd (low old) (Nat.not_lt.mpr after.le)
        · exact absurd after (Nat.lt_irrefl _)
      · rintro ⟨-, ⟨entry, found, -⟩, isLast⟩
        rcases found with old | ⟨rfl, -⟩
        · exact absurd rfl (isLast _ last (low old) (.inr ⟨rfl, rfl⟩))
        · rfl
    · have kept (table : HashTable UInt32 Nat) :
          (if last.field.number ≠ 0 then table.insert last.field.number fields.length
            else table).get? number = table.get? number := by
        split
        next numbered =>
          refine HashTable.get?_insert_of_ne _ _ fun same => here ⟨same.symm, ?_⟩
          rwa [same]
        next => rfl
      rw [kept, ih]
      refine and_congr_right fun nonzero => ?_
      have other : last.field.number ≠ number := fun same => here ⟨same, nonzero⟩
      constructor
      · rintro ⟨⟨entry, found, isNumber⟩, isLast⟩
        refine ⟨⟨entry, .inl found, isNumber⟩, fun later entry' after found' => ?_⟩
        rcases found' with old | ⟨-, rfl⟩
        · exact isLast later entry' after old
        · exact other
      · rintro ⟨⟨entry, found, isNumber⟩, isLast⟩
        rcases found with old | ⟨-, rfl⟩
        · exact ⟨⟨entry, old, isNumber⟩, fun later entry' after found' =>
            isLast later entry' after (.inl found')⟩
        · exact absurd isNumber other

/-! ### Schemas of the protobuf language -/

/-- Names and numbers of the fields are unique, and every field has a number. -/
structure UniqueFields (fields : List GrpcInputFieldMeta) : Prop where
  names : (fields.map fun entry => entry.field.name).Nodup
  numbers : (fields.map fun entry => entry.field.number).Nodup
  positive : ∀ entry ∈ fields, entry.field.number ≠ 0

mutual

/-- The fields of the message and of all messages inside it are unique. -/
def GrpcMessageMeta.Unique : GrpcMessageMeta → Prop
  | .mk fields => UniqueFields fields ∧ uniqueShapes fields

/-- No two fields share a name or a number, at any depth. -/
def GrpcFieldShape.Unique : GrpcFieldShape → Prop
  | .scalar kind => kind.Unique
  | .list kind => kind.Unique
  | .map _ valueKind => valueKind.Unique

def GrpcValueKind.Unique : GrpcValueKind → Prop
  | .message msg => msg.Unique
  | _ => True

def uniqueShapes : List GrpcInputFieldMeta → Prop
  | [] => True
  | .mk _ shape :: rest => shape.Unique ∧ uniqueShapes rest

end

/-- Then it holds of every field. -/
theorem unique_of_mem {fields : List GrpcInputFieldMeta} (unique : uniqueShapes fields)
    {entry : GrpcInputFieldMeta} (member : entry ∈ fields) : entry.shape.Unique := by
  induction fields with
  | nil => simp at member
  | cons first rest ih =>
    obtain ⟨field, shape⟩ := first
    rw [uniqueShapes] at unique
    rw [List.mem_cons] at member
    rcases member with rfl | later
    · exact unique.1
    · exact ih unique.2 later

end Wrkr.Grpc
