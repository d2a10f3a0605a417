import Wrkr.Grpc.Wire.RoundTrip

/-!
# Messages as scripts write them

A script knows no schema: its integers are signed, its texts and its bytes are strings, and a key
that is not negative is unsigned. `Sendable` says which values of this kind fit a schema. The
encoder reads such a value as the kinds of the fields say, and writes the same bytes as for
`arrived`, which is canonical.
-/
namespace Wrkr.Grpc.Wire

open Wrkr.Lib

/-- The kinds of keys that are decoded as signed numbers. -/
def signedKey : Kind → Bool
  | .int32 | .sint32 | .sfixed32 | .int64 | .sint64 | .sfixed64 => true
  | _ => false

def unsignedKey : Kind → Bool
  | .uint32 | .fixed32 | .uint64 | .fixed64 => true
  | _ => false

/-- A key of a script for a map with such keys. -/
inductive SendableKey : Kind → MapKey → Prop
  | bool (b : Bool) : SendableKey .bool (.bool b)
  | nonneg {kind : Kind} {i : Int64} (number : signedKey kind ∨ unsignedKey kind) (sign : 0 ≤ i) :
      SendableKey kind (.u64 i.toUInt64)
  | negative {kind : Kind} {i : Int64} (number : signedKey kind) (sign : ¬0 ≤ i) :
      SendableKey kind (.i64 i)

mutual

/-- A value of a script for a field of the kind. -/
inductive Sendable (floats : UInt64 → Prop) : GrpcValueKind → Value → Prop
  | bool (b : Bool) : Sendable floats .bool (.bool b)
  | string (s : String) : Sendable floats .string (.string s)
  | bytes (s : String) : Sendable floats .bytes (.string s)
  | int32 (i : Int64) : Sendable floats .int32 (.i64 i)
  | int64 (i : Int64) : Sendable floats .int64 (.i64 i)
  | sint32 (i : Int64) : Sendable floats .sint32 (.i64 i)
  | sint64 (i : Int64) : Sendable floats .sint64 (.i64 i)
  | sfixed32 (i : Int32) : Sendable floats .sfixed32 (.i64 i.toInt64)
  | sfixed64 (i : Int64) : Sendable floats .sfixed64 (.i64 i)
  | uint32 {i : Int64} (sign : 0 ≤ i) : Sendable floats .uint32 (.i64 i)
  | uint64 {i : Int64} (sign : 0 ≤ i) : Sendable floats .uint64 (.i64 i)
  | fixed32 {i : Int64} (sign : 0 ≤ i) (u : UInt32) (value : i.toUInt64 = u.toUInt64) :
      Sendable floats .fixed32 (.i64 i)
  | fixed64 {i : Int64} (sign : 0 ≤ i) : Sendable floats .fixed64 (.i64 i)
  | float {bits : UInt64} (allowed : floats bits) : Sendable floats .float (.f64 bits)
  | double (bits : UInt64) : Sendable floats .double (.f64 bits)
  | enumName {desc : EnumDescriptor} {n : Int32} {v : EnumValueDescriptor}
      (declared : desc.getValue n = some v) : Sendable floats (.enum desc) (.string v.name)
  | enumNumber {desc : EnumDescriptor} {n : Int32} (undeclared : desc.getValue n = none) :
      Sendable floats (.enum desc) (.i64 n.toInt64)
  | message {fields : List GrpcInputFieldMeta} {entries : List (String × Value)}
      (distinct : (entries.map Prod.fst).Nodup)
      (each : ∀ e ∈ entries, SendableEntry floats fields e.1 e.2) :
      Sendable floats (.message (.mk fields)) (.object entries)

inductive SendableEntry (floats : UInt64 → Prop) :
    List GrpcInputFieldMeta → String → Value → Prop
  | mk {fields : List GrpcInputFieldMeta} {field : FieldDescriptor} {shape : GrpcFieldShape}
      {v : Value} (declared : .mk field shape ∈ fields) (sendable : SendableField floats shape v) :
      SendableEntry floats fields field.name v

/-- A map with text keys is an object for a script. -/
inductive SendableField (floats : UInt64 → Prop) : GrpcFieldShape → Value → Prop
  | scalar {kind : GrpcValueKind} {v : Value} (sendable : Sendable floats kind v) :
      SendableField floats (.scalar kind) v
  | list {kind : GrpcValueKind} {items : List Value} (some : items ≠ [])
      (each : ∀ item ∈ items, Sendable floats kind item) :
      SendableField floats (.list kind) (.array items)
  | texts {valueKind : GrpcValueKind} {entries : List (String × Value)} (some : entries ≠ [])
      (distinct : (entries.map Prod.fst).Nodup)
      (values : ∀ e ∈ entries, Sendable floats valueKind e.2) :
      SendableField floats (.map .string valueKind) (.object entries)
  | map {keyKind : Kind} {valueKind : GrpcValueKind} {entries : List (MapKey × Value)}
      (some : entries ≠ []) (distinct : (entries.map Prod.fst).Nodup)
      (keys : ∀ e ∈ entries, SendableKey keyKind e.1)
      (values : ∀ e ∈ entries, Sendable floats valueKind e.2) :
      SendableField floats (.map keyKind valueKind) (.map entries)

end

/-! ### What arrives -/

def arrivedKey (kind : Kind) : MapKey → MapKey
  | .u64 u => if signedKey kind then .i64 u.toInt64 else .u64 u
  | key => key

mutual

/-- What is read at the other end of a sendable value. -/
def arrived : GrpcValueKind → Value → Value
  | .bytes, .string s => .bytes (asBytes s)
  | .uint32, .i64 i | .uint64, .i64 i | .fixed32, .i64 i | .fixed64, .i64 i => .u64 i.toUInt64
  | .message (.mk fields), .object entries =>
    .object (entries.map fun e => (e.1, arrivedNamed fields e.1 e.2))
  | _, v => v

def arrivedShape : GrpcFieldShape → Value → Value
  | .scalar kind, v => arrived kind v
  | .list kind, .array items => .array (items.map fun item => arrived kind item)
  | .map _ valueKind, .object entries =>
    .map (entries.map fun e => (.string e.1, arrived valueKind e.2))
  | .map keyKind valueKind, .map entries =>
    .map (entries.map fun e => (arrivedKey keyKind e.1, arrived valueKind e.2))
  | _, v => v

/-- The field of that name decides. -/
def arrivedNamed : List GrpcInputFieldMeta → String → Value → Value
  | [], _, v => v
  | .mk field shape :: rest, name, v =>
    if field.name = name then arrivedShape shape v else arrivedNamed rest name v

end

/-- With distinct names that is the field itself. -/
theorem arrivedNamed_of_mem {fields : List GrpcInputFieldMeta}
    (names : (fields.map fun entry => entry.field.name).Nodup) {entry : GrpcInputFieldMeta}
    (member : entry ∈ fields) (v : Value) :
    arrivedNamed fields entry.field.name v = arrivedShape entry.shape v := by
  induction fields with
  | nil => simp at member
  | cons first rest ih =>
    obtain ⟨field, shape⟩ := first
    rw [List.map_cons, List.nodup_cons] at names
    rw [List.mem_cons] at member
    rcases member with rfl | later
    · rw [arrivedNamed]
      exact if_pos rfl
    · have other : field.name ≠ entry.field.name := fun same =>
        names.1 (same ▸ List.mem_map_of_mem later)
      rw [arrivedNamed, if_neg other, ih names.2 later]

/-! ### Keys -/

theorem arrivedKey_of_nonneg {kind : Kind} (number : unsignedKey kind) (u : UInt64) :
    arrivedKey kind (.u64 u) = .u64 u := by
  cases kind <;> first | rfl | cases number

/-- The key that arrives is canonical. -/
theorem SendableKey.canonical {kind : Kind} {key : MapKey} (sendable : SendableKey kind key) :
    CanonicalKey kind (arrivedKey kind key) := by
  cases sendable with
  | bool b => exact .bool b
  | nonneg number sign =>
    rcases number with signed | unsigned
    · rw [arrivedKey, if_pos signed]
      cases kind <;> first | constructor | cases signed
    · rw [arrivedKey_of_nonneg unsigned]
      cases kind <;> first | constructor | cases unsigned
  | @negative _ i signed sign =>
    change CanonicalKey kind (.i64 i)
    cases kind <;> first | constructor | cases signed

/-- The encoder writes a key as it writes the key that arrives. -/
theorem SendableKey.encodes (rt : Runtime) {kind : Kind} {key : MapKey}
    (sendable : SendableKey kind key) :
    encodeMapKey rt kind key = encodeMapKey rt kind (arrivedKey kind key) := by
  cases sendable with
  | bool b => rfl
  | nonneg number sign =>
    rcases number with signed | unsigned
    · rw [arrivedKey, if_pos signed]
      cases kind <;> first | rfl | cases signed
    · rw [arrivedKey_of_nonneg unsigned]
  | negative signed sign => rfl

/-- The keys of a map stay apart. -/
theorem SendableKey.inj {kind : Kind} {key key' : MapKey} (sendable : SendableKey kind key)
    (sendable' : SendableKey kind key') (same : arrivedKey kind key = arrivedKey kind key') :
    key = key' := by
  cases sendable with
  | bool b =>
    cases sendable' with
    | bool b' => exact same
    | nonneg number _ => rcases number with number | number <;> cases number
    | negative number _ => cases number
  | @nonneg _ i number sign =>
    cases sendable' with
    | bool b' => rcases number with number | number <;> cases number
    | @nonneg _ i' number' sign' =>
      cases signed : signedKey kind <;> simp only [arrivedKey, signed, if_true, if_false,
        Bool.false_eq_true, MapKey.i64.injEq, MapKey.u64.injEq] at same
      · rw [same]
      -- an unsigned kind keeps all 64 bits
      · rw [← UInt64.toUInt64_toInt64 i.toUInt64, ← UInt64.toUInt64_toInt64 i'.toUInt64, same]
    | @negative _ i' signed sign' =>
      simp only [arrivedKey, signed, if_true, MapKey.i64.injEq] at same
      -- a key that is negative and one that is not
      exact absurd (same ▸ sign) sign'
  | @negative _ i signed sign =>
    cases sendable' with
    | bool b' => cases signed
    | @nonneg _ i' number' sign' =>
      simp only [arrivedKey, signed, if_true, MapKey.i64.injEq] at same
      exact absurd (same ▸ sign') sign
    | negative _ _ => exact same

/-! ### Values -/

theorem concatM_congr {α : Type} {f g : α → Except String Bytes} {xs : List α}
    (each : ∀ x ∈ xs, f x = g x) : concatM f xs = concatM g xs := by
  induction xs with
  | nil => rfl
  | cons x rest ih =>
    rw [concatM, concatM, each x (List.mem_cons_self ..),
      ih fun y member => each y (List.mem_cons_of_mem _ member)]

theorem concatM_map {α β : Type} (f : β → Except String Bytes) (g : α → β) (xs : List α) :
    concatM f (xs.map g) = concatM (fun x => f (g x)) xs := by
  induction xs with
  | nil => rfl
  | cons x rest ih => rw [List.map_cons, concatM, concatM, ih]

section Arrives

variable (rt : Runtime)

/-- What arrives of an element is canonical, and written alike. -/
structure Arrives (kind : GrpcValueKind) (v : Value) : Prop where
  canonical : Canonical rt.Wide kind (arrived kind v)
  encodes : ∀ n, encodeScalarField rt n kind v = encodeScalarField rt n kind (arrived kind v)

/-- What arrives is canonical, and it is written with the same bytes. -/
structure FieldArrives (shape : GrpcFieldShape) (v : Value) : Prop where
  canonical : CanonicalField rt.Wide shape (arrivedShape shape v)
  encodes : ∀ field, encodeField rt field shape v = encodeField rt field shape (arrivedShape shape v)

/-- The same of an entry of a message. -/
structure EntryArrives (fields : List GrpcInputFieldMeta) (name : String) (v : Value) : Prop where
  canonical : CanonicalEntry rt.Wide fields name (arrivedNamed fields name v)
  encodes : encodeEntry rt fields (name, v) = encodeEntry rt fields (name, arrivedNamed fields name v)

variable {rt}

theorem encodeMessage_arrived {fields : List GrpcInputFieldMeta} {entries : List (String × Value)}
    (each : ∀ e ∈ entries, EntryArrives rt fields e.1 e.2) :
    encodeMessage rt fields (.object entries) =
      encodeMessage rt fields (.object (entries.map fun e => (e.1, arrivedNamed fields e.1 e.2))) := by
  change concatM (encodeEntry rt fields) entries = concatM (encodeEntry rt fields) (entries.map _)
  rw [concatM_map]
  exact concatM_congr fun e member => (each e member).encodes

/-- All entries of a message together. -/
theorem arrives_message {fields : List GrpcInputFieldMeta} {entries : List (String × Value)}
    (distinct : (entries.map Prod.fst).Nodup)
    (each : ∀ e ∈ entries, EntryArrives rt fields e.1 e.2) :
    Arrives rt (.message (.mk fields)) (.object entries) := by
  constructor
  · rw [arrived]
    refine .message (by rwa [List.map_map]) fun e member => ?_
    obtain ⟨e, inside, rfl⟩ := List.mem_map.mp member
    exact (each e inside).canonical
  · intro n
    rw [arrived, encodeScalarField_message, encodeScalarField_message, GrpcMessageMeta.fields,
      encodeMessage_arrived each]

/-- The kinds that are no message, one by one. -/
theorem arrives_plain {kind : GrpcValueKind} {v : Value} (sendable : Sendable rt.Wide kind v)
    (plain : ∀ msg, kind ≠ .message msg) : Arrives rt kind v := by
  cases sendable with
  | message distinct each => exact absurd rfl (plain _)
  | bool b => exact ⟨.bool b, fun _ => rfl⟩
  | string s => exact ⟨.string s, fun _ => rfl⟩
  | bytes s => exact ⟨.bytes _, fun _ => rfl⟩
  | int32 i => exact ⟨.int32 i, fun _ => rfl⟩
  | int64 i => exact ⟨.int64 i, fun _ => rfl⟩
  | sint32 i => exact ⟨.sint32 i, fun _ => rfl⟩
  | sint64 i => exact ⟨.sint64 i, fun _ => rfl⟩
  | sfixed32 i => exact ⟨.sfixed32 i, fun _ => rfl⟩
  | sfixed64 i => exact ⟨.sfixed64 i, fun _ => rfl⟩
  | uint32 sign => exact ⟨.uint32 _, fun _ => rfl⟩
  | uint64 sign => exact ⟨.uint64 _, fun _ => rfl⟩
  | fixed64 sign => exact ⟨.fixed64 _, fun _ => rfl⟩
  | fixed32 sign u value =>
    refine ⟨?_, fun _ => rfl⟩
    rw [arrived, value]
    exact .fixed32 u
  | float allowed => exact ⟨.float allowed, fun _ => rfl⟩
  | double bits => exact ⟨.double bits, fun _ => rfl⟩
  | enumName declared => exact ⟨.enumName declared, fun _ => rfl⟩
  | enumNumber undeclared => exact ⟨.enumNumber undeclared, fun _ => rfl⟩

/-- Item by item. -/
theorem fieldArrives_list {kind : GrpcValueKind} {items : List Value} (nonempty : items ≠ [])
    (each : ∀ item ∈ items, Arrives rt kind item) :
    FieldArrives rt (.list kind) (.array items) := by
  constructor
  · rw [arrivedShape]
    refine .list (by simpa using nonempty) fun item member => ?_
    obtain ⟨item, inside, rfl⟩ := List.mem_map.mp member
    exact (each item inside).canonical
  · intro field
    rw [arrivedShape, encodeField, encodeField]
    split
    · rfl
    · rw [concatM_map]
      exact concatM_congr fun item member => (each item member).encodes field.number

/-- The entries of a map, under the keys that arrive. -/
theorem fieldArrives_entries {keyKind : Kind} {valueKind : GrpcValueKind} {v : Value} {κ : Type}
    {entries : List (κ × Value)} (key : κ → MapKey) (nonempty : entries ≠ [])
    (distinct : (entries.map Prod.fst).Nodup)
    (inj : ∀ e ∈ entries, ∀ e' ∈ entries, key e.1 = key e'.1 → e.1 = e'.1)
    (keys : ∀ e ∈ entries, CanonicalKey keyKind (key e.1))
    (values : ∀ e ∈ entries, Arrives rt valueKind e.2)
    (shape : arrivedShape (.map keyKind valueKind) v =
      .map (entries.map fun e => (key e.1, arrived valueKind e.2)))
    (written : ∀ field : FieldDescriptor, field.number ≠ 0 →
      encodeField rt field (.map keyKind valueKind) v = concatM (fun e =>
        encodeMapEntry rt field.number keyKind
          (fun v => encodeScalarField rt 2 valueKind v) (key e.1) e.2) entries) :
    FieldArrives rt (.map keyKind valueKind) v := by
  have nodup : ((entries.map fun e => (key e.1, arrived valueKind e.2)).map Prod.fst).Nodup := by
    have keysOf : (entries.map fun e => (key e.1, arrived valueKind e.2)).map Prod.fst =
        (entries.map Prod.fst).map key := by
      simp [Function.comp_def]
    rw [keysOf]
    refine distinct.map_on fun k member k' member' same => ?_
    obtain ⟨e, inside, rfl⟩ := List.mem_map.mp member
    obtain ⟨e', inside', rfl⟩ := List.mem_map.mp member'
    exact inj e inside e' inside' same
  constructor
  · rw [shape]
    refine .map (by simpa using nonempty) nodup (fun e member => ?_) fun e member => ?_
    all_goals obtain ⟨e, inside, rfl⟩ := List.mem_map.mp member
    · exact keys e inside
    · exact (values e inside).canonical
  · intro field
    by_cases zero : field.number = 0
    · rw [encodeField, encodeField, if_pos zero, if_pos zero]
    -- entry by entry both are written with the same bytes
    · rw [written field zero, shape, encodeField, if_neg zero]
      dsimp only
      rw [concatM_map]
      refine concatM_congr fun e member => ?_
      simp only [encodeMapEntry, (values e member).encodes 2]

mutual

/-- All kinds of values, by recursion over them. -/
theorem arrives {kind : GrpcValueKind} {v : Value} (sendable : Sendable rt.Wide kind v)
    (unique : kind.Unique) : Arrives rt kind v :=
  match sendable with
  | .message distinct each =>
    arrives_message distinct fun e member => entry_arrives (each e member) unique.1 unique.2
  | plain@(.bool ..) | plain@(.string ..) | plain@(.bytes ..) | plain@(.int32 ..)
  | plain@(.int64 ..) | plain@(.sint32 ..) | plain@(.sint64 ..) | plain@(.sfixed32 ..)
  | plain@(.sfixed64 ..) | plain@(.uint32 ..) | plain@(.uint64 ..) | plain@(.fixed32 ..)
  | plain@(.fixed64 ..) | plain@(.float ..) | plain@(.double ..) | plain@(.enumName ..)
  | plain@(.enumNumber ..) => arrives_plain plain (by rintro _ ⟨⟩)

/-- An entry belongs to one field. -/
theorem entry_arrives {fields : List GrpcInputFieldMeta} {name : String} {v : Value}
    (sendable : SendableEntry rt.Wide fields name v) (unique : UniqueFields fields)
    (shapes : uniqueShapes fields) : EntryArrives rt fields name v :=
  match sendable with
  | @SendableEntry.mk _ _ field shape v declared sendable => by
    have arrives := field_arrives sendable (unique_of_mem shapes declared)
    have named := arrivedNamed_of_mem unique.names declared v
    simp only [GrpcInputFieldMeta.field_mk, GrpcInputFieldMeta.shape_mk] at named
    constructor
    · rw [named]
      exact .mk declared arrives.canonical
    · rw [named, encodeEntry_of_mem unique declared rfl, encodeEntry_of_mem unique declared rfl]
      exact arrives.encodes field

/-- All shapes; a map can come from an object, whose keys are texts. -/
theorem field_arrives {shape : GrpcFieldShape} {v : Value}
    (sendable : SendableField rt.Wide shape v) (unique : shape.Unique) : FieldArrives rt shape v :=
  match sendable with
  | .scalar sendable => by
    have arrives := arrives sendable unique
    constructor
    · rw [arrivedShape]
      exact .scalar arrives.canonical
    · intro field
      rw [arrivedShape, encodeField, encodeField]
      simp only [arrives.encodes field.number]
  | .list nonempty each =>
    fieldArrives_list nonempty fun item member => arrives (each item member) unique
  -- the keys of an object are the texts that they are
  | .texts nonempty distinct values => by
    refine fieldArrives_entries MapKey.string nonempty distinct
      (fun _ _ _ _ same => MapKey.string.inj same) (fun e _ => .string e.1)
      (fun e member => arrives (values e member) unique) (by rw [arrivedShape]) ?_
    intro field positive
    rw [encodeField, if_neg positive]
  | @SendableField.map _ keyKind _ _ nonempty distinct keys values => by
    refine fieldArrives_entries (arrivedKey keyKind) nonempty distinct
      (fun e member e' member' same => (keys e member).inj (keys e' member') same)
      (fun e member => (keys e member).canonical)
      (fun e member => arrives (values e member) unique) (by rw [arrivedShape]) ?_
    intro field positive
    rw [encodeField, if_neg positive]
    refine concatM_congr fun e member => ?_
    simp only [encodeMapEntry, (keys e member).encodes rt]

end

end Arrives

end Wrkr.Grpc.Wire
