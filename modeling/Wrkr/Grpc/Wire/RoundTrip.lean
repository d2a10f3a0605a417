import Wrkr.Grpc.Wire.Decode
import Wrkr.Lib.Ieee

/-!
# Round trips

A canonical value is one that the decoder could have produced: every kind has its constructor, and
nothing is left out that the wire does not show. Encoding a canonical value succeeds, and decoding
the bytes returns the value, entry by entry in the order in which the encoder went through the
maps. A `float` field holds the widening of an `f32`: other doubles are rounded on the wire.

The proof follows the value. `Carried` says what the payload of one element does to a decoder, a
field turns into some records (`Reads` of the message loop), and a message is the concatenation of
its fields.
-/
namespace Wrkr.Grpc.Wire

open Wrkr.Lib

variable (rt : Runtime)

/-! ### Canonical values -/

/-- The key has the constructor of the key kind. -/
inductive CanonicalKey : Kind → MapKey → Prop
  | string (s : String) : CanonicalKey .string (.string s)
  | bool (b : Bool) : CanonicalKey .bool (.bool b)
  | int32 (i : Int64) : CanonicalKey .int32 (.i64 i)
  | sint32 (i : Int64) : CanonicalKey .sint32 (.i64 i)
  | sfixed32 (i : Int64) : CanonicalKey .sfixed32 (.i64 i)
  | int64 (i : Int64) : CanonicalKey .int64 (.i64 i)
  | sint64 (i : Int64) : CanonicalKey .sint64 (.i64 i)
  | sfixed64 (i : Int64) : CanonicalKey .sfixed64 (.i64 i)
  | uint32 (u : UInt64) : CanonicalKey .uint32 (.u64 u)
  | fixed32 (u : UInt64) : CanonicalKey .fixed32 (.u64 u)
  | uint64 (u : UInt64) : CanonicalKey .uint64 (.u64 u)
  | fixed64 (u : UInt64) : CanonicalKey .fixed64 (.u64 u)

mutual

/-- A canonical value of a kind; `floats` are the doubles that a `float` may hold. -/
inductive Canonical (floats : UInt64 → Prop) : GrpcValueKind → Value → Prop
  | bool (b : Bool) : Canonical floats .bool (.bool b)
  | string (s : String) : Canonical floats .string (.string s)
  | bytes (b : Bytes) : Canonical floats .bytes (.bytes b)
  | int32 (i : Int64) : Canonical floats .int32 (.i64 i)
  | int64 (i : Int64) : Canonical floats .int64 (.i64 i)
  | sint32 (i : Int64) : Canonical floats .sint32 (.i64 i)
  | sint64 (i : Int64) : Canonical floats .sint64 (.i64 i)
  | sfixed32 (i : Int32) : Canonical floats .sfixed32 (.i64 i.toInt64)
  | sfixed64 (i : Int64) : Canonical floats .sfixed64 (.i64 i)
  | uint32 (u : UInt64) : Canonical floats .uint32 (.u64 u)
  | uint64 (u : UInt64) : Canonical floats .uint64 (.u64 u)
  | fixed32 (u : UInt32) : Canonical floats .fixed32 (.u64 u.toUInt64)
  | fixed64 (u : UInt64) : Canonical floats .fixed64 (.u64 u)
  | float {bits : UInt64} (allowed : floats bits) : Canonical floats .float (.f64 bits)
  | double (bits : UInt64) : Canonical floats .double (.f64 bits)
  | enumName {desc : EnumDescriptor} {n : Int32} {v : EnumValueDescriptor}
      (declared : desc.getValue n = some v) : Canonical floats (.enum desc) (.string v.name)
  | enumNumber {desc : EnumDescriptor} {n : Int32} (undeclared : desc.getValue n = none) :
      Canonical floats (.enum desc) (.i64 n.toInt64)
  | message {fields : List GrpcInputFieldMeta} {entries : List (String × Value)}
      (distinct : (entries.map Prod.fst).Nodup)
      (each : ∀ e ∈ entries, CanonicalEntry floats fields e.1 e.2) :
      Canonical floats (.message (.mk fields)) (.object entries)

/-- A canonical entry of a message: the value of a declared field. -/
inductive CanonicalEntry (floats : UInt64 → Prop) :
    List GrpcInputFieldMeta → String → Value → Prop
  | mk {fields : List GrpcInputFieldMeta} {field : FieldDescriptor} {shape : GrpcFieldShape}
      {v : Value} (declared : .mk field shape ∈ fields) (canonical : CanonicalField floats shape v) :
      CanonicalEntry floats fields field.name v

/-- A field as a decoder would build it. -/
inductive CanonicalField (floats : UInt64 → Prop) : GrpcFieldShape → Value → Prop
  | scalar {kind : GrpcValueKind} {v : Value} (canonical : Canonical floats kind v) :
      CanonicalField floats (.scalar kind) v
  | list {kind : GrpcValueKind} {items : List Value} (some : items ≠ [])
      (each : ∀ item ∈ items, Canonical floats kind item) :
      CanonicalField floats (.list kind) (.array items)
  | map {keyKind : Kind} {valueKind : GrpcValueKind} {entries : List (MapKey × Value)}
      (some : entries ≠ []) (distinct : (entries.map Prod.fst).Nodup)
      (keys : ∀ e ∈ entries, CanonicalKey keyKind e.1)
      (values : ∀ e ∈ entries, Canonical floats valueKind e.2) :
      CanonicalField floats (.map keyKind valueKind) (.map entries)

end

/-- The doubles that are widened `f32`s. -/
def Runtime.Wide (bits : UInt64) : Prop := ∃ x, rt.widen x = bits

/-! ### Payloads -/

/-- The element `v` is written as a tag and a payload, and the payload is decoded to `w`. -/
def CarriedAs (kind : GrpcValueKind) (v w : Value) : Prop :=
  ∃ payload, (∀ n, encodeScalarField rt n kind v =
      .ok (writeTag n (wireTypeForKind kind) ++ payload)) ∧
    (payload.length < 2 ^ 64 → ∀ rest,
      decodeScalarValue rt kind (wireTypeForKind kind) (payload ++ rest) = .ok (w, rest))

/-- The element is written as a tag and a payload, and the payload is decoded to the element. -/
def Carried (kind : GrpcValueKind) (v : Value) : Prop :=
  ∃ payload, (∀ n, encodeScalarField rt n kind v =
      .ok (writeTag n (wireTypeForKind kind) ++ payload)) ∧
    (payload.length < 2 ^ 64 → ∀ rest,
      decodeScalarValue rt kind (wireTypeForKind kind) (payload ++ rest) = .ok (v, rest))

@[simp] theorem expect_self (wireType : WireType) (message : String) :
    expect wireType message wireType = .ok () := by
  simp [expect]

theorem remaining_append {n : Nat} (bytes : Bytes) (length : bytes.length = n) (message : String)
    (rest : Bytes) : remaining n message (bytes ++ rest) = .ok () := by
  simp [remaining, length]

@[simp] theorem remaining_putU32Le (n : UInt32) (message : String) (rest : Bytes) :
    remaining 4 message (putU32Le n ++ rest) = .ok () :=
  remaining_append (putU32Le n) (length_leBytes 4 _) message rest

@[simp] theorem remaining_putI32Le (n : Int32) (message : String) (rest : Bytes) :
    remaining 4 message (putI32Le n ++ rest) = .ok () :=
  remaining_putU32Le n.toUInt32 message rest

@[simp] theorem remaining_putU64Le (n : UInt64) (message : String) (rest : Bytes) :
    remaining 8 message (putU64Le n ++ rest) = .ok () :=
  remaining_append (putU64Le n) (length_leBytes 8 _) message rest

@[simp] theorem remaining_putI64Le (n : Int64) (message : String) (rest : Bytes) :
    remaining 8 message (putI64Le n ++ rest) = .ok () :=
  remaining_putU64Le n.toUInt64 message rest

@[simp] theorem fromUtf8_asBytes (s : String) : fromUtf8 (asBytes s) = some s := by
  have valid : (⟨(asBytes s).toArray⟩ : ByteArray) = s.toByteArray := rfl
  -- a `String` carries the proof that its bytes are UTF-8
  rw [fromUtf8, valid, String.fromUTF8?, dif_pos s.isValidUTF8]
  rfl

/-- The low half of an extended number is the number. -/
theorem toUInt32_toInt64 (n : Int32) : n.toInt64.toUInt64.toUInt32.toInt32 = n := by
  apply Int32.toBitVec.inj
  change (n.toBitVec.signExtend 64).setWidth 32 = n.toBitVec
  -- bit by bit: the bits below 32 are those of the number
  ext i low
  have inside : i < 64 := by omega
  rw [BitVec.getElem_setWidth, BitVec.getLsbD_signExtend]
  simp [low, inside]

theorem carried_enum (desc : EnumDescriptor) {v : Value} {n : Int32}
    (written : enumNumber desc v = n.toInt64) (read : enumValue desc n = v) :
    Carried rt (.enum desc) v := by
  refine ⟨writeVariant (enumNumber desc v).toUInt64, fun _ => ?_, fun _ rest => ?_⟩
  · rw [encodeScalarField]
  · rw [decodeScalarValue, wireTypeForKind, written, readVariant_write]
    simp only [expect_self, bind, Except.bind, toUInt32_toInt64, read]

variable {rt}

/-- Every canonical value that is no message is carried. -/
theorem carried_of_canonical (exact : rt.Exact) {kind : GrpcValueKind} {v : Value}
    (canonical : Canonical rt.Wide kind v) (plain : ∀ msg, kind ≠ .message msg) :
    Carried rt kind v := by
  cases canonical
  case bool b =>
    refine ⟨writeVariant (if b then 1 else 0), fun n => ?_, fun _ rest => ?_⟩
    · cases b <;> simp [encodeScalarField, wireTypeForKind, toBool]
    · cases b <;> simp [decodeScalarValue, wireTypeForKind, bind, Except.bind]
  case string s =>
    refine ⟨writeLenDelimited (asBytes s), fun n => ?_, fun fits rest => ?_⟩
    · simp [encodeScalarField, wireTypeForKind, toStringLossy]
    -- the payload has the length in front of the bytes
    · have length : (asBytes s).length < 2 ^ 64 := by
        rw [writeLenDelimited, List.length_append] at fits
        omega
      simp [decodeScalarValue, wireTypeForKind, readLenDelimited_write length, bind, Except.bind]
  case bytes b =>
    refine ⟨writeLenDelimited b, fun n => ?_, fun fits rest => ?_⟩
    · simp [encodeScalarField, wireTypeForKind, toBytesLossy]
    · have length : b.length < 2 ^ 64 := by
        rw [writeLenDelimited, List.length_append] at fits
        omega
      simp [decodeScalarValue, wireTypeForKind, readLenDelimited_write length, bind, Except.bind]
  case int32 i | int64 i =>
    refine ⟨writeVariant i.toUInt64, fun n => ?_, fun _ rest => ?_⟩
    · simp [encodeScalarField, wireTypeForKind, toI64, bind, Except.bind]
    · simp [decodeScalarValue, wireTypeForKind, bind, Except.bind]
  case sint32 i | sint64 i =>
    refine ⟨writeVariant (encodeZigzag64 i), fun n => ?_, fun _ rest => ?_⟩
    · simp [encodeScalarField, wireTypeForKind, toI64, bind, Except.bind]
    · simp [decodeScalarValue, wireTypeForKind, bind, Except.bind]
  case uint32 u | uint64 u =>
    refine ⟨writeVariant u, fun n => ?_, fun _ rest => ?_⟩
    · simp [encodeScalarField, wireTypeForKind, toU64, bind, Except.bind]
    · simp [decodeScalarValue, wireTypeForKind, bind, Except.bind]
  case fixed32 u =>
    refine ⟨putU32Le u, fun n => ?_, fun _ rest => ?_⟩
    · simp [encodeScalarField, wireTypeForKind, toU64, bind, Except.bind]
    · simp [decodeScalarValue, wireTypeForKind, getU32Le_put, bind, Except.bind]
  case sfixed32 i =>
    refine ⟨putI32Le i, fun n => ?_, fun _ rest => ?_⟩
    · simp [encodeScalarField, wireTypeForKind, toI64, bind, Except.bind]
    · simp [decodeScalarValue, wireTypeForKind, getI32Le_put, bind, Except.bind]
  case float bits allowed =>
    -- a widened `f32` is narrowed to one that widens to the same
    obtain ⟨x, rfl⟩ := allowed
    refine ⟨putU32Le (rt.narrow (rt.widen x)), fun n => ?_, fun _ rest => ?_⟩
    · simp [encodeScalarField, wireTypeForKind, toF64, bind, Except.bind]
    · simp [decodeScalarValue, wireTypeForKind, getU32Le_put, exact x, bind, Except.bind]
  case fixed64 u =>
    refine ⟨putU64Le u, fun n => ?_, fun _ rest => ?_⟩
    · simp [encodeScalarField, wireTypeForKind, toU64, bind, Except.bind]
    · simp [decodeScalarValue, wireTypeForKind, getU64Le_put, bind, Except.bind]
  case sfixed64 i =>
    refine ⟨putI64Le i, fun n => ?_, fun _ rest => ?_⟩
    · simp [encodeScalarField, wireTypeForKind, toI64, bind, Except.bind]
    · simp [decodeScalarValue, wireTypeForKind, getI64Le_put, bind, Except.bind]
  case double bits =>
    refine ⟨putU64Le bits, fun n => ?_, fun _ rest => ?_⟩
    · simp [encodeScalarField, wireTypeForKind, toF64, bind, Except.bind]
    · simp [decodeScalarValue, wireTypeForKind, getU64Le_put, bind, Except.bind]
  case enumName desc n v declared =>
    -- the decoder answers with the name, which the encoder looks up again
    obtain ⟨member, number⟩ := desc.getValue_some n v declared
    refine carried_enum rt desc (n := n) ?_ (by rw [enumValue, declared])
    rw [enumNumber, desc.getValueByName_of_mem member, ← number]
    rfl
  case enumNumber desc n undeclared =>
    exact carried_enum rt desc (n := n) rfl (by rw [enumValue, undeclared])
  case message fields entries distinct each => exact absurd rfl (plain (.mk fields))

/-! ### Concatenations -/

/-- If every part can be written, all of them can. -/
theorem concatM_ok {α : Type} {f : α → Except String Bytes} {xs : List α}
    (each : ∀ x ∈ xs, ∃ bytes, f x = .ok bytes) : ∃ out, concatM f xs = .ok out := by
  induction xs with
  | nil => exact ⟨[], rfl⟩
  | cons x rest ih =>
    obtain ⟨first, isFirst⟩ := each x (List.mem_cons_self ..)
    obtain ⟨later, isLater⟩ := ih fun y member => each y (List.mem_cons_of_mem _ member)
    exact ⟨first ++ later, by rw [concatM, isFirst, isLater]; rfl⟩

/-- A loop that reads the bytes of each element in turn, with `st done` as its state after the
elements `done`. -/
theorem concatM_reads {α σ : Type} {f : α → Except String Bytes} {stuck : Failure}
    {body : σ → Bytes → Decoded (σ × Bytes)} (st : List α → σ) {all : List α} {out : Bytes}
    (encoded : concatM f all = .ok out) (fits : out.length < 2 ^ 64)
    (each : ∀ done x later bytes, all = done ++ x :: later → f x = .ok bytes →
      bytes.length < 2 ^ 64 → Reads stuck body (st done) bytes (st (done ++ [x]))) :
    Reads stuck body (st []) out (st all) := by
  -- by induction on the elements still to come; `done` and the bytes left vary
  have rest (later done : List α) (bytes : Bytes) (split : all = done ++ later)
      (encoded : concatM f later = .ok bytes) (fits : bytes.length < 2 ^ 64) :
      Reads stuck body (st done) bytes (st all) := by
    induction later generalizing done bytes with
    | nil =>
      rw [split, List.append_nil]
      cases encoded
      exact Reads.nil _
    | cons x later ih =>
      rw [concatM] at encoded
      obtain ⟨first, isFirst, encoded⟩ := bind_ok encoded
      obtain ⟨others, isOthers, encoded⟩ := bind_ok encoded
      cases encoded
      rw [List.length_append] at fits
      have step := each done x later first split isFirst (by omega)
      exact step.append (ih (done ++ [x]) others (by simpa using split) isOthers (by omega))
  exact rest all [] out rfl encoded fits

/-! ### Records -/

section Records

variable {numbered : UInt32 → Option FieldDecoder}

/-- A record with the number of a field is read by its decoder. -/
theorem reads_record (progress : Progress (messageStep numbered)) {n : UInt32} (positive : n ≠ 0)
    {wireType : WireType} {payload : Bytes} {decode : FieldDecoder} {out out' : ObjectMap}
    (found : numbered n = some decode)
    (decoded : ∀ rest, decode wireType out (payload ++ rest) = .ok (out', rest)) :
    Reads .diverge (messageStep numbered) out (writeTag n wireType ++ payload) out' := by
  apply Reads.of_body progress
  intro rest
  rw [messageStep, List.append_assoc, readTag_write positive]
  simp only [bind, Except.bind, found, decoded]

end Records

variable (rt) in
/-- The field is written, and reading what was written adds an entry with `w` to the object, or
none. -/
structure FieldCarriedAs (field : FieldDescriptor) (shape : GrpcFieldShape) (v : Value)
    (w : Option Value) : Prop where
  encodes : ∃ bytes, encodeField rt field shape v = .ok bytes
  -- `numbered` stands for both lookups, that of a message and that of a method
  reads : ∀ bytes, encodeField rt field shape v = .ok bytes → bytes.length < 2 ^ 64 →
    ∀ numbered, Progress (messageStep numbered) →
      numbered field.number = some (decodeFieldInto rt field.name shape) →
      ∀ out : ObjectMap, field.name ∉ out.map Prod.fst →
        Reads .diverge (messageStep numbered) out bytes
          (out ++ (w.map fun w => (field.name, w)).toList)

variable (rt) in
/-- The field is written, and reading what was written adds its entry to the object. -/
abbrev FieldCarried (field : FieldDescriptor) (shape : GrpcFieldShape) (v : Value) : Prop :=
  FieldCarriedAs rt field shape v (some v)

/-- One record. -/
theorem fieldCarriedAs_scalar {field : FieldDescriptor} (positive : field.number ≠ 0)
    {kind : GrpcValueKind} {v w : Value} (carried : CarriedAs rt kind v w) :
    FieldCarriedAs rt field (.scalar kind) v (some w) := by
  obtain ⟨payload, encodes, decodes⟩ := carried
  have written : encodeField rt field (.scalar kind) v =
      .ok (writeTag field.number (wireTypeForKind kind) ++ payload) := by
    rw [encodeField, if_neg positive]
    exact encodes field.number
  refine ⟨⟨_, written⟩, ?_⟩
  intro bytes isBytes fits numbered progress found out absent
  cases written.symm.trans isBytes
  rw [List.length_append] at fits
  apply reads_record progress positive found
  intro rest
  rw [decodeFieldInto, decodes (by omega)]
  simp only [bind, Except.bind, mergeDecodedField, HashTable.insertEntry_of_absent absent]
  rfl

/-- The object while the elements of a field are read one by one. -/
def accumulated {α : Type} (out : ObjectMap) (name : String) (wrap : List α → Value)
    (done : List α) : ObjectMap :=
  if done.isEmpty then out else out ++ [(name, wrap done)]

theorem accumulated_append {α : Type} (out : ObjectMap) (name : String) (wrap : List α → Value)
    (done : List α) (x : α) :
    accumulated out name wrap (done ++ [x]) = out ++ [(name, wrap (done ++ [x]))] := by
  simp [accumulated]

/-- Only kinds that go as varints or fixed-width numbers are packed. -/
theorem not_packed (kind : GrpcValueKind) :
    ¬ (wireTypeForKind kind = .len ∧ kindIsPackable kind = true) := by
  cases kind <;> simp [wireTypeForKind, kindIsPackable]

/-- An item is appended to those that have been read. -/
theorem mergeDecodedField_item {out : ObjectMap} {name : String} (absent : name ∉ out.map Prod.fst)
    (kind : GrpcValueKind) (done : List Value) (item : Value) :
    mergeDecodedField (accumulated out name .array done) name (.list kind) (.array [item]) =
      .ok (accumulated out name .array (done ++ [item])) := by
  rw [accumulated_append]
  cases done with
  | nil =>
    simp [accumulated, mergeDecodedField, HashTable.lookup_eq_none_iff.mpr absent,
      HashTable.insertEntry_of_absent absent]
  | cons first rest =>
    simp [accumulated, mergeDecodedField, HashTable.lookup_last absent,
      HashTable.insertEntry_last absent]

/-- Of a list without items nothing is written. -/
theorem fieldCarriedAs_list {field : FieldDescriptor} (positive : field.number ≠ 0)
    {kind : GrpcValueKind} {items : List Value} (g : Value → Value)
    (each : ∀ item ∈ items, CarriedAs rt kind item (g item)) :
    FieldCarriedAs rt field (.list kind) (.array items)
      (if items.isEmpty then none else some (.array (items.map g))) := by
  have written : encodeField rt field (.list kind) (.array items) =
      concatM (fun item => encodeScalarField rt field.number kind item) items := by
    rw [encodeField, if_neg positive]
  constructor
  -- every item is written
  · rw [written]
    apply concatM_ok
    intro item member
    obtain ⟨payload, encodes, -⟩ := each item member
    exact ⟨_, encodes field.number⟩
  · intro bytes isBytes fits numbered progress found out absent
    rw [written] at isBytes
    let st (done : List Value) := accumulated out field.name .array (done.map g)
    have last : st items = out ++ ((if items.isEmpty then none
        else some (Value.array (items.map g))).map fun w => (field.name, w)).toList := by
      cases items <;> simp [st, accumulated]
    -- the items are appended record by record
    rw [← last]
    apply concatM_reads st isBytes fits
    intro done item later record split isRecord fits
    obtain ⟨payload, encodes, decodes⟩ := each item (by simp [split])
    cases (encodes field.number).symm.trans isRecord
    rw [List.length_append] at fits
    apply reads_record progress positive found
    intro rest
    -- the encoder never packs, so each record holds one item
    rw [decodeFieldInto, decodeList, if_neg (not_packed kind), decodes (by omega)]
    simp only [bind, Except.bind, mergeDecodedField_item absent, st, List.map_append, List.map_cons,
      List.map_nil]

/-! ### Map entries -/

variable (rt) in
/-- A canonical key is written as field 1 and read back. -/
theorem mapKey_carried {kind : Kind} {key : MapKey} (canonical : CanonicalKey kind key) :
    ∃ wireType payload, encodeMapKey rt kind key = .ok (writeTag 1 wireType ++ payload) ∧
      (payload.length < 2 ^ 64 → ∀ rest,
        decodeMapKey rt kind wireType (payload ++ rest) = .ok (key, rest)) := by
  cases canonical
  case string s =>
    refine ⟨.len, writeLenDelimited (asBytes s), rfl, fun fits rest => ?_⟩
    have length : (asBytes s).length < 2 ^ 64 := by
      rw [writeLenDelimited, List.length_append] at fits
      omega
    simp [decodeMapKey, readLenDelimited_write length, bind, Except.bind]
  case bool b =>
    refine ⟨.varint, writeVariant (if b then 1 else 0), rfl, fun _ rest => ?_⟩
    cases b <;> simp [decodeMapKey, bind, Except.bind]
  -- the decoder of keys reads back the plain varint of its encoder
  case int32 i | sint32 i | sfixed32 i | int64 i | sint64 i | sfixed64 i =>
    refine ⟨.varint, writeVariant i.toUInt64, rfl, fun _ rest => ?_⟩
    simp [decodeMapKey, bind, Except.bind]
  case uint32 u | fixed32 u | uint64 u | fixed64 u =>
    refine ⟨.varint, writeVariant u, rfl, fun _ rest => ?_⟩
    simp [decodeMapKey, bind, Except.bind]

/-- The payload of an entry is read back, key first. -/
theorem decodeMapEntry_payload {keyKind : Kind} {valueKind : GrpcValueKind} {k : MapKey} {v : Value}
    {keyType : WireType} {keyPayload valuePayload : Bytes}
    (key : ∀ rest, decodeMapKey rt keyKind keyType (keyPayload ++ rest) = .ok (k, rest))
    (value : ∀ rest, decodeScalarValue rt valueKind (wireTypeForKind valueKind)
      (valuePayload ++ rest) = .ok (v, rest)) :
    decodeMapEntry rt keyKind (fun wireType src => decodeScalarValue rt valueKind wireType src)
      ((writeTag 1 keyType ++ keyPayload) ++
        (writeTag 2 (wireTypeForKind valueKind) ++ valuePayload)) = .ok (k, v) := by
  have progress := progress_mapEntryStep rt keyKind (shrinks_decodeScalarValue rt valueKind)
  -- the key comes first, as the encoder writes it
  have first : Reads .diverge (mapEntryStep rt keyKind (decodeScalarValue rt valueKind)) (none, none)
      (writeTag 1 keyType ++ keyPayload) (some k, none) := by
    apply Reads.of_body progress
    intro rest
    rw [mapEntryStep, List.append_assoc, readTag_write (by decide)]
    simp [bind, Except.bind, key]
  have second : Reads .diverge (mapEntryStep rt keyKind (decodeScalarValue rt valueKind))
      (some k, none) (writeTag 2 (wireTypeForKind valueKind) ++ valuePayload) (some k, some v) := by
    apply Reads.of_body progress
    intro rest
    rw [mapEntryStep, List.append_assoc, readTag_write (by decide)]
    simp [bind, Except.bind, value]
  have loop := (first.append second).whileRemaining
  rw [decodeMapEntry, loop]
  rfl

/-- A canonical entry is written as one record, which is decoded to the entry. -/
theorem mapEntry_carriedAs {keyKind : Kind} {valueKind : GrpcValueKind} {k : MapKey} {v w : Value}
    (canonical : CanonicalKey keyKind k) (carried : CarriedAs rt valueKind v w) :
    ∃ payload, (∀ n, encodeMapEntry rt n keyKind (fun v => encodeScalarField rt 2 valueKind v) k v =
        .ok (writeTag n .len ++ writeLenDelimited payload)) ∧
      (payload.length < 2 ^ 64 → decodeMapEntry rt keyKind
        (fun wireType src => decodeScalarValue rt valueKind wireType src) payload = .ok (k, w)) := by
  obtain ⟨keyType, keyPayload, keyEncodes, keyDecodes⟩ := mapKey_carried rt canonical
  obtain ⟨valuePayload, valueEncodes, valueDecodes⟩ := carried
  refine ⟨(writeTag 1 keyType ++ keyPayload) ++
    (writeTag 2 (wireTypeForKind valueKind) ++ valuePayload), fun n => ?_, fun fits => ?_⟩
  · rw [encodeMapEntry, keyEncodes, valueEncodes]
    rfl
  · simp only [List.length_append] at fits
    exact decodeMapEntry_payload (keyDecodes (by omega)) (valueDecodes (by omega))

/-- An entry with a new key is appended to those that have been read. -/
theorem decodeMapEntryIntoObject_entry {out : ObjectMap} {name : String}
    (absent : name ∉ out.map Prod.fst) {keyKind : Kind} {decodeValue : ValueDecoder}
    {done : List (MapKey × Value)} {k : MapKey} {v : Value} (new : k ∉ done.map Prod.fst)
    {payload : Bytes} (fits : payload.length < 2 ^ 64)
    (entry : decodeMapEntry rt keyKind decodeValue payload = .ok (k, v)) (rest : Bytes) :
    decodeMapEntryIntoObject rt (accumulated out name .map done) name keyKind decodeValue .len
      (writeLenDelimited payload ++ rest) =
      .ok (accumulated out name .map (done ++ [(k, v)]), rest) := by
  rw [decodeMapEntryIntoObject, readLenDelimited_write fits, accumulated_append]
  simp only [expect_self, bind, Except.bind, entry]
  cases done with
  | nil =>
    simp [accumulated, HashTable.lookup_eq_none_iff.mpr absent,
      HashTable.insertEntry_of_absent absent]
  | cons first others =>
    simp [accumulated, HashTable.lookup_last absent, HashTable.insertEntry_last absent,
      HashTable.insertEntry_of_absent new]

/-- One record for each entry, by induction over them. -/
theorem fieldCarriedAs_map {field : FieldDescriptor} (positive : field.number ≠ 0) {keyKind : Kind}
    {valueKind : GrpcValueKind} {entries : List (MapKey × Value)} (g : Value → Value)
    (nonempty : entries ≠ []) (distinct : (entries.map Prod.fst).Nodup)
    (keys : ∀ e ∈ entries, CanonicalKey keyKind e.1)
    (values : ∀ e ∈ entries, CarriedAs rt valueKind e.2 (g e.2)) :
    FieldCarriedAs rt field (.map keyKind valueKind) (.map entries)
      (some (.map (entries.map fun e => (e.1, g e.2)))) := by
  have written : encodeField rt field (.map keyKind valueKind) (.map entries) =
      concatM (fun e => encodeMapEntry rt field.number keyKind
        (fun v => encodeScalarField rt 2 valueKind v) e.1 e.2) entries := by
    rw [encodeField, if_neg positive]
  constructor
  · rw [written]
    apply concatM_ok
    intro e member
    obtain ⟨payload, encodes, -⟩ := mapEntry_carriedAs (keys e member) (values e member)
    exact ⟨_, encodes field.number⟩
  · intro bytes isBytes fits numbered progress found out absent
    rw [written] at isBytes
    let st (done : List (MapKey × Value)) :=
      accumulated out field.name .map (done.map fun e => (e.1, g e.2))
    have last : st entries = out ++ ((some (Value.map (entries.map fun e => (e.1, g e.2)))).map
        fun w => (field.name, w)).toList := by
      simp [st, accumulated, nonempty]
    rw [← last]
    apply concatM_reads st isBytes fits
    intro done e later record split isRecord fits
    have member : e ∈ entries := by simp [split]
    obtain ⟨payload, encodes, decodes⟩ := mapEntry_carriedAs (keys e member) (values e member)
    cases (encodes field.number).symm.trans isRecord
    simp only [writeLenDelimited, List.length_append] at fits
    -- the keys are distinct, so no entry replaces an earlier one
    have new : e.1 ∉ (done.map fun e => (e.1, g e.2)).map Prod.fst := by
      rw [split, List.map_append, List.nodup_append] at distinct
      intro inDone
      refine distinct.2.2 e.1 ?_ e.1 (by simp) rfl
      simpa using inDone
    apply reads_record progress positive found
    intro rest
    rw [decodeFieldInto]
    have entered := decodeMapEntryIntoObject_entry absent new (by omega) (decodes (by omega)) rest
    simpa only [st, List.map_append, List.map_cons, List.map_nil] using entered

/-! ### Messages -/

/-- An entry of a message is that of a field which is carried. -/
def EntryCarriedAs (rt : Runtime) (fields : List GrpcInputFieldMeta) (name : String) (v : Value)
    (w : Option Value) : Prop :=
  ∃ field shape, .mk field shape ∈ fields ∧ field.name = name ∧ FieldCarriedAs rt field shape v w

abbrev EntryCarried (rt : Runtime) (fields : List GrpcInputFieldMeta) (name : String) (v : Value) :
    Prop :=
  EntryCarriedAs rt fields name v (some v)

theorem encodeNamed_of_mem {fields : List GrpcInputFieldMeta} (unique : UniqueFields fields)
    {field : FieldDescriptor} {shape : GrpcFieldShape} (member : .mk field shape ∈ fields) :
    encodeNamed rt fields field.name = some (encodeField rt field shape) := by
  have last := HashTable.lastWith_of_nodup (fun entry : GrpcInputFieldMeta => entry.field.name)
    unique.names member
  rw [GrpcInputFieldMeta.field_mk] at last
  rw [encodeNamed_eq_lastWith, last]
  rfl

/-- The body of the loop over the entries. -/
def encodeEntry (rt : Runtime) (fields : List GrpcInputFieldMeta) (e : String × Value) :
    Except String Bytes :=
  match encodeNamed rt fields e.1 with
  | none => .error ("unknown field '" ++ e.1 ++ "'")
  | some encode => encode e.2

theorem encodeEntry_of_mem {fields : List GrpcInputFieldMeta} (unique : UniqueFields fields)
    {field : FieldDescriptor} {shape : GrpcFieldShape} (member : .mk field shape ∈ fields)
    {e : String × Value} (name : field.name = e.1) :
    encodeEntry rt fields e = encodeField rt field shape e.2 := by
  rw [encodeEntry, ← name, encodeNamed_of_mem unique member]

/-- What an object is decoded as when its entries are decoded as `kept`. -/
def keptEntries (kept : String → Value → Option Value) (entries : ObjectMap) : ObjectMap :=
  entries.flatMap fun e => ((kept e.1 e.2).map fun w => (e.1, w)).toList

theorem keptEntries_names {kept : String → Value → Option Value} {entries : ObjectMap}
    {name : String} (member : name ∈ (keptEntries kept entries).map Prod.fst) :
    name ∈ entries.map Prod.fst := by
  simp only [keptEntries, List.mem_map, List.mem_flatMap, Option.mem_toList,
    Option.map_eq_some_iff] at member ⊢
  obtain ⟨_, ⟨e, inEntries, w, -, rfl⟩, rfl⟩ := member
  exact ⟨e, inEntries, rfl⟩

/-- If all entries are kept, nothing changes. -/
theorem keptEntries_of_some {kept : String → Value → Option Value} {entries : ObjectMap}
    (all : ∀ e ∈ entries, kept e.1 e.2 = some e.2) : keptEntries kept entries = entries := by
  induction entries with
  | nil => rfl
  | cons e rest ih =>
    have later := ih fun e' member => all e' (List.mem_cons_of_mem _ member)
    rw [keptEntries] at later ⊢
    rw [List.flatMap_cons, later, all e (List.mem_cons_self ..)]
    rfl

/-- What the encoder writes for the entries is decoded to what is kept of them, by every lookup
that finds the fields of the schema. -/
theorem message_carriedAs {fields : List GrpcInputFieldMeta} (unique : UniqueFields fields)
    {entries : List (String × Value)} (distinct : (entries.map Prod.fst).Nodup)
    (kept : String → Value → Option Value)
    (each : ∀ e ∈ entries, EntryCarriedAs rt fields e.1 e.2 (kept e.1 e.2)) :
    ∃ out, encodeMessage rt fields (.object entries) = .ok out ∧
      (out.length < 2 ^ 64 → ∀ numbered, Progress (messageStep numbered) →
        Finds rt fields numbered →
        decodeMessageWith numbered out = .ok (.object (keptEntries kept entries))) := by
  obtain ⟨out, written⟩ : ∃ out, concatM (encodeEntry rt fields) entries = .ok out := by
    apply concatM_ok
    intro e member
    obtain ⟨field, shape, declared, name, carried⟩ := each e member
    rw [encodeEntry_of_mem unique declared name]
    exact carried.encodes
  refine ⟨out, written, fun fits numbered progress finds => ?_⟩
  have reads : Reads .diverge (messageStep numbered) [] out (keptEntries kept entries) := by
    apply concatM_reads (keptEntries kept) written fits
    intro done e later record split isRecord fits
    obtain ⟨field, shape, declared, name, carried⟩ := each e (by simp [split])
    rw [encodeEntry_of_mem unique declared name] at isRecord
    -- the names are distinct, so no field is merged into
    have new : field.name ∉ (keptEntries kept done).map Prod.fst := by
      rw [split, List.map_append, List.nodup_append] at distinct
      intro inDone
      exact distinct.2.2 field.name (keptEntries_names inDone) e.1 (by simp) name
    have step := carried.reads record isRecord fits numbered progress (finds _ declared) _ new
    rw [name] at step
    simpa only [keptEntries, List.flatMap_append, List.flatMap_singleton] using step
  rw [decodeMessageWith, reads.whileRemaining]
  rfl

theorem message_carried {fields : List GrpcInputFieldMeta} (unique : UniqueFields fields)
    {entries : List (String × Value)} (distinct : (entries.map Prod.fst).Nodup)
    (each : ∀ e ∈ entries, EntryCarried rt fields e.1 e.2) :
    ∃ out, encodeMessage rt fields (.object entries) = .ok out ∧
      (out.length < 2 ^ 64 → ∀ numbered, Progress (messageStep numbered) →
        Finds rt fields numbered → decodeMessageWith numbered out = .ok (.object entries)) := by
  have carried := message_carriedAs unique distinct (fun _ v => some v) each
  rwa [keptEntries_of_some fun _ _ => rfl] at carried

/-- The records of the fields one after the other. -/
theorem carriedAs_message {fields : List GrpcInputFieldMeta} (unique : UniqueFields fields)
    {entries : List (String × Value)} (distinct : (entries.map Prod.fst).Nodup)
    (kept : String → Value → Option Value)
    (each : ∀ e ∈ entries, EntryCarriedAs rt fields e.1 e.2 (kept e.1 e.2)) :
    CarriedAs rt (.message (.mk fields)) (.object entries) (.object (keptEntries kept entries)) := by
  obtain ⟨out, written, decodes⟩ := message_carriedAs unique distinct kept each
  refine ⟨writeLenDelimited out, fun n => ?_, fun fits rest => ?_⟩
  · rw [encodeScalarField_message, GrpcMessageMeta.fields, written]
    rfl
  · simp only [writeLenDelimited, List.length_append] at fits
    have length : out.length < 2 ^ 64 := by omega
    -- a nested message is looked up by `fields_by_number`
    have nested := decodes length _ (progress_decodeNumbered rt fields)
      (finds_decodeNumbered rt unique)
    rw [decodeScalarValue, wireTypeForKind, readLenDelimited_write length]
    simp only [expect_self, bind, Except.bind, nested]

theorem carried_message {fields : List GrpcInputFieldMeta} (unique : UniqueFields fields)
    {entries : List (String × Value)} (distinct : (entries.map Prod.fst).Nodup)
    (each : ∀ e ∈ entries, EntryCarried rt fields e.1 e.2) :
    Carried rt (.message (.mk fields)) (.object entries) := by
  have carried := carriedAs_message unique distinct (fun _ v => some v) each
  rwa [keptEntries_of_some fun _ _ => rfl] at carried

theorem fieldCarried_list {field : FieldDescriptor} (positive : field.number ≠ 0)
    {kind : GrpcValueKind} {items : List Value} (some : items ≠ [])
    (each : ∀ item ∈ items, Carried rt kind item) :
    FieldCarried rt field (.list kind) (.array items) := by
  have carried := fieldCarriedAs_list positive id each
  simpa [some] using carried

theorem fieldCarried_map {field : FieldDescriptor} (positive : field.number ≠ 0) {keyKind : Kind}
    {valueKind : GrpcValueKind} {entries : List (MapKey × Value)} (some : entries ≠ [])
    (distinct : (entries.map Prod.fst).Nodup) (keys : ∀ e ∈ entries, CanonicalKey keyKind e.1)
    (values : ∀ e ∈ entries, Carried rt valueKind e.2) :
    FieldCarried rt field (.map keyKind valueKind) (.map entries) := by
  have carried := fieldCarriedAs_map positive id some distinct keys values
  simpa using carried

mutual

/-- All kinds of values, by recursion over them. -/
theorem carried (exact : rt.Exact) {kind : GrpcValueKind} {v : Value}
    (canonical : Canonical rt.Wide kind v) (unique : kind.Unique) : Carried rt kind v :=
  match canonical with
  -- the derivation of a nested entry is smaller than that of the message
  | .message distinct each =>
    carried_message unique.1 distinct fun e member =>
      entry_carried exact (each e member) unique.1 unique.2
  | plain@(.bool ..) | plain@(.string ..) | plain@(.bytes ..) | plain@(.int32 ..)
  | plain@(.int64 ..) | plain@(.sint32 ..) | plain@(.sint64 ..) | plain@(.sfixed32 ..)
  | plain@(.sfixed64 ..) | plain@(.uint32 ..) | plain@(.uint64 ..) | plain@(.fixed32 ..)
  | plain@(.fixed64 ..) | plain@(.float ..) | plain@(.double ..) | plain@(.enumName ..)
  | plain@(.enumNumber ..) => carried_of_canonical exact plain nofun

theorem entry_carried (exact : rt.Exact) {fields : List GrpcInputFieldMeta} {name : String}
    {v : Value} (canonical : CanonicalEntry rt.Wide fields name v) (unique : UniqueFields fields)
    (shapes : uniqueShapes fields) : EntryCarried rt fields name v :=
  match canonical with
  | .mk declared canonical =>
    ⟨_, _, declared, rfl, field_carried exact canonical (unique.positive _ declared)
      (unique_of_mem shapes declared)⟩

/-- And all shapes. -/
theorem field_carried (exact : rt.Exact) {field : FieldDescriptor} {shape : GrpcFieldShape}
    {v : Value} (canonical : CanonicalField rt.Wide shape v) (positive : field.number ≠ 0)
    (unique : shape.Unique) : FieldCarried rt field shape v :=
  match canonical with
  | .scalar canonical => fieldCarriedAs_scalar positive (carried exact canonical unique)
  | .list nonempty each =>
    fieldCarried_list positive nonempty fun item member => carried exact (each item member) unique
  | .map nonempty distinct keys values =>
    fieldCarried_map positive nonempty distinct keys fun e member =>
      carried exact (values e member) unique

end

/-- Encoding a canonical value of a schema with unique names and numbers succeeds, and both
decoders return the value from the bytes, which a buffer can hold. -/
theorem wire_round_trip (exact : rt.Exact) {fields : List GrpcInputFieldMeta}
    (unique : (GrpcMessageMeta.mk fields).Unique) {v : Value}
    (canonical : Canonical rt.Wide (.message (.mk fields)) v) :
    ∃ out, encodeMessage rt fields v = .ok out ∧
      (out.length < 2 ^ 64 →
        decodeMessageForMeta rt (.mk fields) out = .ok v ∧
          ∀ input, decodeMessageForMethod rt (GrpcMethod.new input fields) out = .ok v) := by
  cases canonical with
  | message distinct each =>
    obtain ⟨out, written, decodes⟩ := message_carried unique.1 distinct fun e member =>
      entry_carried exact (each e member) unique.1 unique.2
    refine ⟨out, written, fun fits => ⟨?_, fun input => ?_⟩⟩
    · exact decodes fits _ (progress_decodeNumbered rt fields) (finds_decodeNumbered rt unique.1)
    · exact decodes fits _ (progress_decodeIndexed rt _) (finds_decodeIndexed rt unique.1 input)

/-- The float conversions of the standard library. Its texts of floats, and the texts of kinds, are
left open; no value below has a use for them. -/
def ieee : Runtime where
  narrow := Ieee.narrow
  widen := Ieee.widen
  ofI64 := Ieee.ofI64
  ofU64 := Ieee.ofU64
  toI64 := Ieee.toI64
  toU64 := Ieee.toU64
  parseF64 _ := none
  displayF64 _ := ""
  debugKind _ := ""

theorem ieee_exact : ieee.Exact := fun x => congrArg Ieee.widen (Ieee.narrow_widen x)

def unitEnum : EnumDescriptor := .ofValues [⟨"CENT", 0⟩, ⟨"DOLLAR", 1⟩] (by decide)

def priceFields : List GrpcInputFieldMeta :=
  [.mk ⟨"amount", 1⟩ (.scalar .float), .mk ⟨"unit", 2⟩ (.scalar (.enum unitEnum))]

def orderFields : List GrpcInputFieldMeta :=
  [.mk ⟨"id", 1⟩ (.scalar .int64), .mk ⟨"counts", 2⟩ (.list .sint32),
    .mk ⟨"prices", 300⟩ (.map .string (.message (.mk priceFields)))]

def price : Value := .object [("unit", .string "DOLLAR"), ("amount", .f64 0x3fb99999a0000000)]

def order : Value :=
  .object [("prices", .map [(.string "EU", price)]), ("id", .i64 (-1)),
    ("counts", .array [.i64 5, .i64 (-7)])]

theorem canonical_price : Canonical ieee.Wide (.message (.mk priceFields)) price := by
  apply Canonical.message (by decide)
  intro e member
  simp only [List.mem_cons, List.not_mem_nil, or_false] at member
  rcases member with rfl | rfl
  · exact .mk (List.mem_cons_of_mem _ (List.mem_cons_self ..))
      (.scalar (.enumName (n := 1) (v := ⟨"DOLLAR", 1⟩) rfl))
  · exact .mk (List.mem_cons_self ..) (.scalar (.float ⟨0x3dcccccd, by decide +kernel⟩))

/-- The order, with a price that a float can hold. -/
theorem canonical_order : Canonical ieee.Wide (.message (.mk orderFields)) order := by
  apply Canonical.message (by decide)
  intro e member
  simp only [List.mem_cons, List.not_mem_nil, or_false] at member
  rcases member with rfl | rfl | rfl
  · refine .mk (List.mem_cons_of_mem _ (List.mem_cons_of_mem _ (List.mem_cons_self ..)))
      (.map (by simp) (by decide) ?_ ?_)
    · simpa using CanonicalKey.string "EU"
    · simpa using canonical_price
  · exact .mk (List.mem_cons_self ..) (.scalar (.int64 _))
  · refine .mk (List.mem_cons_of_mem _ (List.mem_cons_self ..)) (.list (by simp) ?_)
    intro item inItems
    simp only [List.mem_cons, List.not_mem_nil, or_false] at inItems
    rcases inItems with rfl | rfl
    · exact .sint32 _
    · exact .sint32 _

/-- An order with nested prices comes back. -/
theorem wire_round_trip_order :
    ∃ out, encodeMessage ieee orderFields order = .ok out ∧
      decodeMessageForMeta ieee (.mk orderFields) out = .ok order := by
  have unique : (GrpcMessageMeta.mk orderFields).Unique :=
    ⟨⟨by decide, by decide, by decide⟩, trivial, trivial,
      ⟨⟨by decide, by decide, by decide⟩, trivial, trivial, trivial⟩, trivial⟩
  obtain ⟨out, written, decodes⟩ := wire_round_trip ieee_exact unique canonical_order
  have length : (encodeMessage ieee orderFields order).map List.length = .ok 31 := by decide +kernel
  rw [written] at length
  have short : out.length = 31 := Except.ok.inj length
  exact ⟨out, written, (decodes (by omega)).1⟩

def ratioFields : List GrpcInputFieldMeta := [.mk ⟨"ratio", 1⟩ (.scalar .float)]

/-- The double nearest to 0.1. -/
def tenth : Value := .object [("ratio", .f64 0x3fb999999999999a)]

/-- A double that is no widened `f32` comes back rounded. -/
theorem float_comes_back_rounded :
    (∀ x, ieee.narrow (ieee.widen x) = x) ∧ (GrpcMessageMeta.mk ratioFields).Unique ∧
      Canonical (fun _ => True) (.message (.mk ratioFields)) tenth ∧
      ∃ out, encodeMessage ieee ratioFields tenth = .ok out ∧ out.length = 5 ∧
        decodeMessageForMeta ieee (.mk ratioFields) out ≠ .ok tenth := by
  refine ⟨Ieee.narrow_widen, ⟨⟨by decide, by decide, by decide⟩, trivial, trivial⟩, ?_, ?_⟩
  · apply Canonical.message (by decide)
    intro e member
    rw [List.mem_singleton] at member
    subst member
    exact .mk (List.mem_cons_self ..) (.scalar (.float trivial))
  · refine ⟨[13, 205, 204, 204, 61], by decide +kernel, rfl, ?_⟩
    have decoded : decodeMessageForMeta ieee (.mk ratioFields) [13, 205, 204, 204, 61] =
        .ok (.object [("ratio", .f64 0x3fb99999a0000000)]) := rfl
    rw [decoded]
    simp [tenth]

end Wrkr.Grpc.Wire
