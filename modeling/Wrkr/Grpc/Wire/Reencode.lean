import Wrkr.Grpc.Wire.Typing

/-!
# Messages that are sent on

A script may send on what it has received. A received message need not be canonical: a packed enum
is left as a number, and an empty packed record leaves an empty list. `settle` says what such a
message is received as at the other end, where the numbers have become names and the empty lists
are gone. `sent_on_settles` proves that every received message can be encoded, that it settles at
the first hop, and that it changes no more at the next one.

A record that is read is an update of its field with settled contents, and updates keep a message
`Received`; that is carried along the loop over the records, for the nested messages by recursion
on the schema.
-/
namespace Wrkr.Grpc.Wire

open Wrkr.Lib

mutual

/-- What an element is after one more hop. -/
def settle : GrpcValueKind → Value → Value
  | .enum desc, .i64 i => enumValue desc i.toUInt64.toUInt32.toInt32
  | .message (.mk fields), .object entries =>
    .object (keptEntries (fun name v => settleNamed fields name v) entries)
  | _, v => v

/-- A list without items is not written at all. -/
def settleShape : GrpcFieldShape → Value → Option Value
  | .scalar kind, v => some (settle kind v)
  | .list kind, .array items =>
    if items.isEmpty then none else some (.array (items.map fun item => settle kind item))
  | .map _ valueKind, .map entries =>
    some (.map (entries.map fun e => (e.1, settle valueKind e.2)))
  | _, v => some v

/-- The field of that name decides. -/
def settleNamed : List GrpcInputFieldMeta → String → Value → Option Value
  | [], _, v => some v
  | .mk field shape :: rest, name, v =>
    if field.name = name then settleShape shape v else settleNamed rest name v

end

/-- With distinct names that is the field itself. -/
theorem settleNamed_of_mem {fields : List GrpcInputFieldMeta}
    (names : (fields.map fun entry => entry.field.name).Nodup) {entry : GrpcInputFieldMeta}
    (member : entry ∈ fields) (v : Value) :
    settleNamed fields entry.field.name v = settleShape entry.shape v := by
  induction fields with
  | nil => simp at member
  | cons first rest ih =>
    obtain ⟨field, shape⟩ := first
    rw [List.map_cons, List.nodup_cons] at names
    rw [List.mem_cons] at member
    rcases member with rfl | later
    · rw [settleNamed]
      exact if_pos rfl
    · have other : field.name ≠ entry.field.name := fun same =>
        names.1 (same ▸ List.mem_map_of_mem later)
      rw [settleNamed, if_neg other, ih names.2 later]

/-! ### Canonical values stay -/

section Canonical

variable {floats : UInt64 → Prop}

theorem settle_plain {kind : GrpcValueKind} {v : Value} (canonical : Canonical floats kind v)
    (plain : ∀ msg, kind ≠ .message msg) : settle kind v = v := by
  cases canonical
  case enumNumber desc n undeclared => rw [settle, toUInt32_toInt64, enumValue, undeclared]
  case message fields entries distinct each => exact absurd rfl (plain (.mk fields))
  all_goals rw [settle] <;> simp

mutual

/-- A canonical value has settled. -/
theorem settle_canonical {kind : GrpcValueKind} {v : Value} (canonical : Canonical floats kind v)
    (unique : kind.Unique) : settle kind v = v :=
  match canonical with
  | .message distinct each => by
    rw [settle, keptEntries_of_some fun e member =>
      settleNamed_canonical (each e member) unique.1 unique.2]
  | plain@(.bool ..) | plain@(.string ..) | plain@(.bytes ..) | plain@(.int32 ..)
  | plain@(.int64 ..) | plain@(.sint32 ..) | plain@(.sint64 ..) | plain@(.sfixed32 ..)
  | plain@(.sfixed64 ..) | plain@(.uint32 ..) | plain@(.uint64 ..) | plain@(.fixed32 ..)
  | plain@(.fixed64 ..) | plain@(.float ..) | plain@(.double ..) | plain@(.enumName ..)
  | plain@(.enumNumber ..) => settle_plain plain (by rintro _ ⟨⟩)

theorem settleNamed_canonical {fields : List GrpcInputFieldMeta} {name : String} {v : Value}
    (canonical : CanonicalEntry floats fields name v) (unique : UniqueFields fields)
    (shapes : uniqueShapes fields) : settleNamed fields name v = some v :=
  match canonical with
  | .mk declared canonical =>
    (settleNamed_of_mem unique.names declared v).trans
      (settleShape_canonical canonical (unique_of_mem shapes declared))

/-- So has a canonical field. -/
theorem settleShape_canonical {shape : GrpcFieldShape} {v : Value}
    (canonical : CanonicalField floats shape v) (unique : shape.Unique) :
    settleShape shape v = some v :=
  match canonical with
  | .scalar canonical => by rw [settleShape, settle_canonical canonical unique]
  -- an empty list is no canonical value, so the branch that drops it is not taken
  | .list nonempty each => by
    rw [settleShape, if_neg (by simpa using nonempty),
      List.map_congr_left fun item member => settle_canonical (each item member) unique, List.map_id']
  | .map nonempty distinct keys values => by
    rw [settleShape, List.map_congr_left fun e member => by
      rw [settle_canonical (values e member) unique], List.map_id']

end

end Canonical

/-! ### Elements that were read -/

variable (rt : Runtime)

/-- The value is written, and read back as what it settles to. -/
structure Settles (kind : GrpcValueKind) (v : Value) : Prop where
  carried : CarriedAs rt kind v (settle kind v)
  canonical : Canonical rt.Wide kind (settle kind v)

/-- The values that the decoder returns for a kind, alone or out of a packed record. -/
inductive Yielded (kind : GrpcValueKind) (v : Value) : Prop
  | element {wireType : WireType} {src rest : Bytes}
      (read : decodeScalarValue rt kind wireType src = .ok (v, rest)) : Yielded kind v
  | packed {bytes : Bytes} {items : List Value}
      (read : decodePackedValues rt kind bytes = .ok items) (member : v ∈ items) : Yielded kind v

variable {rt} {kind : GrpcValueKind} {payload : Payload} {v : Value}

theorem canonical_enumValue {floats : UInt64 → Prop} (desc : EnumDescriptor) (n : Int32) :
    Canonical floats (.enum desc) (enumValue desc n) := by
  unfold enumValue
  split
  next v declared => exact .enumName declared
  next undeclared => exact .enumNumber undeclared

theorem Settles.of_canonical (exact : rt.Exact) (canonical : Canonical rt.Wide kind v)
    (plain : ∀ msg, kind ≠ .message msg) : Settles rt kind v := by
  have same := settle_plain canonical plain
  refine ⟨?_, by rwa [same]⟩
  rw [same]
  exact carried_of_canonical exact canonical plain

/-- A packed number is written in full and read as an unpacked one. -/
theorem settles_enumNumber (desc : EnumDescriptor) (i : Int64) :
    Settles rt (.enum desc) (.i64 i) := by
  have settled : settle (.enum desc) (.i64 i) = enumValue desc i.toUInt64.toUInt32.toInt32 := by
    rw [settle]
  refine ⟨⟨writeVariant i.toUInt64, fun n => ?_, fun _ rest => ?_⟩, ?_⟩
  · rw [encodeScalarField]
    rfl
  · rw [decodeScalarValue, wireTypeForKind, readVariant_write, settled]
    simp only [expect_self, bind, Except.bind]
  · rw [settled]
    exact canonical_enumValue desc _

/-- The values that a payload stands for. -/
def Payload.StandsFor (payload : Payload) (v : Value) : Prop :=
  match payload with
  | .varint value => ∃ n, v = value n
  | .fixed32 value => ∃ n, v = value n
  | .fixed64 value => ∃ n, v = value n

/-- What a payload reads stands for a number of its width. -/
theorem Payload.standsFor_of_read {eof : String} {src rest : Bytes}
    (read : payload.read eof src = .ok (v, rest)) : payload.StandsFor v := by
  cases payload with
  | varint value =>
    obtain ⟨⟨n, src'⟩, -, read⟩ := bind_ok read
    cases read
    exact ⟨n, rfl⟩
  | fixed32 value | fixed64 value =>
    obtain ⟨⟨⟩, -, read⟩ := bind_ok read
    obtain ⟨⟨n, src'⟩, -, read⟩ := bind_ok read
    cases read
    exact ⟨n, rfl⟩

/-- And such a value is canonical. -/
theorem canonical_scalarPayload (stored : scalarPayload rt kind = some payload)
    (value : payload.StandsFor v) : Canonical rt.Wide kind v := by
  cases kind
  -- what is delimited by a length is no number
  case string | bytes | message => cases stored
  all_goals
    cases stored
    obtain ⟨n, rfl⟩ := value
  case bool => exact .bool _
  case int32 => exact .int32 _
  case int64 => exact .int64 _
  case sint32 => exact .sint32 _
  case sint64 => exact .sint64 _
  case sfixed32 => exact .sfixed32 _
  case sfixed64 => exact .sfixed64 _
  case uint32 => exact .uint32 _
  case uint64 => exact .uint64 _
  case fixed32 => exact .fixed32 _
  case fixed64 => exact .fixed64 _
  -- a float that was read is one widened from the wire
  case float => exact .float ⟨n, rfl⟩
  case double => exact .double _
  case enum desc => exact canonical_enumValue desc _

/-- The same of every item of a packed list. -/
theorem standsFor_of_packed (stored : packedPayload rt kind = some payload) {bytes : Bytes}
    {items : List Value} (read : decodePackedValues rt kind bytes = .ok items) (member : v ∈ items) :
    payload.StandsFor v := by
  obtain ⟨eof, reads⟩ := decodePackedValues_payload stored
  rw [reads, packedLoop_eq] at read
  refine @whileRemaining_invariant _ _ _ _ _ (fun out => ∀ v ∈ out, payload.StandsFor v) ?_ _ _
    (by simp) _ read v member
  -- one more item: it is among those before or the one just read
  intro out src out' rest inv step v member
  obtain ⟨⟨v', src'⟩, isRead, step⟩ := bind_ok step
  cases step
  rcases List.mem_append.mp member with old | new
  · exact inv v old
  · exact List.mem_singleton.mp new ▸ Payload.standsFor_of_read isRead

/-- Every kind that is no message. -/
theorem Yielded.settles_plain (yielded : Yielded rt kind v) (exact : rt.Exact)
    (plain : ∀ msg, kind ≠ .message msg) : Settles rt kind v := by
  cases yielded with
  | element read =>
    apply Settles.of_canonical exact ?_ plain
    cases stored : scalarPayload rt kind with
    | some payload =>
      obtain ⟨eof, message, scalarReads⟩ := decodeScalarValue_payload stored
      rw [scalarReads] at read
      obtain ⟨-, -, read⟩ := bind_ok read
      exact canonical_scalarPayload stored (Payload.standsFor_of_read read)
    | none =>
      cases kind
      case string | bytes =>
        rw [decodeScalarValue] at read
        obtain ⟨-, -, read⟩ := bind_ok read
        obtain ⟨⟨b, src'⟩, -, read⟩ := bind_ok read
        cases read
        constructor
      case message msg => exact absurd rfl (plain msg)
      all_goals cases stored
  | packed read member =>
    cases kind
    case string | bytes | message => cases read
    -- a packed number that the enum knows settles to its name
    case enum desc =>
      obtain ⟨n, rfl⟩ := standsFor_of_packed rfl read member
      exact settles_enumNumber desc _
    all_goals
      exact .of_canonical exact (canonical_scalarPayload rfl (standsFor_of_packed rfl read member)) plain

/-! ### Fields -/

variable {shape : GrpcFieldShape}

variable (rt) in
/-- The value of a field of a message that was read. -/
inductive Received : GrpcFieldShape → Value → Prop
  | scalar {kind : GrpcValueKind} {v : Value} (value : Settles rt kind v) :
    Received (.scalar kind) v
  | list {kind : GrpcValueKind} {items : List Value} (each : ∀ item ∈ items, Settles rt kind item) :
    Received (.list kind) (.array items)
  | map {keyKind : Kind} {valueKind : GrpcValueKind} {entries : List (MapKey × Value)}
    (nonempty : entries ≠ []) (distinct : (entries.map Prod.fst).Nodup)
    (keys : ∀ e ∈ entries, CanonicalKey keyKind e.1)
    (values : ∀ e ∈ entries, Settles rt valueKind e.2) : Received (.map keyKind valueKind) (.map entries)

/-- A received field is carried as what it settles to. -/
theorem Received.carried (received : Received rt shape v) {field : FieldDescriptor}
    (positive : field.number ≠ 0) : FieldCarriedAs rt field shape v (settleShape shape v) := by
  cases received with
  | scalar value =>
    rw [settleShape]
    exact fieldCarriedAs_scalar positive value.carried
  | list each =>
    rw [settleShape]
    exact fieldCarriedAs_list positive _ fun item member => (each item member).carried
  | map nonempty distinct keys values =>
    rw [settleShape]
    exact fieldCarriedAs_map positive _ nonempty distinct keys fun e member =>
      (values e member).carried

/-- Which is canonical. -/
theorem Received.canonical (received : Received rt shape v) {w : Value}
    (kept : settleShape shape v = some w) : CanonicalField rt.Wide shape w := by
  cases received with
  | scalar value =>
    rw [settleShape] at kept
    cases kept
    exact .scalar value.canonical
  | list each =>
    rename_i items
    rw [settleShape] at kept
    split at kept
    next => cases kept
    -- settling an element does not change which list it is in
    next nonempty =>
      cases kept
      refine .list (by simpa using nonempty) fun item member => ?_
      obtain ⟨item, inItems, rfl⟩ := List.mem_map.mp member
      exact (each item inItems).canonical
  | map nonempty distinct keys values =>
    rw [settleShape] at kept
    cases kept
    -- the keys are not touched
    refine .map (by simpa using nonempty) (by rwa [List.map_map]) (fun e member => ?_)
      fun e member => ?_
    all_goals obtain ⟨e, inEntries, rfl⟩ := List.mem_map.mp member
    · exact keys e inEntries
    · exact (values e inEntries).canonical

variable (rt) in
/-- An update with settled contents. -/
inductive FieldUpdate.Settles : GrpcFieldShape → FieldUpdate → Prop
  | scalar {kind : GrpcValueKind} {v : Value} (value : Wire.Settles rt kind v) :
    Settles (.scalar kind) (.set v)
  | list {kind : GrpcValueKind} {items : List Value}
    (each : ∀ item ∈ items, Wire.Settles rt kind item) : Settles (.list kind) (.append items)
  | map {keyKind : Kind} {valueKind : GrpcValueKind} {k : MapKey} {v : Value}
    (key : CanonicalKey keyKind k) (value : Wire.Settles rt valueKind v) :
    Settles (.map keyKind valueKind) (.put k v)

/-- The updates of one field keep it received: a map gets no key twice. -/
theorem FieldUpdate.Settles.received {update : FieldUpdate}
    (settles : FieldUpdate.Settles rt shape update) {prev : Option Value}
    (before : ∀ v, prev = some v → Received rt shape v) :
    Received rt shape (update.apply prev) := by
  cases settles with
  | scalar value => exact .scalar value
  | list each =>
    cases prev with
    | none => exact .list each
    | some old =>
      cases before old rfl with
      | list first =>
        refine .list fun item member => ?_
        rcases List.mem_append.mp member with old | new
        · exact first item old
        · exact each item new
  | map key value =>
    rename_i k v
    cases prev with
    | none => exact .map (by simp) (by simp) (by simpa using key) (by simpa using value)
    | some old =>
      cases before old rfl with
      | map nonempty distinct keys values =>
        rename_i entries
        have distinct' := HashTable.nodup_insertEntry distinct k v
        -- after the insert there is the new entry and what was there
        have each (e : MapKey × Value) (member : e ∈ HashTable.insertEntry entries k v) :
            e = (k, v) ∨ e ∈ entries := by
          have found := (HashTable.lookup_eq_some_iff_mem distinct' e.1 e.2).mpr member
          rw [HashTable.lookup_insertEntry] at found
          split at found
          next same => exact .inl (Prod.ext same (Option.some.inj found).symm)
          next => exact .inr ((HashTable.lookup_eq_some_iff_mem distinct e.1 e.2).mp found)
        refine .map ?_ distinct' (fun e member => ?_) fun e member => ?_
        · intro none
          have found := HashTable.lookup_insertEntry entries k v k
          rw [none, if_pos rfl] at found
          cases found
        · rcases each e member with rfl | old
          · exact key
          · exact keys e old
        · rcases each e member with rfl | old
          · exact value
          · exact values e old

/-- A key that was decoded is canonical. -/
theorem canonical_decodeMapKey {keyKind : Kind} {wireType : WireType} {src rest : Bytes}
    {key : MapKey} (read : decodeMapKey rt keyKind wireType src = .ok (key, rest)) :
    CanonicalKey keyKind key := by
  cases keyKind
  -- no map has such keys
  case double | float | bytes | message | enum => cases read
  case string =>
    obtain ⟨-, -, read⟩ := bind_ok read
    obtain ⟨⟨b, src'⟩, -, read⟩ := bind_ok read
    dsimp only at read
    split at read
    · cases read
      exact .string _
    · cases read
  all_goals
    obtain ⟨-, -, read⟩ := bind_ok read
    obtain ⟨⟨n, src'⟩, -, read⟩ := bind_ok read
    cases read
    constructor

/-- A record that is read is a settled update of its field. -/
theorem Reading.settles {r : WireRecord} {update : FieldUpdate} (reading : Reading rt r shape update)
    (settling : ∀ v, Yielded rt (elementKind shape) v → Settles rt (elementKind shape) v) :
    FieldUpdate.Settles rt shape update := by
  cases reading with
  | scalar decoded => exact .scalar (settling _ (.element decoded))
  | list decoded =>
    refine .list fun item member => ?_
    -- a list is read from a packed record or element by element
    rw [decodeList] at decoded
    split at decoded
    · obtain ⟨⟨bytes, src'⟩, -, decoded⟩ := bind_ok decoded
      obtain ⟨items, packed, decoded⟩ := bind_ok decoded
      cases decoded
      exact settling item (.packed packed member)
    · obtain ⟨⟨v, src'⟩, element, decoded⟩ := bind_ok decoded
      cases decoded
      exact List.mem_singleton.mp member ▸ settling v (.element element)
  | map decoded =>
    obtain ⟨keys, values⟩ := decodeMapEntry_records decoded
    obtain ⟨keyRecord, rest, -, isKey⟩ := keys _ rfl
    obtain ⟨valueRecord, rest', -, isValue⟩ := values _ rfl
    exact .map (canonical_decodeMapKey isKey) (settling _ (.element isValue))

/-! ### Messages -/

variable {fields : List GrpcInputFieldMeta}

variable (rt) in
/-- What the loop has built so far: fields that are declared, with received values. -/
structure ReceivedMessage (fields : List GrpcInputFieldMeta) (out : ObjectMap) : Prop where
  distinct : (out.map Prod.fst).Nodup
  each : ∀ name v, out.lookup name = some v →
    ∃ entry ∈ fields, entry.field.name = name ∧ Received rt entry.shape v

/-- One more record. -/
theorem ReceivedMessage.put {out : ObjectMap} (inv : ReceivedMessage rt fields out)
    (names : (fields.map fun entry => entry.field.name).Nodup) {entry : GrpcInputFieldMeta}
    (declared : entry ∈ fields) {update : FieldUpdate}
    (settles : FieldUpdate.Settles rt entry.shape update) :
    ReceivedMessage rt fields (putField out entry.field.name update) := by
  refine ⟨HashTable.nodup_insertEntry inv.distinct _ _, fun name v found => ?_⟩
  rw [putField, HashTable.lookup_insertEntry] at found
  split at found
  next same =>
    cases found
    refine ⟨entry, declared, same.symm, settles.received fun old isOld => ?_⟩
    obtain ⟨entry', declared', sameName, received⟩ := inv.each _ old isOld
    -- the name determines the field
    have shapes := fieldShape_of_mem names declared'
    rw [sameName, fieldShape_of_mem names declared] at shapes
    exact (Option.some.inj shapes) ▸ received
  next => exact inv.each name v found

/-- What the loop over the records of a message ends with. -/
theorem receivedMessage_of_loop (names : (fields.map fun entry => entry.field.name).Nodup)
    (settling : ∀ entry ∈ fields, ∀ v, Yielded rt (elementKind entry.shape) v →
      Settles rt (elementKind entry.shape) v) {bytes : Bytes} {out : ObjectMap}
    (loop : whileRemaining .diverge (messageStep (decodeNumbered rt fields)) [] bytes = .ok out) :
    ReceivedMessage rt fields out := by
  refine whileRemaining_invariant ?_ (⟨List.nodup_nil, by simp⟩ : ReceivedMessage rt fields []) loop
  intro out src out' rest inv step
  obtain ⟨⟨n, wireType, src'⟩, -, step⟩ := bind_ok step
  dsimp only at step
  split at step
  · obtain ⟨src'', -, step⟩ := bind_ok step
    cases step
    exact inv
  -- an unknown field was skipped; a known one updates its entry
  next decode found =>
    rw [decodeNumbered_eq_lastWith, Option.map_eq_some_iff] at found
    obtain ⟨entry, isLast, rfl⟩ := found
    have declared := List.mem_of_mem_filter (HashTable.lastWith_mem _ isLast)
    obtain ⟨-, update, reading, rfl⟩ := decodeFieldInto_reading ⟨n, wireType, src'⟩ step
    exact inv.put names declared (reading.settles (settling entry declared))

/-- Every entry is carried as what it settles to. -/
theorem ReceivedMessage.kept {out : ObjectMap} (received : ReceivedMessage rt fields out)
    (unique : UniqueFields fields) {e : String × Value} (member : e ∈ out) :
    EntryCarriedAs rt fields e.1 e.2 (settleNamed fields e.1 e.2) ∧
      ∀ w, settleNamed fields e.1 e.2 = some w → CanonicalEntry rt.Wide fields e.1 w := by
  obtain ⟨entry, declared, isName, value⟩ := received.each e.1 e.2
    ((HashTable.lookup_eq_some_iff_mem received.distinct e.1 e.2).mpr member)
  -- the entry is of the declared field, and no other one has the name
  have settled := settleNamed_of_mem unique.names declared e.2
  have positive := unique.positive entry declared
  obtain ⟨field, shape⟩ := entry
  rw [← isName]
  refine ⟨⟨field, shape, declared, rfl, ?_⟩, fun w kept => ?_⟩
  · rw [settled]
    exact value.carried positive
  · exact .mk declared (value.canonical (settled ▸ kept))

theorem keptEntries_nodup {kept : String → Value → Option Value} {entries : ObjectMap}
    (distinct : (entries.map Prod.fst).Nodup) : ((keptEntries kept entries).map Prod.fst).Nodup := by
  -- what is left out leaves the names of the others in order
  refine distinct.sublist ?_
  induction entries with
  | nil => exact List.Sublist.refl _
  | cons e rest ih =>
    have later := ih (List.nodup_cons.mp distinct).2
    rw [keptEntries, List.flatMap_cons, List.map_append, List.map_cons]
    cases kept e.1 e.2 with
    | none => exact .cons _ later
    | some w => exact .cons_cons _ later

/-- And so is the whole message. -/
theorem ReceivedMessage.settles {out : ObjectMap} (received : ReceivedMessage rt fields out)
    (unique : UniqueFields fields) : Settles rt (.message (.mk fields)) (.object out) := by
  have settled : settle (.message (.mk fields)) (.object out) =
      .object (keptEntries (fun name v => settleNamed fields name v) out) := by
    rw [settle]
  refine ⟨?_, ?_⟩
  · rw [settled]
    exact carriedAs_message unique received.distinct _ fun e member =>
      (received.kept unique member).1
  · rw [settled]
    refine .message (keptEntries_nodup received.distinct) fun e member => ?_
    -- an entry of the settled message comes from one of the message
    obtain ⟨e', inOut, member⟩ := List.mem_flatMap.mp member
    rw [Option.mem_toList, Option.map_eq_some_iff] at member
    obtain ⟨w, kept, rfl⟩ := member
    exact (received.kept unique inOut).2 w kept

/-- A nested message, read on its own. -/
theorem settles_message (unique : UniqueFields fields)
    (settling : ∀ entry ∈ fields, ∀ v, Yielded rt (elementKind entry.shape) v →
      Settles rt (elementKind entry.shape) v) (yielded : Yielded rt (.message (.mk fields)) v) :
    Settles rt (.message (.mk fields)) v := by
  cases yielded with
  | element read =>
    rw [decodeScalarValue] at read
    -- behind the wire type and the length stands a message of its own
    obtain ⟨-, -, read⟩ := bind_ok read
    obtain ⟨⟨bytes, src'⟩, -, read⟩ := bind_ok read
    obtain ⟨value, nested, read⟩ := bind_ok read
    cases read
    obtain ⟨out, loop, nested⟩ := bind_ok nested
    cases nested
    exact (receivedMessage_of_loop unique.names settling loop).settles unique
  | packed read member => cases read

mutual

theorem settles_yielded (exact : rt.Exact) :
    (kind : GrpcValueKind) → kind.Unique → ∀ v, Yielded rt kind v → Settles rt kind v
  | .message (.mk fields) => fun unique _ yielded =>
    settles_message unique.1 (settles_fields exact fields unique.2) yielded
  | .bool | .string | .bytes | .int32 | .sint32 | .sfixed32 | .int64 | .sint64 | .sfixed64
  | .uint32 | .fixed32 | .uint64 | .fixed64 | .float | .double | .enum _ => fun _ _ yielded =>
    yielded.settles_plain exact (by rintro _ ⟨⟩)

theorem settles_shape (exact : rt.Exact) :
    (shape : GrpcFieldShape) → shape.Unique → ∀ v, Yielded rt (elementKind shape) v →
      Settles rt (elementKind shape) v
  | .scalar kind => settles_yielded exact kind
  | .list kind => settles_yielded exact kind
  | .map _ kind => settles_yielded exact kind

/-- All kinds of values, by recursion over the shapes. -/
theorem settles_fields (exact : rt.Exact) :
    (fields : List GrpcInputFieldMeta) → uniqueShapes fields → ∀ entry ∈ fields, ∀ v,
      Yielded rt (elementKind entry.shape) v → Settles rt (elementKind entry.shape) v
  | [] => fun _ _ member => absurd member List.not_mem_nil
  | .mk _ shape :: rest => fun unique entry member =>
    (List.mem_cons.mp member).elim (fun same => same ▸ settles_shape exact shape unique.1)
      fun later => settles_fields exact rest unique.2 entry later

end

/-- Whatever message was received, it can be sent on, and both decoders read it as what it settles
to. A second hop changes nothing: what it settled to is canonical, and comes back as it is. It is
the message itself exactly when that was canonical. -/
theorem sent_on_settles (exact : rt.Exact) (unique : (GrpcMessageMeta.mk fields).Unique)
    {bytes : Bytes} (received : decodeMessageForMeta rt (.mk fields) bytes = .ok v) :
    (settle (.message (.mk fields)) v = v ↔ Canonical rt.Wide (.message (.mk fields)) v) ∧
      ∀ w, w = v ∨ w = settle (.message (.mk fields)) v →
        ∃ out, encodeMessage rt fields w = .ok out ∧ (out.length < 2 ^ 64 →
          decodeMessageForMeta rt (.mk fields) out = .ok (settle (.message (.mk fields)) v) ∧
            ∀ input, decodeMessageForMethod rt (GrpcMethod.new input fields) out =
              .ok (settle (.message (.mk fields)) v)) := by
  obtain ⟨out, loop, received⟩ := bind_ok received
  cases received
  have message := receivedMessage_of_loop unique.1.names (settles_fields exact fields unique.2) loop
  have settles := message.settles unique.1
  refine ⟨⟨fun same => same ▸ settles.canonical, fun canonical => settle_canonical canonical unique⟩,
    ?_⟩
  rintro w (rfl | rfl)
  -- the message as it was received
  · obtain ⟨bytes, written, decodes⟩ := message_carriedAs unique.1 message.distinct
      (fun name v => settleNamed fields name v) fun e member => (message.kept unique.1 member).1
    refine ⟨bytes, written, fun fits => ?_⟩
    rw [settle]
    exact ⟨decodes fits _ (progress_decodeNumbered rt fields) (finds_decodeNumbered rt unique.1),
      fun input => decodes fits _ (progress_decodeIndexed rt _)
        (finds_decodeIndexed rt unique.1 input)⟩
  -- and the canonical one
  · have canonical := settles.canonical
    rw [settle] at canonical ⊢
    cases canonical with
    | message distinct each =>
      obtain ⟨bytes, written, decodes⟩ := message_carried unique.1 distinct fun e member =>
        entry_carried exact (each e member) unique.1 unique.2
      refine ⟨bytes, written, fun fits => ?_⟩
      exact ⟨decodes fits _ (progress_decodeNumbered rt fields) (finds_decodeNumbered rt unique.1),
        fun input => decodes fits _ (progress_decodeIndexed rt _)
          (finds_decodeIndexed rt unique.1 input)⟩

def parcelFields : List GrpcInputFieldMeta :=
  [.mk ⟨"units", 1⟩ (.list (.enum unitEnum)), .mk ⟨"counts", 2⟩ (.list .sint32)]

/-- Packed units without names, and no counts. -/
def parcel : Value := .object [("units", .array [.i64 1, .i64 7]), ("counts", .array [])]

/-- A unit gets its name at the next hop, and the counts are gone. -/
theorem sent_on_settles_parcel :
    ∃ out, encodeMessage ieee parcelFields parcel = .ok out ∧
      decodeMessageForMeta ieee (.mk parcelFields) out =
        .ok (.object [("units", .array [.string "DOLLAR", .i64 7])]) := by
  have unique : (GrpcMessageMeta.mk parcelFields).Unique :=
    ⟨⟨by decide, by decide, by decide⟩, trivial, trivial, trivial⟩
  have received : decodeMessageForMeta ieee (.mk parcelFields) [0x0a, 2, 1, 7, 0x12, 0] =
      .ok parcel := rfl
  obtain ⟨-, hops⟩ := sent_on_settles ieee_exact unique received
  obtain ⟨out, written, decodes⟩ := hops parcel (.inl rfl)
  have length : (encodeMessage ieee parcelFields parcel).map List.length = .ok 4 := by
    decide +kernel
  rw [written] at length
  have short : out.length = 4 := Except.ok.inj length
  exact ⟨out, written, (decodes (by omega)).1⟩

end Wrkr.Grpc.Wire
