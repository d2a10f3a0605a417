import Wrkr.Grpc.Wire.Concat

/-!
# Typed responses

`TypedValue` says what a value of a kind is, with the ranges of the 32-bit kinds. A varint carries
64 bits whatever the kind, and only an unpacked enum is cut down to 32, so a decoded message is
typed when the numbers that end up in it fit their kinds. `FitsRecords` says that of the records of
the message: the last one of a singular field, all of a repeated field, the last one for each key
of a map field. The loop over the records and a loop that only collects them run in step
(`messageStep_lockstep`), and with each record both sides change alike (`Tracks.record`).
-/
namespace Wrkr.Grpc.Wire

open Wrkr.Lib

/-! ### Values of a kind -/

/-- The range of `i32`. -/
def InI32 (i : Int64) : Prop := -2 ^ 31 ≤ i.toInt ∧ i.toInt < 2 ^ 31

/-- The range of `u32`. -/
def InU32 (u : UInt64) : Prop := u.toNat < 2 ^ 32

/-- The key has the type of its kind, and its range. -/
def TypedKey : Kind → MapKey → Prop
  | .string, .string _ | .bool, .bool _ => True
  | .int64, .i64 _ | .sint64, .i64 _ | .sfixed64, .i64 _ => True
  | .uint64, .u64 _ | .fixed64, .u64 _ => True
  | .int32, .i64 i | .sint32, .i64 i | .sfixed32, .i64 i => InI32 i
  | .uint32, .u64 u | .fixed32, .u64 u => InU32 u
  | _, _ => False

mutual

/-- The value has the type and the range of its kind. A number that the enum has no name for stays a
number. -/
def TypedValue : GrpcValueKind → Value → Prop
  | .bool, .bool _ | .string, .string _ | .bytes, .bytes _ => True
  | .int32, .i64 i | .sint32, .i64 i | .sfixed32, .i64 i => InI32 i
  | .int64, .i64 _ | .sint64, .i64 _ | .sfixed64, .i64 _ => True
  | .uint32, .u64 u | .fixed32, .u64 u => InU32 u
  | .uint64, .u64 _ | .fixed64, .u64 _ => True
  | .float, .f64 _ | .double, .f64 _ => True
  | .enum desc, .string name => ∃ v ∈ desc.values, v.name = name
  | .enum _, .i64 i => InI32 i
  | .message (.mk fields), .object out => ∀ e ∈ out, TypedField fields e.1 e.2
  | _, _ => False

/-- All values of the field are typed. -/
def TypedShape : GrpcFieldShape → Value → Prop
  | .scalar kind, v => TypedValue kind v
  | .list kind, .array items => ∀ v ∈ items, TypedValue kind v
  | .map keyKind valueKind, .map entries =>
    ∀ e ∈ entries, TypedKey keyKind e.1 ∧ TypedValue valueKind e.2
  | _, _ => False

/-- A field with the name is declared, with a shape that the value has. -/
def TypedField : List GrpcInputFieldMeta → String → Value → Prop
  | [], _, _ => False
  | .mk field shape :: rest, name, v => field.name = name ∧ TypedShape shape v ∨ TypedField rest name v

end

/-! ### Numbers that fit -/

/-- A record: its number, its wire type, and the buffer from its value on. -/
structure WireRecord where
  number : UInt32
  wireType : WireType
  src : Bytes

/-- Collects the records of a message without decoding them. -/
def recordStep (records : List WireRecord) (src : Bytes) : Decoded (List WireRecord × Bytes) := do
  let (number, wireType, src) ← readTag src
  let rest ← skipValue wireType src
  .ok (records ++ [⟨number, wireType, src⟩], rest)

/-- The records of a message. -/
def recordsOf (bytes : Bytes) : List WireRecord :=
  match whileRemaining .diverge recordStep [] bytes with
  | .ok records => records
  | .error _ => []

/-- Collects the varints of a packed list. -/
def varintStep (varints : List UInt64) (src : Bytes) : Decoded (List UInt64 × Bytes) := do
  let (v, src) ← readVariant src
  .ok (varints ++ [v], src)

/-- The varints of a packed record. -/
def varintsOf (bytes : Bytes) : List UInt64 :=
  match whileRemaining .diverge varintStep [] bytes with
  | .ok varints => varints
  | .error _ => []

/-- The records with a number. -/
def WireRecord.withNumber (n : UInt32) (records : List WireRecord) : List WireRecord :=
  records.filter fun r => r.number = n

namespace WireRecord

/-- The bytes of a length-delimited record. -/
def payload (r : WireRecord) : Bytes :=
  match readLenDelimited r.src with
  | .ok (bytes, _) => bytes
  | .error _ => []

/-- The varint of a record. -/
def varint (r : WireRecord) : UInt64 :=
  match readVariant r.src with
  | .ok (v, _) => v
  | .error _ => 0

/-- The last key and the last value in a map entry. -/
def entryKey? (r : WireRecord) : Option WireRecord := HashTable.lastWith number 1 (recordsOf r.payload)

/-- The last record with the number of the value. -/
def entryValue? (r : WireRecord) : Option WireRecord :=
  HashTable.lastWith number 2 (recordsOf r.payload)

/-- The key that a map entry has. -/
def key (rt : Runtime) (keyKind : Kind) (r : WireRecord) : Option MapKey :=
  r.entryKey?.bind fun k =>
    match decodeMapKey rt keyKind k.wireType k.src with
    | .ok (key, _) => some key
    | .error _ => none

end WireRecord

/-- The varint of a kind that is read as 64 bits. -/
def FitsVarint : GrpcValueKind → UInt64 → Prop
  | .int32, v => InI32 v.toInt64
  | .sint32, v => InI32 (decodeZigzag64 v)
  | .uint32, v => InU32 v
  | _, _ => True

/-- In a packed record an enum is a number like others. -/
def FitsPacked : GrpcValueKind → UInt64 → Prop
  | .enum _, v => InI32 v.toInt64
  | kind, v => FitsVarint kind v

/-- The varint has no bits beyond the kind. -/
def FitsKey : Kind → UInt64 → Prop
  | .int32, v | .sint32, v | .sfixed32, v => InI32 v.toInt64
  | .uint32, v | .fixed32, v => InU32 v
  | _, _ => True

section Fits

variable (rt : Runtime)

mutual

/-- The number of a record that is no packed one fits the kind; in a message, all of them do. -/
def FitsValue : GrpcValueKind → WireRecord → Prop
  | .message (.mk fields), r => FitsRecords fields (recordsOf r.payload)
  | kind, r => FitsVarint kind r.varint

/-- The records of a field fit. -/
def FitsShape : GrpcFieldShape → List WireRecord → Prop
  | .scalar kind, records => ∀ r ∈ records.getLast?, FitsValue kind r
  | .list kind, records => ∀ r ∈ records,
    if r.wireType = .len ∧ kindIsPackable kind then ∀ v ∈ varintsOf r.payload, FitsPacked kind v
    else FitsValue kind r
  -- an entry is replaced by a later one with its key
  | .map keyKind valueKind, records => ∀ key r,
    HashTable.lastWith (WireRecord.key rt keyKind) (some key) records = some r →
      (∀ k ∈ r.entryKey?, FitsKey keyKind k.varint) ∧ ∀ v ∈ r.entryValue?, FitsValue valueKind v

/-- The records of every field fit. -/
def FitsRecords : List GrpcInputFieldMeta → List WireRecord → Prop
  | [], _ => True
  | .mk field shape :: rest, records =>
    FitsShape shape (WireRecord.withNumber field.number records) ∧ FitsRecords rest records

end

end Fits

/-! ### Elements -/

section Elements

variable {rt : Runtime} {kind : GrpcValueKind} {payload : Payload}

theorem inI32_toInt64 (n : Int32) : InI32 n.toInt64 := by
  rw [InI32, Int32.toInt_toInt64]
  exact ⟨n.le_toInt, n.toInt_lt⟩

theorem inU32_toUInt64 (n : UInt32) : InU32 n.toUInt64 := by
  rw [InU32, UInt32.toNat_toUInt64]
  exact n.toNat_lt

/-- An unpacked enum is a declared name, or a number that was cut down to 32 bits. -/
theorem typed_enumValue (desc : EnumDescriptor) (n : Int32) :
    TypedValue (.enum desc) (enumValue desc n) := by
  unfold enumValue
  split
  next v found =>
    simp only [TypedValue]
    exact ⟨v, (desc.getValue_some n v found).1, rfl⟩
  next =>
    simp only [TypedValue]
    exact inI32_toInt64 n

/-- The values that a payload stands for are of the kind when their varint fits. -/
def Payload.Typed (kind : GrpcValueKind) (fits : UInt64 → Prop) : Payload → Prop
  | .varint value => ∀ n, TypedValue kind (value n) ↔ fits n
  | .fixed32 value => (∀ n, TypedValue kind (value n)) ∧ ∀ n, fits n
  | .fixed64 value => (∀ n, TypedValue kind (value n)) ∧ ∀ n, fits n

/-- What a payload yields is typed exactly if its number fits. -/
theorem scalarPayload_typed (stored : scalarPayload rt kind = some payload) :
    payload.Typed kind (FitsVarint kind) := by
  cases kind
  case string | bytes | message => cases stored
  case enum desc =>
    cases stored
    intro n
    simpa only [FitsVarint, iff_true] using typed_enumValue desc _
  -- a fixed width never exceeds its kind, a varint may
  case fixed32 =>
    cases stored
    refine ⟨fun n => ?_, fun _ => by simp only [FitsVarint]⟩
    simpa only [TypedValue] using inU32_toUInt64 n
  case sfixed32 =>
    cases stored
    refine ⟨fun n => ?_, fun _ => by simp only [FitsVarint]⟩
    simpa only [TypedValue] using inI32_toInt64 n.toInt32
  case float | fixed64 | sfixed64 | double =>
    cases stored
    exact ⟨fun _ => by simp only [TypedValue], fun _ => by simp only [FitsVarint]⟩
  all_goals
    cases stored
    intro n
    simp only [TypedValue, FitsVarint]

theorem packedPayload_typed (stored : packedPayload rt kind = some payload) :
    payload.Typed kind (FitsPacked kind) := by
  cases kind
  case enum desc =>
    cases stored
    intro n
    simp only [TypedValue, FitsPacked]
  all_goals exact scalarPayload_typed (show scalarPayload rt _ = some payload from stored)

/-- The elements of a packed record are of the kind when its varints fit. -/
theorem typed_decodePackedValues {bytes : Bytes} {items : List Value}
    (decoded : decodePackedValues rt kind bytes = .ok items) :
    (∀ v ∈ items, TypedValue kind v) ↔ ∀ n ∈ varintsOf bytes, FitsPacked kind n := by
  cases stored : packedPayload rt kind with
  | none =>
    cases kind
    case string | bytes | message => cases decoded
    all_goals cases stored
  | some payload =>
    have typed := packedPayload_typed stored
    obtain ⟨eof, reads⟩ := decodePackedValues_payload stored
    rw [reads, packedLoop_eq] at decoded
    -- the numbers of fixed width all fit
    have fixed {β : Type} (value : β → Value) (all : ∀ n, TypedValue kind (value n))
        (fits : ∀ n, FitsPacked kind n) (each : ∀ src v rest,
          payload.read eof src = .ok (v, rest) → ∃ n, v = value n) :
        (∀ v ∈ items, TypedValue kind v) ↔ ∀ n ∈ varintsOf bytes, FitsPacked kind n := by
      refine iff_of_true ?_ fun n _ => fits n
      refine @whileRemaining_invariant _ _ _ _ _ (fun out => ∀ v ∈ out, TypedValue kind v) ?_ _ _
        (by simp) _ decoded
      intro out src out' rest inv step v member
      obtain ⟨⟨v', src'⟩, isRead, step⟩ := bind_ok step
      cases step
      rcases List.mem_append.mp member with old | new
      · exact inv v old
      · obtain ⟨n, rfl⟩ := each _ _ _ isRead
        exact List.mem_singleton.mp new ▸ all n
    cases payload with
    | varint value =>
      -- the loop that only reads the varints keeps in step
      obtain ⟨varints, done, rfl⟩ := whileRemaining_lockstep varintStep
        (fun items varints => items = varints.map value)
        (fun items varints src items' rest same step => by
          obtain ⟨⟨v, src'⟩, isRead, step⟩ := bind_ok step
          obtain ⟨⟨n, src''⟩, isVarint, isRead⟩ := bind_ok isRead
          cases step
          cases isRead
          exact ⟨varints ++ [n], by rw [varintStep, isVarint]; rfl, by simp [same]⟩)
        (t := []) rfl decoded
      rw [varintsOf, done]
      simp only [List.forall_mem_map]
      exact forall₂_congr fun n _ => typed n
    | fixed32 value =>
      refine fixed value typed.1 typed.2 fun src v rest isRead => ?_
      obtain ⟨⟨⟩, -, isRead⟩ := bind_ok isRead
      obtain ⟨⟨n, src'⟩, -, isRead⟩ := bind_ok isRead
      cases isRead
      exact ⟨n, rfl⟩
    | fixed64 value =>
      refine fixed value typed.1 typed.2 fun src v rest isRead => ?_
      obtain ⟨⟨⟩, -, isRead⟩ := bind_ok isRead
      obtain ⟨⟨n, src'⟩, -, isRead⟩ := bind_ok isRead
      cases isRead
      exact ⟨n, rfl⟩

/-! ### The end of a record -/

/-- The wire type of a single value. -/
def Payload.wireType : Payload → WireType
  | .varint _ => .varint
  | .fixed32 _ => .thirtyTwoBit
  | .fixed64 _ => .sixtyFourBit

theorem wireTypeForKind_payload (stored : scalarPayload rt kind = some payload) :
    wireTypeForKind kind = payload.wireType := by
  cases kind
  case string | bytes | message => cases stored
  all_goals
    cases stored
    rfl

theorem expect_eq_ok {expected wireType : WireType} {message : String} {done : Unit}
    (passed : expect expected message wireType = .ok done) : wireType = expected := by
  unfold expect at passed
  split at passed
  · cases passed
  next same => exact Decidable.not_not.mp same

theorem skipValue_len {src bytes rest : Bytes} (read : readLenDelimited src = .ok (bytes, rest)) :
    skipValue .len src = .ok rest := by
  simp only [skipValue, read]
  rfl

/-- Reading a value takes the bytes that skipping it would. -/
theorem Payload.skip {eof : String} {src rest : Bytes} {v : Value}
    (read : payload.read eof src = .ok (v, rest)) : skipValue payload.wireType src = .ok rest := by
  -- the bytes of a fixed width are split off, or skipped, in the same place
  have fixed (n : Nat) (message : String) {bytes : Bytes}
      (split : splitTo n src = .ok (bytes, rest)) :
      (if src.length < n then fail message else advance n src) = .ok rest := by
    unfold splitTo at split
    split at split
    · cases split
    next enough =>
      cases split
      simp [advance, enough]
  cases payload with
  | varint value =>
    obtain ⟨⟨n, src'⟩, isRead, read⟩ := bind_ok read
    cases read
    simp only [Payload.wireType, skipValue, isRead]
    rfl
  | fixed32 value =>
    obtain ⟨⟨⟩, -, read⟩ := bind_ok read
    obtain ⟨⟨n, src'⟩, isRead, read⟩ := bind_ok read
    obtain ⟨⟨bytes, src''⟩, isSplit, isRead⟩ := bind_ok isRead
    cases read
    cases isRead
    exact fixed 4 "invalid fixed32" isSplit
  | fixed64 value =>
    obtain ⟨⟨⟩, -, read⟩ := bind_ok read
    obtain ⟨⟨n, src'⟩, isRead, read⟩ := bind_ok read
    obtain ⟨⟨bytes, src''⟩, isSplit, isRead⟩ := bind_ok isRead
    cases read
    cases isRead
    exact fixed 8 "invalid fixed64" isSplit

/-- A decoder of values stops where a record with its wire type ends. -/
theorem decodeScalarValue_skip {wireType : WireType} {src rest : Bytes} {v : Value}
    (decoded : decodeScalarValue rt kind wireType src = .ok (v, rest)) :
    skipValue wireType src = .ok rest := by
  cases stored : scalarPayload rt kind with
  | some payload =>
    obtain ⟨eof, message, reads⟩ := decodeScalarValue_payload stored
    rw [reads] at decoded
    obtain ⟨_, expected, decoded⟩ := bind_ok decoded
    rw [expect_eq_ok expected, wireTypeForKind_payload stored]
    exact payload.skip decoded
  -- strings, bytes and messages are all delimited by a length
  | none =>
    cases kind
    case string | bytes =>
      rw [decodeScalarValue] at decoded
      obtain ⟨_, expected, decoded⟩ := bind_ok decoded
      obtain ⟨⟨bytes, src'⟩, isRead, decoded⟩ := bind_ok decoded
      cases decoded
      rw [expect_eq_ok expected]
      exact skipValue_len isRead
    case message msg =>
      obtain ⟨fields⟩ := msg
      rw [decodeScalarValue] at decoded
      obtain ⟨_, expected, decoded⟩ := bind_ok decoded
      obtain ⟨⟨bytes, src'⟩, isRead, decoded⟩ := bind_ok decoded
      obtain ⟨v', -, decoded⟩ := bind_ok decoded
      cases decoded
      rw [expect_eq_ok expected]
      exact skipValue_len isRead
    all_goals cases stored

end Elements

/-! ### Map entries -/

section Entries

variable {rt : Runtime} {keyKind : Kind} {valueKind : GrpcValueKind}

/-- A key ends where its record ends, and is of its kind when its varint fits. -/
theorem decodeMapKey_spec (record : WireRecord) {rest : Bytes} {key : MapKey}
    (decoded : decodeMapKey rt keyKind record.wireType record.src = .ok (key, rest)) :
    skipValue record.wireType record.src = .ok rest ∧
      (TypedKey keyKind key ↔ FitsKey keyKind record.varint) := by
  obtain ⟨number, wireType, src⟩ := record
  -- the integer kinds read a varint and wrap it up
  have varint (message : String) (wrap : UInt64 → MapKey)
      (decoded : (expect .varint message wireType >>= fun _ => readVariant src >>= fun p =>
        (.ok (wrap p.1, p.2) : Decoded (MapKey × Bytes))) = .ok (key, rest)) :
      skipValue wireType src = .ok rest ∧ key = wrap (WireRecord.varint ⟨number, wireType, src⟩) := by
    obtain ⟨_, expected, decoded⟩ := bind_ok decoded
    obtain ⟨⟨v, src'⟩, isRead, decoded⟩ := bind_ok decoded
    cases decoded
    rw [expect_eq_ok expected]
    simp only [skipValue, WireRecord.varint, isRead, and_true]
    rfl
  cases keyKind
  case string =>
    obtain ⟨_, expected, decoded⟩ := bind_ok decoded
    obtain ⟨⟨bytes, src'⟩, isRead, decoded⟩ := bind_ok decoded
    dsimp only at decoded expected ⊢
    split at decoded
    · cases decoded
      rw [expect_eq_ok expected]
      exact ⟨skipValue_len isRead, by simp only [TypedKey, FitsKey]⟩
    · cases decoded
  case double | float | bytes | message | enum => cases decoded
  case bool =>
    obtain ⟨skips, rfl⟩ := varint _ (fun v => .bool (v ≠ 0)) decoded
    exact ⟨skips, by simp only [TypedKey, FitsKey]⟩
  case int32 | sint32 | sfixed32 | int64 | sint64 | sfixed64 =>
    obtain ⟨skips, rfl⟩ := varint _ (fun v => .i64 v.toInt64) decoded
    exact ⟨skips, by simp only [TypedKey, FitsKey]⟩
  case uint32 | fixed32 | uint64 | fixed64 =>
    obtain ⟨skips, rfl⟩ := varint _ (fun v => .u64 v) decoded
    exact ⟨skips, by simp only [TypedKey, FitsKey]⟩

/-- What an entry holds so far is what its last records say. -/
def EntryTracks (rt : Runtime) (keyKind : Kind) (valueKind : GrpcValueKind)
    (entry : Option MapKey × Option Value) (records : List WireRecord) : Prop :=
  (∀ key, entry.1 = some key → ∃ r rest, HashTable.lastWith WireRecord.number 1 records = some r ∧
    decodeMapKey rt keyKind r.wireType r.src = .ok (key, rest)) ∧
  ∀ v, entry.2 = some v → ∃ r rest, HashTable.lastWith WireRecord.number 2 records = some r ∧
    decodeScalarValue rt valueKind r.wireType r.src = .ok (v, rest)

/-- The decoder of an entry and the collection of its records go through the bytes together, and the
last key and value are those of the entry. -/
theorem mapEntryStep_lockstep {entry entry' : Option MapKey × Option Value}
    {records : List WireRecord} {src rest : Bytes}
    (tracks : EntryTracks rt keyKind valueKind entry records)
    (step : mapEntryStep rt keyKind (fun wireType src => decodeScalarValue rt valueKind wireType src)
      entry src = .ok (entry', rest)) :
    ∃ records', recordStep records src = .ok (records', rest) ∧
      EntryTracks rt keyKind valueKind entry' records' := by
  obtain ⟨⟨number, wireType, src'⟩, tag, step⟩ := bind_ok step
  have collected (skips : skipValue wireType src' = .ok rest) :
      recordStep records src = .ok (records ++ [⟨number, wireType, src'⟩], rest) := by
    rw [recordStep, tag]
    simp only [bind, Except.bind, skips]
  have last (n : UInt32) := HashTable.lastWith_concat WireRecord.number records
    ⟨number, wireType, src'⟩ n
  dsimp only at step last
  split at step
  -- this record is the last key so far, the value is as before
  next isKey =>
    obtain ⟨⟨key, src''⟩, decoded, step⟩ := bind_ok step
    cases step
    refine ⟨_, collected (decodeMapKey_spec ⟨number, wireType, src'⟩ decoded).1, ?_, ?_⟩
    · rintro _ ⟨⟩
      exact ⟨_, _, by rw [last, if_pos isKey], decoded⟩
    · intro v isValue
      obtain ⟨r, rest', isLast, decodes⟩ := tracks.2 v isValue
      exact ⟨r, rest', by rw [last, if_neg (by simp [isKey]), isLast], decodes⟩
  next notKey =>
    -- a record that is no key leaves the last key the last one
    have keyTracks (key : MapKey) (isKey : entry.1 = some key) : ∃ r rest,
        HashTable.lastWith WireRecord.number 1 (records ++ [⟨number, wireType, src'⟩]) = some r ∧
          decodeMapKey rt keyKind r.wireType r.src = .ok (key, rest) := by
      obtain ⟨r, rest', isLast, decodes⟩ := tracks.1 key isKey
      exact ⟨r, rest', by rw [last, if_neg notKey, isLast], decodes⟩
    split at step
    next isValue =>
      obtain ⟨⟨v, src''⟩, decoded, step⟩ := bind_ok step
      cases step
      refine ⟨_, collected (decodeScalarValue_skip decoded), keyTracks, ?_⟩
      rintro _ ⟨⟩
      exact ⟨_, _, by rw [last, if_pos isValue], decoded⟩
    -- an unknown field is skipped
    next notValue =>
      obtain ⟨src'', skips, step⟩ := bind_ok step
      cases step
      refine ⟨_, collected skips, keyTracks, fun v isValue => ?_⟩
      obtain ⟨r, rest', isLast, decodes⟩ := tracks.2 v isValue
      exact ⟨r, rest', by rw [last, if_neg notValue, isLast], decodes⟩

/-- Key and value of an entry are those of its last records with their numbers. -/
theorem decodeMapEntry_records {bytes : Bytes} {key : MapKey} {v : Value}
    (decoded : decodeMapEntry rt keyKind
      (fun wireType src => decodeScalarValue rt valueKind wireType src) bytes = .ok (key, v)) :
    EntryTracks rt keyKind valueKind (some key, some v) (recordsOf bytes) := by
  obtain ⟨entry, loop, decoded⟩ := bind_ok decoded
  obtain ⟨records, done, tracks⟩ := whileRemaining_lockstep recordStep
    (EntryTracks rt keyKind valueKind)
    (fun entry records src entry' rest tracks step => mapEntryStep_lockstep tracks step)
    (show EntryTracks rt keyKind valueKind (none, none) [] from ⟨nofun, nofun⟩) loop
  rw [recordsOf, done]
  obtain ⟨key', value'⟩ := entry
  cases key' with
  -- without a key or a value the entry is refused
  | none => cases decoded
  | some k =>
    cases value' with
    | none => cases decoded
    | some v' =>
      cases decoded
      exact tracks

end Entries

/-! ### The records of a field -/

/-- What a record of a field reads, as an update of the field. -/
inductive Reading (rt : Runtime) (r : WireRecord) : GrpcFieldShape → FieldUpdate → Prop
  | scalar {kind : GrpcValueKind} {v : Value} {rest : Bytes}
    (decoded : decodeScalarValue rt kind r.wireType r.src = .ok (v, rest)) :
    Reading rt r (.scalar kind) (.set v)
  | list {kind : GrpcValueKind} {items : List Value} {rest : Bytes}
    (decoded : decodeList rt kind (fun wireType src => decodeScalarValue rt kind wireType src)
      r.wireType r.src = .ok (.array items, rest)) :
    Reading rt r (.list kind) (.append items)
  | map {keyKind : Kind} {valueKind : GrpcValueKind} {key : MapKey} {v : Value}
    (decoded : decodeMapEntry rt keyKind
      (fun wireType src => decodeScalarValue rt valueKind wireType src) r.payload = .ok (key, v)) :
    Reading rt r (.map keyKind valueKind) (.put key v)

/-- The kind of the values in a field. -/
def elementKind : GrpcFieldShape → GrpcValueKind
  | .scalar kind | .list kind | .map _ kind => kind

section Fields

variable {rt : Runtime} {shape : GrpcFieldShape}

theorem WireRecord.payload_eq {r : WireRecord} {bytes rest : Bytes}
    (read : readLenDelimited r.src = .ok (bytes, rest)) : r.payload = bytes := by
  rw [WireRecord.payload, read]

/-- A field ends where its record does, and changes the object by one update. -/
theorem decodeFieldInto_reading (r : WireRecord) {name : String} {out out' : ObjectMap}
    {rest : Bytes} (decoded : decodeFieldInto rt name shape r.wireType out r.src = .ok (out', rest)) :
    skipValue r.wireType r.src = .ok rest ∧
      ∃ update, Reading rt r shape update ∧ out' = putField out name update := by
  cases shape with
  | scalar kind =>
    rw [decodeFieldInto] at decoded
    obtain ⟨⟨v, rest'⟩, read, decoded⟩ := bind_ok decoded
    cases decoded
    exact ⟨decodeScalarValue_skip read, _, .scalar read, rfl⟩
  | list kind =>
    rw [decodeFieldInto] at decoded
    obtain ⟨⟨v, rest'⟩, read, decoded⟩ := bind_ok decoded
    obtain ⟨items, rfl⟩ := decodeList_array rt read
    simp only [bind, Except.bind, mergeDecodedField_array] at decoded
    cases decoded
    refine ⟨?_, _, .list read, rfl⟩
    rw [decodeList] at read
    split at read
    -- a packed list ends where its payload does
    next packed =>
      obtain ⟨⟨bytes, src'⟩, isRead, read⟩ := bind_ok read
      obtain ⟨items', -, read⟩ := bind_ok read
      cases read
      rw [packed.1]
      exact skipValue_len isRead
    next =>
      obtain ⟨⟨v, src'⟩, isRead, read⟩ := bind_ok read
      cases read
      exact decodeScalarValue_skip isRead
  | map keyKind valueKind =>
    rw [decodeFieldInto, decodeMapEntryIntoObject_eq] at decoded
    obtain ⟨_, expected, decoded⟩ := bind_ok decoded
    obtain ⟨⟨bytes, rest'⟩, read, decoded⟩ := bind_ok decoded
    obtain ⟨⟨key, v⟩, entry, decoded⟩ := bind_ok decoded
    cases decoded
    refine ⟨by rw [expect_eq_ok expected]; exact skipValue_len read, .put key v,
      .map (by rw [WireRecord.payload_eq read]; exact entry), ?_⟩
    rw [putMapEntry, putField]
    cases out.lookup name with
    | none => rfl
    | some prev => cases prev <;> rfl

/-- The values that records of a kind decode to are of the kind when they fit. -/
def Elements (rt : Runtime) (kind : GrpcValueKind) : Prop :=
  ∀ (r : WireRecord) (v : Value) (rest : Bytes),
    decodeScalarValue rt kind r.wireType r.src = .ok (v, rest) →
      (TypedValue kind v ↔ FitsValue rt kind r)

/-- What the records of a field led to is of its shape when the records fit; for each key of a map
on its own, since a later entry replaces an earlier one. -/
def Tracks (rt : Runtime) (shape : GrpcFieldShape) (prev : Option Value)
    (records : List WireRecord) : Prop :=
  match shape with
  | .map keyKind valueKind => ∃ entries : List (MapKey × Value), (entries.map Prod.fst).Nodup ∧
      (prev = some (.map entries) ∨ prev = none ∧ entries = []) ∧
      ∀ key, (∀ v, entries.lookup key = some v → TypedKey keyKind key ∧ TypedValue valueKind v) ↔
        ∀ r, HashTable.lastWith (WireRecord.key rt keyKind) (some key) records = some r →
          (∀ k ∈ r.entryKey?, FitsKey keyKind k.varint) ∧
            ∀ v ∈ r.entryValue?, FitsValue rt valueKind v
  | shape => (∀ v ∈ prev, TypedShape shape v) ↔ FitsShape rt shape records

theorem Tracks.nil (rt : Runtime) (shape : GrpcFieldShape) : Tracks rt shape none [] := by
  cases shape with
  | map keyKind valueKind =>
    exact ⟨[], List.nodup_nil, .inr ⟨rfl, rfl⟩, fun key => iff_of_true nofun nofun⟩
  | scalar kind => exact iff_of_true nofun (by rw [FitsShape]; exact nofun)
  | list kind => exact iff_of_true nofun (by rw [FitsShape]; exact nofun)

/-- A list is typed if its items are. -/
theorem typedShape_array {kind : GrpcValueKind} {items : List Value} :
    (∀ v ∈ some (Value.array items), TypedShape (.list kind) v) ↔
      ∀ v ∈ items, TypedValue kind v := by
  constructor
  · intro typed
    have typed := typed _ rfl
    rwa [TypedShape] at typed
  · rintro typed _ ⟨⟩
    rwa [TypedShape]

/-- A map is typed if its entries are. -/
theorem typedShape_map {keyKind : Kind} {valueKind : GrpcValueKind}
    {entries : List (MapKey × Value)} (distinct : (entries.map Prod.fst).Nodup) :
    (∀ v ∈ some (Value.map entries), TypedShape (.map keyKind valueKind) v) ↔
      ∀ key v, entries.lookup key = some v → TypedKey keyKind key ∧ TypedValue valueKind v := by
  constructor
  · intro typed key v found
    have typed := typed _ rfl
    rw [TypedShape] at typed
    exact typed (key, v) ((HashTable.lookup_eq_some_iff_mem distinct key v).mp found)
  · rintro typed _ ⟨⟩
    rw [TypedShape]
    intro e member
    exact typed e.1 e.2 ((HashTable.lookup_eq_some_iff_mem distinct e.1 e.2).mpr member)

/-- The value of a field is typed exactly if the records of the field fit. -/
theorem Tracks.typed_iff {prev : Option Value} {records : List WireRecord}
    (tracks : Tracks rt shape prev records) :
    (∀ v ∈ prev, TypedShape shape v) ↔ FitsShape rt shape records := by
  cases shape with
  | scalar kind => exact tracks
  | list kind => exact tracks
  | map keyKind valueKind =>
    obtain ⟨entries, distinct, isPrev, perKey⟩ := tracks
    have typed : (∀ v ∈ prev, TypedShape (.map keyKind valueKind) v) ↔
        ∀ key v, entries.lookup key = some v → TypedKey keyKind key ∧ TypedValue valueKind v := by
      rcases isPrev with rfl | ⟨rfl, rfl⟩
      · exact typedShape_map distinct
      -- no record of the field yet
      · exact iff_of_true nofun nofun
    rw [typed, FitsShape]
    exact forall_congr' perKey

/-- Packed or not. -/
theorem typed_decodeList {kind : GrpcValueKind} (elements : Elements rt kind) {r : WireRecord}
    {items : List Value} {rest : Bytes}
    (decoded : decodeList rt kind (fun wireType src => decodeScalarValue rt kind wireType src)
      r.wireType r.src = .ok (.array items, rest)) :
    (∀ v ∈ items, TypedValue kind v) ↔
      if r.wireType = .len ∧ kindIsPackable kind then ∀ v ∈ varintsOf r.payload, FitsPacked kind v
      else FitsValue rt kind r := by
  rw [decodeList] at decoded
  split at decoded
  next packed =>
    obtain ⟨⟨bytes, src'⟩, isRead, decoded⟩ := bind_ok decoded
    obtain ⟨items', isPacked, decoded⟩ := bind_ok decoded
    cases decoded
    -- the condition is about the varints in the payload
    rw [if_pos packed, WireRecord.payload_eq isRead]
    exact typed_decodePackedValues isPacked
  next single =>
    obtain ⟨⟨v, src'⟩, isRead, decoded⟩ := bind_ok decoded
    cases decoded
    rw [if_neg single]
    simpa using elements r v rest isRead

/-- One more record of the field. -/
theorem Tracks.record (elements : Elements rt (elementKind shape)) {prev : Option Value}
    {records : List WireRecord} (tracks : Tracks rt shape prev records) {r : WireRecord}
    {update : FieldUpdate} (reading : Reading rt r shape update)
    (before : ∀ v ∈ prev, Shaped shape v) :
    Tracks rt shape (some (update.apply prev)) (records ++ [r]) := by
  cases reading with
  | @scalar kind v rest decoded =>
    -- the last record decides
    have typed := elements r v rest decoded
    simp only [Tracks, FieldUpdate.apply, FitsShape, TypedShape, List.getLast?_concat,
      Option.mem_def, Option.some.injEq, forall_eq']
    exact typed
  | @list kind items rest decoded =>
    have elements : Elements rt kind := elements
    have typed := typed_decodeList elements decoded
    have grown : (∀ v ∈ some ((FieldUpdate.append items).apply prev), TypedShape (.list kind) v) ↔
        (∀ v ∈ prev, TypedShape (.list kind) v) ∧ ∀ v ∈ items, TypedValue kind v := by
      cases prev with
      | none => exact typedShape_array.trans (iff_and_self.mpr fun _ _ isNone => by cases isNone)
      | some v =>
        cases before v rfl with
        | list _ existing =>
          rw [FieldUpdate.apply, typedShape_array, typedShape_array, List.forall_mem_append]
    simp only [Tracks, FitsShape, List.forall_mem_append, List.forall_mem_singleton] at tracks ⊢
    rw [grown, ← tracks, ← typed]
  | @map keyKind valueKind key v decoded =>
    have elements : Elements rt valueKind := elements
    obtain ⟨entries, distinct, isPrev, perKey⟩ := tracks
    obtain ⟨hasKey, hasValue⟩ := decodeMapEntry_records decoded
    obtain ⟨k, keyRest, isKey, decodesKey⟩ := hasKey key rfl
    obtain ⟨w, valueRest, isValue, decodesValue⟩ := hasValue v rfl
    have entryKey : r.entryKey? = some k := isKey
    have entryValue : r.entryValue? = some w := isValue
    have key_eq : r.key rt keyKind = some key := by
      rw [WireRecord.key, entryKey, Option.bind_some, decodesKey]
    have updated : (FieldUpdate.put key v).apply prev =
        .map (HashTable.insertEntry entries key v) := by
      rcases isPrev with rfl | ⟨rfl, rfl⟩ <;> rfl
    refine ⟨HashTable.insertEntry entries key v, HashTable.nodup_insertEntry distinct key v,
      .inl (by rw [updated]), fun key' => ?_⟩
    rw [HashTable.lookup_insertEntry, HashTable.lastWith_concat, key_eq]
    by_cases same : key' = key
    · subst same
      simp only [↓reduceIte, Option.some.injEq, forall_eq', entryKey, entryValue, Option.mem_def]
      rw [(decodeMapKey_spec k decodesKey).2, elements w v valueRest decodesValue]
    · have other : some key ≠ some key' := fun isKey => same (Option.some.inj isKey).symm
      rw [if_neg same, if_neg other]
      exact perKey key'

end Fields

/-! ### Messages -/

section Messages

variable {rt : Runtime} {fields : List GrpcInputFieldMeta}

/-- A field that was decoded is declared, and it is what its records led to. -/
structure MessageTracks (rt : Runtime) (fields : List GrpcInputFieldMeta) (out : ObjectMap)
    (records : List WireRecord) : Prop where
  shaped : WellShaped fields out
  declared : ∀ name ∈ out.map Prod.fst, ∃ entry ∈ fields, entry.field.name = name
  tracks : ∀ entry ∈ fields, Tracks rt entry.shape (out.lookup entry.field.name)
    (WireRecord.withNumber entry.field.number records)

theorem decodeNumbered_entry {n : UInt32} {decode : FieldDecoder}
    (found : decodeNumbered rt fields n = some decode) :
    ∃ entry ∈ fields, entry.field.number = n ∧
      decode = decodeFieldInto rt entry.field.name entry.shape := by
  rw [decodeNumbered_eq_lastWith, Option.map_eq_some_iff] at found
  obtain ⟨entry, isLast, rfl⟩ := found
  exact ⟨entry, List.mem_of_mem_filter (HashTable.lastWith_mem _ isLast),
    HashTable.key_of_lastWith (fun entry : GrpcInputFieldMeta => entry.field.number) isLast, rfl⟩

/-- The decoder of a message and the collection of its records go through the bytes together. -/
theorem messageStep_lockstep (unique : UniqueFields fields)
    (elements : ∀ entry ∈ fields, Elements rt (elementKind entry.shape)) {out out' : ObjectMap}
    {records : List WireRecord} {src rest : Bytes} (inv : MessageTracks rt fields out records)
    (step : messageStep (decodeNumbered rt fields) out src = .ok (out', rest)) :
    ∃ records', recordStep records src = .ok (records', rest) ∧
      MessageTracks rt fields out' records' := by
  have shaped := wellShaped_messageStep rt unique.names inv.shaped step
  obtain ⟨⟨n, wireType, src'⟩, tag, step⟩ := bind_ok step
  have collected (skips : skipValue wireType src' = .ok rest) :
      recordStep records src = .ok (records ++ [⟨n, wireType, src'⟩], rest) := by
    rw [recordStep, tag]
    simp only [bind, Except.bind, skips]
  have others (entry : GrpcInputFieldMeta) (other : entry.field.number ≠ n) :
      WireRecord.withNumber entry.field.number (records ++ [⟨n, wireType, src'⟩]) =
        WireRecord.withNumber entry.field.number records := by
    simp [WireRecord.withNumber, List.filter_append, other.symm]
  dsimp only at step
  cases found : decodeNumbered rt fields n with
  | none =>
    rw [found] at step
    obtain ⟨src'', skips, step⟩ := bind_ok step
    cases step
    refine ⟨_, collected skips, shaped, inv.declared, fun entry member => ?_⟩
    -- no field has the number
    have other : entry.field.number ≠ n := fun same => by
      have isField := finds_decodeNumbered rt unique entry member
      rw [same, found] at isField
      cases isField
    rw [others entry other]
    exact inv.tracks entry member
  | some decode =>
    obtain ⟨entry, member, rfl, rfl⟩ := decodeNumbered_entry found
    rw [found] at step
    obtain ⟨skips, update, reading, rfl⟩ :=
      decodeFieldInto_reading ⟨entry.field.number, wireType, src'⟩ step
    refine ⟨_, collected skips, shaped, fun name inOut => ?_, fun entry' member' => ?_⟩
    · rw [putField, HashTable.insertEntry_keys] at inOut
      split at inOut
      · exact inv.declared name inOut
      · rcases List.mem_append.mp inOut with old | new
        · exact inv.declared name old
        · exact ⟨entry, member, (List.mem_singleton.mp new).symm⟩
    · by_cases same : entry' = entry
      · subst same
        have before (v : Value) (isPrev : out.lookup entry'.field.name = some v) :
            Shaped entry'.shape v :=
          inv.shaped.shaped _ _ _ isPrev (fieldShape_of_mem unique.names member)
        have tracks := (inv.tracks entry' member).record (elements entry' member) reading before
        rw [putField, HashTable.lookup_insertEntry, if_pos rfl, WireRecord.withNumber,
          List.filter_append]
        simpa [WireRecord.withNumber] using tracks
      · have name : entry'.field.name ≠ entry.field.name := fun isName =>
          same (List.inj_on_of_nodup_map unique.names member' member isName)
        have number : entry'.field.number ≠ entry.field.number := fun isNumber =>
          same (List.inj_on_of_nodup_map unique.numbers member' member isNumber)
        rw [putField, HashTable.lookup_insertEntry, if_neg name, others entry' number]
        exact inv.tracks entry' member'

theorem typedField_iff {name : String} {v : Value} :
    TypedField fields name v ↔
      ∃ entry ∈ fields, entry.field.name = name ∧ TypedShape entry.shape v := by
  induction fields with
  | nil => simp [TypedField]
  | cons first rest ih =>
    obtain ⟨field, shape⟩ := first
    simp [TypedField, ih]

theorem fitsRecords_iff {records : List WireRecord} :
    FitsRecords rt fields records ↔ ∀ entry ∈ fields,
      FitsShape rt entry.shape (WireRecord.withNumber entry.field.number records) := by
  induction fields with
  | nil => simp [FitsRecords]
  | cons first rest ih =>
    obtain ⟨field, shape⟩ := first
    simp [FitsRecords, ih]

/-- The message is typed exactly if all records fit their fields. -/
theorem MessageTracks.typed_iff (unique : UniqueFields fields) {out : ObjectMap}
    {records : List WireRecord} (inv : MessageTracks rt fields out records) :
    TypedValue (.message (.mk fields)) (.object out) ↔ FitsRecords rt fields records := by
  rw [TypedValue, fitsRecords_iff]
  have distinct := inv.shaped.distinct
  constructor
  · intro typed entry member
    refine (inv.tracks entry member).typed_iff.mp fun v isValue => ?_
    have inOut := (HashTable.lookup_eq_some_iff_mem distinct _ v).mp isValue
    obtain ⟨entry', member', sameName, shape⟩ := typedField_iff.mp (typed _ inOut)
    -- two fields with one name are one field
    obtain rfl := List.inj_on_of_nodup_map unique.names member' member sameName
    exact shape
  · intro fits e inOut
    obtain ⟨entry, member, isName⟩ := inv.declared e.1 (List.mem_map_of_mem inOut)
    refine typedField_iff.mpr ⟨entry, member, isName, ?_⟩
    refine (inv.tracks entry member).typed_iff.mpr (fits entry member) e.2 ?_
    exact (HashTable.lookup_eq_some_iff_mem distinct _ e.2).mpr (isName ▸ inOut)

/-- In the end, whatever was decoded on the way. -/
theorem decodeMessageWith_typed (unique : UniqueFields fields)
    (elements : ∀ entry ∈ fields, Elements rt (elementKind entry.shape)) {bytes : Bytes} {v : Value}
    (decoded : decodeMessageWith (decodeNumbered rt fields) bytes = .ok v) :
    TypedValue (.message (.mk fields)) v ↔ FitsRecords rt fields (recordsOf bytes) := by
  obtain ⟨out, loop, decoded⟩ := bind_ok decoded
  cases decoded
  have start : MessageTracks rt fields [] [] :=
    ⟨.nil fields, by simp, fun entry _ => Tracks.nil rt entry.shape⟩
  obtain ⟨records, done, tracks⟩ := whileRemaining_lockstep recordStep (MessageTracks rt fields)
    (fun out records src out' rest inv step => messageStep_lockstep unique elements inv step)
    start loop
  rw [recordsOf, done]
  exact tracks.typed_iff unique

end Messages

/-! ### Schemas -/

/-- Values that are no message. -/
theorem elements_plain {rt : Runtime} {kind : GrpcValueKind} (plain : ∀ msg, kind ≠ .message msg) :
    Elements rt kind := by
  intro r v rest decoded
  have fits : FitsValue rt kind r ↔ FitsVarint kind r.varint := by
    cases kind
    case message msg => exact absurd rfl (plain msg)
    all_goals simp only [FitsValue]
  rw [fits]
  cases stored : scalarPayload rt kind with
  | some payload =>
    have typed := scalarPayload_typed stored
    obtain ⟨eof, message, reads⟩ := decodeScalarValue_payload stored
    rw [reads] at decoded
    obtain ⟨_, -, decoded⟩ := bind_ok decoded
    cases payload with
    | varint value =>
      obtain ⟨⟨n, src'⟩, isRead, decoded⟩ := bind_ok decoded
      cases decoded
      rw [WireRecord.varint, isRead]
      exact typed n
    -- a fixed width holds exactly what its kind does
    | fixed32 value | fixed64 value =>
      obtain ⟨⟨⟩, -, decoded⟩ := bind_ok decoded
      obtain ⟨⟨n, src'⟩, -, decoded⟩ := bind_ok decoded
      cases decoded
      exact iff_of_true (typed.1 n) (typed.2 _)
  | none =>
    cases kind
    case string | bytes =>
      rw [decodeScalarValue] at decoded
      obtain ⟨_, -, decoded⟩ := bind_ok decoded
      obtain ⟨⟨bytes, src'⟩, -, decoded⟩ := bind_ok decoded
      cases decoded
      exact iff_of_true (by simp only [TypedValue]) (by simp only [FitsVarint])
    case message msg => exact absurd rfl (plain msg)
    all_goals cases stored

/-- Messages, when their fields are understood. -/
theorem elements_message {rt : Runtime} {fields : List GrpcInputFieldMeta}
    (unique : UniqueFields fields)
    (elements : ∀ entry ∈ fields, Elements rt (elementKind entry.shape)) :
    Elements rt (.message (.mk fields)) := by
  intro r v rest decoded
  rw [decodeScalarValue] at decoded
  obtain ⟨_, -, decoded⟩ := bind_ok decoded
  obtain ⟨⟨bytes, src'⟩, isRead, decoded⟩ := bind_ok decoded
  obtain ⟨v', isMessage, decoded⟩ := bind_ok decoded
  cases decoded
  rw [FitsValue, WireRecord.payload_eq isRead]
  exact decodeMessageWith_typed unique elements isMessage

mutual

theorem elements_of_unique (rt : Runtime) :
    (kind : GrpcValueKind) → kind.Unique → Elements rt kind
  | .message (.mk fields) => fun unique =>
    elements_message unique.1 (elements_of_shapes rt fields unique.2)
  | .bool | .string | .bytes | .int32 | .sint32 | .sfixed32 | .int64 | .sint64 | .sfixed64
  | .uint32 | .fixed32 | .uint64 | .fixed64 | .float | .double | .enum _ => fun _ =>
    elements_plain nofun

theorem elements_of_shape (rt : Runtime) :
    (shape : GrpcFieldShape) → shape.Unique → Elements rt (elementKind shape)
  | .scalar kind | .list kind | .map _ kind => fun unique => elements_of_unique rt kind unique

/-- All shapes, by recursion over them. -/
theorem elements_of_shapes (rt : Runtime) :
    (fields : List GrpcInputFieldMeta) → uniqueShapes fields →
      ∀ entry ∈ fields, Elements rt (elementKind entry.shape)
  | [] => fun _ _ member => by cases member
  | .mk field shape :: rest => fun unique entry member => by
    rcases List.mem_cons.mp member with rfl | later
    · exact elements_of_shape rt shape unique.1
    · exact elements_of_shapes rt rest unique.2 entry later

end

/-- A response that decodes is typed exactly when the numbers that end up in it fit their kinds. -/
theorem decoded_typed_iff (rt : Runtime) (input : List GrpcInputFieldMeta)
    {fields : List GrpcInputFieldMeta} (unique : (GrpcMessageMeta.mk fields).Unique) {bytes : Bytes}
    {v : Value} (decoded : decodeMessageForMethod rt (GrpcMethod.new input fields) bytes = .ok v) :
    TypedValue (.message (.mk fields)) v ↔ FitsRecords rt fields (recordsOf bytes) := by
  rw [decodeMessageForMethod_new] at decoded
  exact decodeMessageWith_typed unique.1 (elements_of_shapes rt fields unique.2) decoded

def countFields : List GrpcInputFieldMeta := [.mk ⟨"count", 1⟩ (.scalar .int32)]

theorem unique_countFields : (GrpcMessageMeta.mk countFields).Unique :=
  ⟨⟨by decide, by decide, by decide⟩, trivial, trivial⟩

/-- The varint 300 is in the range of `i32`. -/
theorem decoded_typed_300 :
    TypedValue (.message (.mk countFields)) (.object [("count", .i64 300)]) := by
  refine (decoded_typed_iff ieee [] unique_countFields (show decodeMessageForMethod ieee
    (GrpcMethod.new [] countFields) [0x08, 0xac, 0x02] = _ from rfl)).mpr ?_
  have records : recordsOf [0x08, 0xac, 0x02] = [⟨1, .varint, [0xac, 0x02]⟩] := rfl
  rw [records, fitsRecords_iff, countFields, List.forall_mem_singleton, GrpcInputFieldMeta.shape_mk,
    FitsShape]
  rintro r ⟨⟩
  rw [FitsValue, FitsVarint, InI32]
  · decide
  · nofun

/-- The varint of 2 ^ 32 in an `int32` field comes back as it is. -/
theorem decoded_int32_too_large :
    (GrpcMessageMeta.mk countFields).Unique ∧
      decodeMessageForMethod ieee (GrpcMethod.new [] countFields)
        [0x08, 0x80, 0x80, 0x80, 0x80, 0x10] = .ok (.object [("count", .i64 4294967296)]) ∧
      ¬TypedValue (.message (.mk countFields)) (.object [("count", .i64 4294967296)]) := by
  refine ⟨unique_countFields, rfl, fun typed => ?_⟩
  rw [TypedValue, List.forall_mem_singleton, typedField_iff, countFields] at typed
  obtain ⟨entry, member, -, shape⟩ := typed
  obtain rfl := List.mem_singleton.mp member
  rw [GrpcInputFieldMeta.shape_mk, TypedShape, TypedValue, InI32] at shape
  exact absurd shape (by decide)

end Wrkr.Grpc.Wire
