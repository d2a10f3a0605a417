import Wrkr.Grpc.Wire.Packed

/-!
# Decoder safety

The bytes come from an arbitrary server. Whatever they are, decoding returns a value or an `Err`:
no operation of the `bytes` crate is called with too few bytes, no shift goes past the width, no
index leaves the fields of the method, and no loop hangs. The recursion follows the schema, which
is finite, and every loop takes at least one byte in each iteration.
-/
namespace Wrkr.Grpc.Wire

open Wrkr.Lib

variable (rt : Runtime)

/-- A value or an `Err`, neither a panic nor a loop that hangs. -/
def Clean {α : Type} (x : Decoded α) : Prop :=
  (∃ a, x = .ok a) ∨ ∃ message, x = fail message

variable {α β : Type}

theorem Clean.bind {x : Decoded α} {f : α → Decoded β} (first : Clean x)
    (second : ∀ a, Clean (f a)) : Clean (x >>= f) := by
  rcases first with ⟨a, rfl⟩ | ⟨message, rfl⟩
  · exact second a
  · exact .inr ⟨message, rfl⟩

/-- A result that does not touch the buffer. -/
theorem Clean.parses {x : Decoded α} (clean : Clean x) :
    Parses fun src => x >>= fun a => (.ok (a, src) : Decoded (α × Bytes)) := by
  rcases clean with ⟨a, rfl⟩ | ⟨message, rfl⟩
  · exact Consumes.pure a
  · exact parses_fail message

/-- A loop over the bytes that takes some in each turn cannot go on without end. -/
theorem clean_whileRemaining {σ : Type} {body : σ → Bytes → Decoded (σ × Bytes)}
    (parses : ∀ s, Parses (body s)) (progress : Progress body) (s : σ) (src : Bytes) :
    Clean (whileRemaining .diverge body s src) := by
  -- the body gets through or fails with a text, and each turn shortens the buffer
  rcases Consumes.reads_or_fails .diverge parses progress s src with
    ⟨e, failed, message, rfl⟩ | ⟨s', reads⟩
  · exact .inr ⟨message, failed⟩
  · exact .inl ⟨s', reads.whileRemaining⟩

/-! ### Lists and map entries -/

/-- Packed lists are such a loop. -/
theorem clean_decodePackedValues (kind : GrpcValueKind) (bytes : Bytes) :
    Clean (decodePackedValues rt kind bytes) := by
  cases stored : packedPayload rt kind with
  | none =>
    cases kind
    -- the one `Err` before any byte is read
    case string | bytes | message => exact .inr ⟨_, rfl⟩
    all_goals cases stored
  | some payload =>
    obtain ⟨eof, packedReads⟩ := decodePackedValues_payload stored
    rw [packedReads, packedLoop_eq]
    apply clean_whileRemaining _ (progress_packedStep payload eof)
    intro out
    exact (payload.parses_read eof).map fun v => out ++ [v]

/-- All kinds of keys. -/
theorem parses_decodeMapKey (kind : Kind) (wireType : WireType) :
    Parses (decodeMapKey rt kind wireType) := by
  cases kind
  case bool =>
    exact (parses_readVariant.map fun v => MapKey.bool (v ≠ 0)).after (expect_clean ..)
  case int32 | sint32 | sfixed32 | int64 | sint64 | sfixed64 =>
    exact (parses_readVariant.map fun v => MapKey.i64 v.toInt64).after (expect_clean ..)
  case uint32 | fixed32 | uint64 | fixed64 =>
    exact (parses_readVariant.map MapKey.u64).after (expect_clean ..)
  case string =>
    -- the bytes are taken off before they are checked
    have decoded (b : Bytes) : Parses fun src =>
        ((fromUtf8 b).elim (fail "invalid utf-8 map key") fun s => .ok (.string s, src) :
          Decoded (MapKey × Bytes)) := by
      cases fromUtf8 b with
      | none => exact parses_fail _
      | some s => exact Consumes.pure (MapKey.string s)
    refine Parses.congr (Parses.after (parses_readLenDelimited.bind decoded)
      (expect_clean .len "map key (string) must be length-delimited" wireType)) fun src => ?_
    dsimp only [decodeMapKey]
    congr 1
    funext _
    congr 1
    funext p
    obtain ⟨b, rest⟩ := p
    dsimp only
    cases fromUtf8 b <;> rfl
  case double | float | bytes | message | enum => exact parses_fail _

/-- One record of an entry. -/
theorem parses_mapEntryStep (keyKind : Kind) {decodeValue : ValueDecoder}
    (values : ∀ wireType, Parses (decodeValue wireType)) (entry : Option MapKey × Option Value) :
    Parses (mapEntryStep rt keyKind decodeValue entry) := by
  apply parses_record (k := fun fieldNumber wireType src =>
    if fieldNumber = 1 then
      decodeMapKey rt keyKind wireType src >>= fun p => .ok ((some p.1, entry.2), p.2)
    else if fieldNumber = 2 then
      decodeValue wireType src >>= fun p => .ok ((entry.1, some p.1), p.2)
    else
      skipValue wireType src >>= fun src => .ok (entry, src))
  -- one case for each field number that the entry knows, and one for the others
  intro n wireType
  split_ifs
  · exact (parses_decodeMapKey rt keyKind wireType).map fun key => (some key, entry.2)
  · exact (values wireType).map fun value => (entry.1, some value)
  · exact parses_skipValue wireType entry

/-- An entry. -/
theorem clean_decodeMapEntry (keyKind : Kind) (valueKind : GrpcValueKind)
    (values : ∀ wireType, Parses (decodeScalarValue rt valueKind wireType)) (bytes : Bytes) :
    Clean (decodeMapEntry rt keyKind
      (fun wireType src => decodeScalarValue rt valueKind wireType src) bytes) := by
  have progress := progress_mapEntryStep rt keyKind (shrinks_decodeScalarValue rt valueKind)
  refine (clean_whileRemaining (parses_mapEntryStep rt keyKind values) progress _ bytes).bind ?_
  rintro ⟨key, value⟩
  cases key with
  -- an entry without a key, or without a value, is an `Err`
  | none => exact .inr ⟨_, rfl⟩
  | some k =>
    cases value with
    | none => exact .inr ⟨_, rfl⟩
    | some v => exact .inl ⟨(k, v), rfl⟩

/-! ### Fields -/

/-- Merging cannot fail for a list or a single value. -/
theorem clean_mergeDecodedField (out : ObjectMap) (name : String) {shape : GrpcFieldShape}
    (single : ∀ keyKind valueKind, shape ≠ .map keyKind valueKind) (v : Value) :
    Clean (mergeDecodedField out name shape v) := by
  cases shape with
  | scalar kind => exact .inl ⟨_, rfl⟩
  | list kind =>
    simp only [mergeDecodedField]
    split <;> exact .inl ⟨_, rfl⟩
  -- maps do not come this way: `decode_map_entry_into_object` merges them itself
  | map keyKind valueKind => exact absurd rfl (single keyKind valueKind)

variable {rt} {kind : GrpcValueKind}

/-- Lists, packed or not. -/
theorem parses_decodeList (elements : ∀ wireType, Parses (decodeScalarValue rt kind wireType))
    (wireType : WireType) : Parses (decodeList rt kind
      (fun wireType src => decodeScalarValue rt kind wireType src) wireType) := by
  by_cases packed : wireType = .len ∧ kindIsPackable kind = true
  · refine Parses.congr (parses_readLenDelimited.bind fun bytes =>
      ((clean_decodePackedValues rt kind bytes).bind fun items =>
        .inl ⟨Value.array items, rfl⟩).parses) fun src => ?_
    rw [decodeList, if_pos packed]
    simp only [bind_assoc]
    rfl
  · refine Parses.congr ((elements wireType).map fun v => .array [v]) fun src => ?_
    rw [decodeList, if_neg packed]

/-- The object with one more entry in one of its map fields. -/
def putMapEntry (out : ObjectMap) (name : String) (k : MapKey) (v : Value) : ObjectMap :=
  match out.lookup name with
  | some (.map existing) =>
    HashTable.insertEntry out name (.map (HashTable.insertEntry existing k v))
  | _ => HashTable.insertEntry out name (.map [(k, v)])

/-- The object always holds a map under the name, so the panic for another value is out of reach. -/
theorem decodeMapEntryIntoObject_eq (out : ObjectMap) (name : String) (keyKind : Kind)
    (decodeValue : ValueDecoder) (wireType : WireType) (src : Bytes) :
    decodeMapEntryIntoObject rt out name keyKind decodeValue wireType src =
      expect .len "map field must be length-delimited" wireType >>= fun _ =>
        readLenDelimited src >>= fun p => decodeMapEntry rt keyKind decodeValue p.1 >>= fun e =>
          .ok (putMapEntry out name e.1 e.2, p.2) := by
  unfold decodeMapEntryIntoObject putMapEntry
  -- after the three reads only the insertion is left
  congr 1
  funext _
  congr 1
  funext ⟨bytes, rest⟩
  dsimp only
  congr 1
  funext ⟨k, v⟩
  cases out.lookup name with
  | none => rfl
  | some value => cases value <;> rfl

theorem parses_decodeMapEntryIntoObject (keyKind : Kind) {valueKind : GrpcValueKind}
    (values : ∀ wireType, Parses (decodeScalarValue rt valueKind wireType)) (out : ObjectMap)
    (name : String) (wireType : WireType) : Parses (decodeMapEntryIntoObject rt out name keyKind
      (fun wireType src => decodeScalarValue rt valueKind wireType src) wireType) := by
  have entry (bytes : Bytes) := (clean_decodeMapEntry rt keyKind valueKind values bytes).bind
    fun e => .inl ⟨putMapEntry out name e.1 e.2, rfl⟩
  refine Parses.congr (Parses.after (parses_readLenDelimited.bind fun bytes => (entry bytes).parses)
    (expect_clean .len "map field must be length-delimited" wireType)) fun src => ?_
  rw [decodeMapEntryIntoObject_eq]
  simp only [bind_assoc]
  rfl

theorem parses_messageStep {numbered : UInt32 → Option FieldDecoder}
    (parses : ∀ n decode, numbered n = some decode → ∀ wireType out, Parses (decode wireType out))
    (out : ObjectMap) : Parses (messageStep numbered out) := by
  have branch (n : UInt32) (wireType : WireType) : Parses fun src =>
      (numbered n).elim (skipValue wireType src >>= fun src => .ok (out, src)) fun decode =>
        decode wireType out src := by
    cases found : numbered n with
    -- an unknown number
    | none => exact parses_skipValue wireType out
    | some decode => exact parses n decode found wireType out
  refine Parses.congr (parses_record branch) fun src => ?_
  unfold messageStep
  congr 1
  funext p
  obtain ⟨n, wireType, rest⟩ := p
  dsimp only
  cases numbered n <;> rfl

/-- The decoders of the fields parse, so the loop over the records gets through or fails. -/
theorem clean_decodeMessageWith {numbered : UInt32 → Option FieldDecoder}
    (parses : ∀ n decode, numbered n = some decode → ∀ wireType out, Parses (decode wireType out))
    (progress : Progress (messageStep numbered)) (bytes : Bytes) :
    Clean (decodeMessageWith numbered bytes) :=
  (clean_whileRemaining (parses_messageStep parses) progress [] bytes).bind fun out =>
    .inl ⟨.object out, rfl⟩

/-! ### Schemas -/

theorem parses_message {fields : List GrpcInputFieldMeta}
    (clean : ∀ bytes, Clean (decodeMessageWith (decodeNumbered rt fields) bytes))
    (wireType : WireType) : Parses (decodeScalarValue rt (.message (.mk fields)) wireType) := by
  refine Parses.congr (Parses.after (parses_readLenDelimited.bind fun bytes => (clean bytes).parses)
    (expect_clean .len "message field must be length-delimited" wireType)) fun src => ?_
  rw [decodeScalarValue]

/-- Every kind that is no message. -/
theorem parses_plain (plain : ∀ msg, kind ≠ .message msg) (wireType : WireType) :
    Parses (decodeScalarValue rt kind wireType) := by
  cases stored : scalarPayload rt kind with
  | some payload =>
    obtain ⟨eof, message, scalarReads⟩ := decodeScalarValue_payload stored
    exact ((payload.parses_read eof).after (expect_clean ..)).congr (scalarReads wireType)
  | none =>
    cases kind
    case string =>
      refine Parses.congr ((parses_readLenDelimited.map fun b =>
        Value.string ((fromUtf8 b).getD "")).after
          (expect_clean .len "string field must be length-delimited" wireType)) fun src => ?_
      rw [decodeScalarValue]
    case bytes =>
      refine Parses.congr ((parses_readLenDelimited.map Value.bytes).after
        (expect_clean .len "bytes field must be length-delimited" wireType)) fun src => ?_
      rw [decodeScalarValue]
    case message msg => exact absurd rfl (plain msg)
    all_goals cases stored

theorem parses_single (name : String) (shape : GrpcFieldShape)
    (single : ∀ keyKind valueKind, shape ≠ .map keyKind valueKind)
    {decode : Bytes → Decoded (Value × Bytes)} (parses : Parses decode) (out : ObjectMap) :
    Parses fun src => decode src >>= fun p => mergeDecodedField out name shape p.1 >>= fun out =>
      (.ok (out, p.2) : Decoded (ObjectMap × Bytes)) :=
  parses.bind fun v => (clean_mergeDecodedField out name single v).parses

mutual

theorem parses_decodeScalarValue (rt : Runtime) :
    (kind : GrpcValueKind) → ∀ wireType, Parses (decodeScalarValue rt kind wireType)
  | .message (.mk fields) => parses_message fun bytes =>
    clean_decodeMessageWith (parses_decodeNumbered rt fields) (progress_decodeNumbered rt fields)
      bytes
  | .bool | .string | .bytes | .int32 | .sint32 | .sfixed32 | .int64 | .sint64 | .sfixed64
  | .uint32 | .fixed32 | .uint64 | .fixed64 | .float | .double | .enum _ => parses_plain nofun

theorem parses_decodeFieldInto (rt : Runtime) :
    (shape : GrpcFieldShape) → ∀ name wireType out,
      Parses (decodeFieldInto rt name shape wireType out)
  | .scalar kind => fun name wireType out =>
    (parses_single name (.scalar kind) nofun (parses_decodeScalarValue rt kind wireType)
      out).congr fun src => by rw [decodeFieldInto]
  | .list kind => fun name wireType out =>
    (parses_single name (.list kind) nofun
      (parses_decodeList (parses_decodeScalarValue rt kind) wireType) out).congr fun src => by
        rw [decodeFieldInto]
  | .map keyKind valueKind => fun name wireType out =>
    (parses_decodeMapEntryIntoObject keyKind (parses_decodeScalarValue rt valueKind) out name
      wireType).congr fun src => by rw [decodeFieldInto]

theorem parses_decodeNumbered (rt : Runtime) :
    (fields : List GrpcInputFieldMeta) → ∀ n decode, decodeNumbered rt fields n = some decode →
      ∀ wireType out, Parses (decode wireType out)
  | [] => fun n decode found => by cases found
  | .mk field shape :: rest => fun n decode found wireType out => by
    rw [decodeNumbered] at found
    rcases Option.or_eq_some_iff.mp found with later | ⟨-, here⟩
    -- a later field with the number wins
    · exact parses_decodeNumbered rt rest n decode later wireType out
    · split at here
      · cases here
        exact parses_decodeFieldInto rt shape field.name wireType out
      · cases here

end

/-! ### Methods -/

/-- Every byte string decodes to a value or an `Err`, and every iteration of every loop on the way
takes at least one byte: those over the records of a message, of the method or nested, those over
the records of a map entry, and those over packed elements. -/
theorem decode_safe (rt : Runtime) (input output : List GrpcInputFieldMeta) (bytes : Bytes) :
    ((∃ v, decodeMessageForMethod rt (GrpcMethod.new input output) bytes = .ok v) ∨
      ∃ message, decodeMessageForMethod rt (GrpcMethod.new input output) bytes =
        .error (.err message)) ∧
    Progress (messageStep (decodeIndexed rt (GrpcMethod.new input output))) ∧
    (∀ msg : GrpcMessageMeta, Progress (messageStep (decodeNumbered rt msg.fields))) ∧
    (∀ keyKind valueKind, Progress (mapEntryStep rt keyKind
      (fun wireType src => decodeScalarValue rt valueKind wireType src))) ∧
    ∀ kind, kindIsPackable kind = false ∨
      ∃ read, decodePackedValues rt kind = packedLoop read ∧ Progress (packedStep read) := by
  refine ⟨?_, progress_decodeIndexed rt _, fun msg => progress_decodeNumbered rt msg.fields,
    fun keyKind valueKind =>
      progress_mapEntryStep rt keyKind (shrinks_decodeScalarValue rt valueKind), fun kind => ?_⟩
  -- the index of a method never points past its fields
  · rw [decodeMessageForMethod_new]
    exact clean_decodeMessageWith (parses_decodeNumbered rt output)
      (progress_decodeNumbered rt output) bytes
  · cases packable : kindIsPackable kind with
    | false => exact .inl rfl
    | true =>
      obtain ⟨payload, stored⟩ := exists_packedPayload rt packable
      obtain ⟨eof, reads⟩ := decodePackedValues_payload stored
      exact .inr ⟨payload.read eof, funext reads, progress_packedStep payload eof⟩

end Wrkr.Grpc.Wire
