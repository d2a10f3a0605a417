import Wrkr.Grpc.Wire.Typing

/-!
# Field numbers

Three loops read records: that of a message for a method, that of a nested message and that of a
map entry. Each takes the number from the tag as a `u32`, while the tag is a varint of 64 bits, and
checks nothing of it but that the tag is not 0. `RecordDecoder` is what the loops have in common.
-/
namespace Wrkr.Grpc.Wire

open Wrkr.Lib

/-! ### Whole numbers -/

/-- The field number in the tag, before it is cut down to a `u32`. -/
def fullNumber (record : Bytes) : Nat :=
  match readVariant record with
  | .ok (tag, _) => tag.toNat >>> 3
  | .error _ => 0

/-- The numbers that a field can have. -/
def ValidNumber (record : Bytes) : Prop := 1 ≤ fullNumber record ∧ fullNumber record < 2 ^ 29

instance (record : Bytes) : Decidable (ValidNumber record) :=
  inferInstanceAs (Decidable (1 ≤ fullNumber record ∧ fullNumber record < 2 ^ 29))

/-- The bytes of one record. -/
def splitStep (records : List Bytes) (src : Bytes) : Decoded (List Bytes × Bytes) := do
  let (_, wireType, value) ← readTag src
  let rest ← skipValue wireType value
  .ok (records ++ [src.take (src.length - rest.length)], rest)

/-- The records of a buffer, with their tags, whatever their numbers. -/
def splitRecords (bytes : Bytes) : Decoded (List Bytes) :=
  whileRemaining .diverge splitStep [] bytes

/-- The number that the loops look at is the whole one, reduced. -/
theorem readTag_number {src value : Bytes} {n : UInt32} {wireType : WireType}
    (tag : readTag src = .ok (n, wireType, value)) : n.toNat = fullNumber src % 2 ^ 32 := by
  obtain ⟨⟨t, rest⟩, read, tag⟩ := bind_ok tag
  dsimp only at tag
  split at tag
  · cases tag
  · obtain ⟨wireType', -, tag⟩ := bind_ok tag
    cases tag
    rw [fullNumber, read, UInt64.toNat_toUInt32, UInt64.toNat_shiftRight]
    rfl

/-- A tag and the value that its wire type asks for. -/
def IsRecord (record : Bytes) : Prop :=
  ∃ n wireType value, readTag record = .ok (n, wireType, value) ∧ skipValue wireType value = .ok []

/-- A record is a tag and what is skipped behind it. -/
theorem splitStep_ok {records records' : List Bytes} {src rest : Bytes}
    (step : splitStep records src = .ok (records', rest)) :
    ∃ n wireType value, readTag src = .ok (n, wireType, value) ∧
      skipValue wireType value = .ok rest ∧
      records' = records ++ [src.take (src.length - rest.length)] := by
  obtain ⟨⟨n, wireType, value⟩, tag, step⟩ := bind_ok step
  obtain ⟨rest', skips, step⟩ := bind_ok step
  cases step
  exact ⟨n, wireType, value, tag, skips, rfl⟩

/-- A tag does not look beyond its end. -/
theorem readTag_append {src value : Bytes} {n : UInt32} {wireType : WireType}
    (tag : readTag src = .ok (n, wireType, value)) (more : Bytes) :
    readTag (src ++ more) = .ok (n, wireType, value ++ more) := by
  have parses : Parses fun src => readTag src >>= fun p =>
      (.ok ((p.1, p.2.1), p.2.2) : Decoded ((UInt32 × WireType) × Bytes)) :=
    parses_record fun n wireType => Consumes.pure (n, wireType)
  have done := parses.append (show readTag src >>= _ = .ok ((n, wireType), value) by rw [tag]; rfl)
    more
  obtain ⟨⟨n', wireType', value'⟩, tag', same⟩ := bind_ok done
  cases same
  exact tag'

theorem skipValue_append {wireType : WireType} {value rest : Bytes}
    (skips : skipValue wireType value = .ok rest) (more : Bytes) :
    skipValue wireType (value ++ more) = .ok (rest ++ more) := by
  have done := (parses_skipValue wireType ()).append
    (show skipValue wireType value >>= _ = .ok ((), rest) by rw [skips]; rfl) more
  obtain ⟨rest', skips', same⟩ := bind_ok done
  cases same
  exact skips'

theorem splitStep_record {record : Bytes} (isRecord : IsRecord record) (records : List Bytes)
    (more : Bytes) : splitStep records (record ++ more) = .ok (records ++ [record], more) := by
  obtain ⟨n, wireType, value, tag, skips⟩ := isRecord
  rw [splitStep, readTag_append tag more]
  simp [bind, Except.bind, skipValue_append skips more]

theorem progress_splitStep : Progress splitStep := by
  intro records src records' rest step
  obtain ⟨n, wireType, value, tag, skips, -⟩ := splitStep_ok step
  exact (skipValue_shrinks skips).trans_lt (readTag_shrinks tag)

/-- A buffer made of records has no other records. -/
theorem splitRecords_flatten {records : List Bytes} (all : ∀ record ∈ records, IsRecord record) :
    splitRecords records.flatten = .ok records := by
  have reads (done : List Bytes) :
      Reads .diverge splitStep done records.flatten (done ++ records) := by
    induction records generalizing done with
    | nil =>
      rw [List.append_nil]
      exact Reads.nil done
    | cons record later ih =>
      obtain ⟨isRecord, rest⟩ := List.forall_mem_cons.mp all
      -- a record is cut off whole, whatever follows it
      have first : Reads .diverge splitStep done record (done ++ [record]) :=
        Reads.of_body progress_splitStep (splitStep_record isRecord done)
      have second := ih rest (done ++ [record])
      rw [List.append_assoc, List.singleton_append] at second
      exact first.append second
  exact (reads []).whileRemaining

/-! ### The loops -/

/-- A loop that looks up by number what a record is for. A slot has the number and says of a state
that it has been filled. -/
structure RecordDecoder (σ β : Type) where
  body : σ → Bytes → Decoded (σ × Bytes)
  start : σ
  finish : σ → Decoded β
  slots : List (UInt32 × (σ → Prop))
  parses : ∀ s, Parses (body s)
  progress : Progress body
  -- a record does the same to every state, and takes its value off the buffer
  takes : ∀ {s s' src rest}, body s src = .ok (s', rest) →
    ∃ (n : UInt32) (wireType : WireType) (value : Bytes) (f : σ → σ),
      readTag src = .ok (n, wireType, value) ∧ skipValue wireType value = .ok rest ∧
      (∀ s, body s src = .ok (f s, rest)) ∧
      (∀ slot ∈ slots, slot.2 (f start) ↔ n = slot.1) ∧
      ((∀ slot ∈ slots, slot.1 ≠ n) → ∀ s, f s = s)

namespace RecordDecoder

variable {σ β : Type} (d : RecordDecoder σ β)

/-- The loop and what is made of its result. -/
def decode (bytes : Bytes) : Decoded β := do
  let s ← whileRemaining .diverge d.body d.start bytes
  d.finish s

/-- The record, taken by itself, fills the slot. -/
def Contributes (filled : σ → Prop) (record : Bytes) : Prop :=
  ∃ s, d.body d.start record = .ok (s, []) ∧ filled s

/-- Records are for the slot whose number is theirs, and of no effect where there is none. -/
structure SelectsExactly (records : List Bytes) : Prop where
  valid : ∀ record ∈ records, ValidNumber record
  contributes : ∀ record ∈ records, ∀ slot ∈ d.slots,
    d.Contributes slot.2 record ↔ fullNumber record = slot.1.toNat
  undeclared : ∀ before record after, records = before ++ record :: after →
    (∀ slot ∈ d.slots, slot.1.toNat ≠ fullNumber record) →
    d.decode (before.flatten ++ after.flatten) = d.decode records.flatten

variable {d} {s s' : σ} {record : Bytes}

/-- What the loops do look at: the number modulo `2 ^ 32`. -/
theorem contributes_iff (taken : d.body s record = .ok (s', []))
    {slot : UInt32 × (σ → Prop)} (member : slot ∈ d.slots) :
    d.Contributes slot.2 record ↔ fullNumber record % 2 ^ 32 = slot.1.toNat := by
  obtain ⟨n, wireType, value, f, tag, -, does, selects, -⟩ := d.takes taken
  rw [← readTag_number tag, UInt32.toNat_inj, ← selects slot member]
  constructor
  · rintro ⟨alone, taken', filled⟩
    rw [does d.start] at taken'
    cases taken'
    exact filled
  · exact fun filled => ⟨f d.start, does d.start, filled⟩

theorem undeclared_skipped (taken : d.body s record = .ok (s', []))
    (undeclared : ∀ slot ∈ d.slots, slot.1.toNat ≠ fullNumber record % 2 ^ 32) : s' = s := by
  obtain ⟨n, wireType, value, f, tag, -, does, -, skips⟩ := d.takes taken
  rw [does s] at taken
  cases taken
  refine skips (fun slot member same => ?_) s
  exact undeclared slot member (by rw [← readTag_number tag, same])

theorem isRecord_of_taken (taken : d.body s record = .ok (s', [])) : IsRecord record := by
  obtain ⟨n, wireType, value, -, tag, skips, -⟩ := d.takes taken
  exact ⟨n, wireType, value, tag, skips⟩

/-- A buffer that is decoded consists of records. -/
theorem exists_records {bytes : Bytes} {v : β} (decoded : d.decode bytes = .ok v) :
    ∃ records s, records.flatten = bytes ∧ splitRecords bytes = .ok records ∧
      Chunks d.body d.start records s := by
  obtain ⟨s, done, -⟩ := bind_ok decoded
  obtain ⟨records, flat, chunks⟩ := Consumes.chunks d.parses d.progress done
  have all : ∀ record ∈ records, IsRecord record := by
    clear done flat
    generalize d.start = s₀ at chunks
    induction chunks with
    | nil => nofun
    | cons taken _ ih => exact List.forall_mem_cons.mpr ⟨isRecord_of_taken taken, ih⟩
  exact ⟨records, s, flat, flat ▸ splitRecords_flatten all, chunks⟩

/-- A field is selected by its own number exactly if no number in the bytes is cut. -/
theorem selectsExactly_iff {bytes : Bytes} {v : β} (decoded : d.decode bytes = .ok v) :
    ∃ records, splitRecords bytes = .ok records ∧
      (d.SelectsExactly records ↔ ∀ record ∈ records, ValidNumber record) := by
  obtain ⟨records, s, flat, split, chunks⟩ := exists_records decoded
  refine ⟨records, split, fun exactly => exactly.valid, fun valid => ⟨valid, ?_, ?_⟩⟩
  · intro record member slot isSlot
    obtain ⟨before, after, rfl⟩ := List.append_of_mem member
    obtain ⟨s₁, -, _ | ⟨taken, -⟩⟩ := chunks.split
    have small : fullNumber record % 2 ^ 32 = fullNumber record :=
      Nat.mod_eq_of_lt ((valid record member).2.trans (by decide))
    rw [contributes_iff taken isSlot, small]
  · rintro before record after rfl undeclared
    have member : record ∈ before ++ record :: after := by simp
    have small : fullNumber record % 2 ^ 32 = fullNumber record :=
      Nat.mod_eq_of_lt ((valid record member).2.trans (by decide))
    obtain ⟨s₁, first, _ | ⟨taken, later⟩⟩ := chunks.split
    cases undeclared_skipped taken (small.symm ▸ undeclared)
    have reads : Reads Failure.diverge _ _ _ _ := first.reads d.parses d.progress
    have skipped : Reads Failure.diverge _ _ _ _ :=
      Reads.of_body d.progress fun rest => (d.parses _).append taken rest
    -- the loop is where it was before the record
    rw [List.flatten_append, List.flatten_cons, decode, decode, reads, reads, skipped]

end RecordDecoder

/-! ### Messages -/

variable {rt : Runtime} {fields : List GrpcInputFieldMeta}

section Tagged

variable {numbered : UInt32 → Option FieldDecoder} {out : ObjectMap} {src value : Bytes} {n : UInt32}
  {wireType : WireType}

theorem messageStep_skips (tag : readTag src = .ok (n, wireType, value))
    (undeclared : numbered n = none) :
    messageStep numbered out src =
      skipValue wireType value >>= fun rest => .ok (out, rest) := by
  rw [messageStep, tag]
  dsimp only [bind, Except.bind]
  rw [undeclared]

theorem messageStep_decodes {decode : FieldDecoder} (tag : readTag src = .ok (n, wireType, value))
    (declared : numbered n = some decode) :
    messageStep numbered out src = decode wireType out value := by
  rw [messageStep, tag]
  dsimp only [bind, Except.bind]
  rw [declared]

end Tagged

/-- What a record does to a message depends on the record alone: it is skipped, or it updates the
one field with its number. -/
theorem messageStep_takes (unique : UniqueFields fields) {out out' : ObjectMap} {src rest : Bytes}
    (step : messageStep (decodeNumbered rt fields) out src = .ok (out', rest)) :
    ∃ n wireType value, readTag src = .ok (n, wireType, value) ∧
      skipValue wireType value = .ok rest ∧
      ((∀ entry ∈ fields, entry.field.number ≠ n) ∧
          (∀ out, messageStep (decodeNumbered rt fields) out src = .ok (out, rest)) ∨
        ∃ entry ∈ fields, entry.field.number = n ∧ ∃ update,
          ∀ out, messageStep (decodeNumbered rt fields) out src =
            .ok (putField out entry.field.name update, rest)) := by
  obtain ⟨⟨n, wireType, value⟩, tag, step⟩ := bind_ok step
  refine ⟨n, wireType, value, tag, ?_⟩
  dsimp only at step
  cases found : decodeNumbered rt fields n with
  -- no field has this number, so whatever was collected stays
  | none =>
    rw [found] at step
    obtain ⟨rest', skips, step⟩ := bind_ok step
    cases step
    refine ⟨skips, .inl ⟨fun entry member same => ?_, fun out => ?_⟩⟩
    · have isField := finds_decodeNumbered rt unique entry member
      rw [same, found] at isField
      cases isField
    · rw [messageStep_skips tag found, skips]
      rfl
  | some decode =>
    obtain ⟨entry, member, rfl, rfl⟩ := decodeNumbered_entry found
    rw [found] at step
    change decodeFieldInto rt entry.field.name entry.shape wireType out value = _ at step
    have skips := (decodeFieldInto_reading ⟨entry.field.number, wireType, value⟩ step).1
    refine ⟨skips, .inr ⟨entry, member, rfl, ?_⟩⟩
    rcases decodeFieldInto_eq rt entry.field.name entry.shape wireType value with
      ⟨e, fails⟩ | ⟨update, rest', -, does⟩
    · rw [fails] at step
      cases step
    · rw [does] at step
      cases step
      exact ⟨update, fun out => (messageStep_decodes tag found).trans (does out)⟩

/-- The loop of a message. A field is filled that has an entry. -/
def messageDecoder (rt : Runtime) (fields : List GrpcInputFieldMeta) (unique : UniqueFields fields) :
    RecordDecoder ObjectMap Value where
  body := messageStep (decodeNumbered rt fields)
  start := []
  finish out := .ok (.object out)
  slots := fields.map fun entry =>
    (entry.field.number, fun out => entry.field.name ∈ out.map Prod.fst)
  parses := parses_messageStep (parses_decodeNumbered rt fields)
  progress := progress_decodeNumbered rt fields
  takes := by
    intro out out' src rest step
    obtain ⟨n, wireType, value, tag, skips, ⟨undeclared, does⟩ | ⟨entry, member, rfl, update, does⟩⟩ :=
      messageStep_takes unique step
    · refine ⟨n, wireType, value, id, tag, skips, does, ?_, fun _ _ => rfl⟩
      intro slot isSlot
      obtain ⟨entry, member, rfl⟩ := List.mem_map.mp isSlot
      exact iff_of_false List.not_mem_nil (undeclared entry member).symm
    · refine ⟨entry.field.number, wireType, value, fun out => putField out entry.field.name update,
        tag, skips, does, ?_, ?_⟩
      · intro slot isSlot
        obtain ⟨entry', member', rfl⟩ := List.mem_map.mp isSlot
        change entry'.field.name ∈ [entry.field.name] ↔ entry.field.number = entry'.field.number
        rw [List.mem_singleton]
        constructor
        · intro name
          rw [List.inj_on_of_nodup_map unique.names member' member name]
        · intro number
          rw [List.inj_on_of_nodup_map unique.numbers member member' number]
      -- a number that is no slot is not that of a field
      · intro undeclared
        exact absurd rfl (undeclared _ (List.mem_map_of_mem member))

theorem messageDecoder_decode (unique : UniqueFields fields) (bytes : Bytes) :
    (messageDecoder rt fields unique).decode bytes = decodeMessageForMeta rt (.mk fields) bytes := rfl

/-! ### Map entries -/

variable {keyKind : Kind} {valueKind : GrpcValueKind}

/-- The same for an entry, with its two fields. -/
theorem mapEntryStep_takes {entry entry' : Option MapKey × Option Value} {src rest : Bytes}
    (step : mapEntryStep rt keyKind (fun wireType src => decodeScalarValue rt valueKind wireType src)
      entry src = .ok (entry', rest)) :
    ∃ n wireType value, readTag src = .ok (n, wireType, value) ∧
      skipValue wireType value = .ok rest ∧
      ((n = 1 ∧ ∃ key, ∀ entry, mapEntryStep rt keyKind
          (fun wireType src => decodeScalarValue rt valueKind wireType src) entry src =
            .ok ((some key, entry.2), rest)) ∨
        (n = 2 ∧ ∃ v, ∀ entry, mapEntryStep rt keyKind
          (fun wireType src => decodeScalarValue rt valueKind wireType src) entry src =
            .ok ((entry.1, some v), rest)) ∨
        n ≠ 1 ∧ n ≠ 2 ∧ ∀ entry, mapEntryStep rt keyKind
          (fun wireType src => decodeScalarValue rt valueKind wireType src) entry src =
            .ok (entry, rest)) := by
  obtain ⟨⟨n, wireType, value⟩, tag, step⟩ := bind_ok step
  refine ⟨n, wireType, value, tag, ?_⟩
  simp only [mapEntryStep, tag, Bind.bind, Except.bind]
  dsimp only at step
  split at step
  -- which of the three cases it is only depends on the number
  next isKey =>
    obtain ⟨⟨key, rest'⟩, decoded, step⟩ := bind_ok step
    cases step
    exact ⟨(decodeMapKey_spec ⟨n, wireType, value⟩ decoded).1,
      .inl ⟨isKey, key, fun entry => by simp [isKey, decoded]⟩⟩
  next notKey =>
    split at step
    next isValue =>
      obtain ⟨⟨v, rest'⟩, decoded, step⟩ := bind_ok step
      cases step
      exact ⟨decodeScalarValue_skip decoded,
        .inr (.inl ⟨isValue, v, fun entry => by simp [isValue, decoded]⟩)⟩
    next notValue =>
      obtain ⟨rest', skips, step⟩ := bind_ok step
      cases step
      exact ⟨skips, .inr (.inr ⟨notKey, notValue, fun entry => by simp [notKey, notValue, skips]⟩)⟩

/-- The loop of a map entry, with the key as field 1 and the value as field 2. -/
def entryDecoder (rt : Runtime) (keyKind : Kind) (valueKind : GrpcValueKind) :
    RecordDecoder (Option MapKey × Option Value) (MapKey × Value) where
  body := mapEntryStep rt keyKind (fun wireType src => decodeScalarValue rt valueKind wireType src)
  start := (none, none)
  finish entry :=
    match entry.1 with
    | none => fail "map entry missing key"
    | some k =>
      match entry.2 with
      | none => fail "map entry missing value"
      | some v => .ok (k, v)
  slots := [(1, fun entry => entry.1.isSome), (2, fun entry => entry.2.isSome)]
  parses := parses_mapEntryStep rt keyKind (parses_decodeScalarValue rt valueKind)
  progress := progress_mapEntryStep rt keyKind (shrinks_decodeScalarValue rt valueKind)
  takes := by
    intro entry entry' src rest step
    obtain ⟨n, wireType, value, tag, skips, ⟨rfl, key, does⟩ | ⟨rfl, v, does⟩ |
      ⟨notKey, notValue, does⟩⟩ := mapEntryStep_takes step
    · exact ⟨1, wireType, value, fun entry => (some key, entry.2), tag, skips, does, by simp,
        fun undeclared => absurd rfl (undeclared _ List.mem_cons_self)⟩
    · exact ⟨2, wireType, value, fun entry => (entry.1, some v), tag, skips, does, by simp,
        fun undeclared => absurd rfl (undeclared _ (List.mem_cons_of_mem _ List.mem_cons_self))⟩
    · exact ⟨n, wireType, value, id, tag, skips, does, by simp [notKey, notValue],
        fun _ _ => rfl⟩

theorem entryDecoder_decode (bytes : Bytes) :
    (entryDecoder rt keyKind valueKind).decode bytes = decodeMapEntry rt keyKind
      (fun wireType src => decodeScalarValue rt valueKind wireType src) bytes := rfl

/-! ### What the numbers select -/

/-- In all three loops: what is decoded consists of records, and they have valid numbers and are
for the fields with just these numbers exactly when their numbers are valid, which is not checked.
A nested message is one more buffer that the second decoder decodes. -/
theorem field_numbers_iff (rt : Runtime) :
    (∀ (fields : List GrpcInputFieldMeta) (unique : UniqueFields fields)
      (decode : Bytes → Decoded Value), (decode = decodeMessageForMeta rt (.mk fields) ∨
        ∃ input, decode = decodeMessageForMethod rt (GrpcMethod.new input fields)) →
      ∀ bytes v, decode bytes = .ok v → ∃ records, splitRecords bytes = .ok records ∧
        ((messageDecoder rt fields unique).SelectsExactly records ↔
          ∀ record ∈ records, ValidNumber record)) ∧
    ∀ (keyKind : Kind) (valueKind : GrpcValueKind) bytes entry, decodeMapEntry rt keyKind
      (fun wireType src => decodeScalarValue rt valueKind wireType src) bytes = .ok entry →
      ∃ records, splitRecords bytes = .ok records ∧
        ((entryDecoder rt keyKind valueKind).SelectsExactly records ↔
          ∀ record ∈ records, ValidNumber record) := by
  refine ⟨fun fields unique decode decoder bytes v decoded => ?_,
    fun keyKind valueKind bytes entry decoded => ?_⟩
  -- the two decoders are one function
  · have isMeta : decode = decodeMessageForMeta rt (.mk fields) := by
      rcases decoder with rfl | ⟨input, rfl⟩
      · rfl
      · exact funext (decodeMessageForMethod_new rt input fields)
    rw [isMeta, ← messageDecoder_decode unique] at decoded
    exact RecordDecoder.selectsExactly_iff decoded
  · rw [← entryDecoder_decode] at decoded
    exact RecordDecoder.selectsExactly_iff decoded

def idFields : List GrpcInputFieldMeta := [.mk ⟨"id", 1⟩ (.scalar .int64)]

theorem uniqueFields_id : UniqueFields idFields := ⟨by decide, by decide, by decide⟩

theorem field_numbers_id : ∃ records, splitRecords [0x08, 7] = .ok records ∧
    ((messageDecoder ieee idFields uniqueFields_id).SelectsExactly records ↔
      ∀ record ∈ records, ValidNumber record) :=
  (field_numbers_iff ieee).1 idFields uniqueFields_id _ (.inl rfl) [0x08, 7]
    (.object [("id", .i64 7)]) rfl

/-- A record with the number `2 ^ 32 + 1` is taken for field 1. -/
theorem field_number_wraps :
    decodeMessageForMeta ieee (.mk idFields) [0x88, 0x80, 0x80, 0x80, 0x80, 0x01, 7] =
        .ok (.object [("id", .i64 7)]) ∧
      splitRecords [0x88, 0x80, 0x80, 0x80, 0x80, 0x01, 7] =
        .ok [[0x88, 0x80, 0x80, 0x80, 0x80, 0x01, 7]] ∧
      fullNumber [0x88, 0x80, 0x80, 0x80, 0x80, 0x01, 7] = 2 ^ 32 + 1 ∧
      ¬(messageDecoder ieee idFields uniqueFields_id).SelectsExactly
        [[0x88, 0x80, 0x80, 0x80, 0x80, 0x01, 7]] := by
  have number : fullNumber [0x88, 0x80, 0x80, 0x80, 0x80, 0x01, 7] = 2 ^ 32 + 1 := by
    decide +kernel
  refine ⟨by rfl, by rfl, number, fun exactly => ?_⟩
  have valid := exactly.valid _ List.mem_cons_self
  rw [ValidNumber, number] at valid
  omega

end Wrkr.Grpc.Wire
