import Wrkr.Grpc.Wire.Safety

/-!
# Concatenated messages

Decoding a concatenation is merging what its parts decode to. A record turns into an update of one
field, which does not depend on what was read before (`decodeFieldInto_eq`), and such an update
commutes with merging an earlier message in (`mergeObjects_put`), because the values of repeated
and map fields keep their shape. So the loop over the second part, started from the first message,
ends in the merged one; a record of an unknown field is the case that changes nothing.
-/
namespace Wrkr.Grpc.Wire

open Wrkr.Lib

variable (rt : Runtime)

/-! ### Merging -/

def fieldShape (fields : List GrpcInputFieldMeta) (name : String) : Option GrpcFieldShape :=
  (fields.find? fun entry => entry.field.name = name).map GrpcInputFieldMeta.shape

/-- A repeated field is appended to, the entries of a map field are united with those on the right
winning, and of a singular field the value on the right is kept. -/
def mergeField (shape : Option GrpcFieldShape) (left right : Value) : Value :=
  match shape, left, right with
  | some (.list _), .array items, .array more => .array (items ++ more)
  -- `HashMap::insert` over the entries of the right
  | some (.map _ _), .map entries, .map more =>
    .map (HashTable.unionWith (fun _ _ v => v) entries more)
  | _, _, right => right

/-- Field by field, in the order in which the fields come up. -/
def mergeObjects (fields : List GrpcInputFieldMeta) (a b : ObjectMap) : ObjectMap :=
  HashTable.unionWith (fun name => mergeField (fieldShape fields name)) a b

/-- Two messages are merged, of other values the later one stays. -/
def merge (fields : List GrpcInputFieldMeta) : Value → Value → Value
  | .object a, .object b => .object (mergeObjects fields a b)
  | _, right => right

/-- With distinct names the shape of a field is its own. -/
theorem fieldShape_of_mem {fields : List GrpcInputFieldMeta}
    (names : (fields.map fun entry => entry.field.name).Nodup) {entry : GrpcInputFieldMeta}
    (member : entry ∈ fields) : fieldShape fields entry.field.name = some entry.shape := by
  induction fields with
  | nil => simp at member
  | cons first rest ih =>
    rw [List.map_cons, List.nodup_cons] at names
    rw [List.mem_cons] at member
    rcases member with rfl | later
    · simp [fieldShape]
    -- `find?` passes the first field because no two share a name
    · have other : first.field.name ≠ entry.field.name := fun same =>
        names.1 (same ▸ List.mem_map_of_mem later)
      have found := ih names.2 later
      simpa [fieldShape, other] using found

/-! ### Updates -/

/-- What a record does to the value of its field. -/
inductive FieldUpdate
  | set (v : Value)
  | append (items : List Value)
  | put (k : MapKey) (v : Value)

/-- What an update makes of the value that is there. -/
def FieldUpdate.apply : FieldUpdate → Option Value → Value
  | .set v, _ => v
  | .append items, none => .array items
  | .append items, some (.array existing) => .array (existing ++ items)
  -- the source wraps a value that is no array; `Shaped` rules it out
  | .append items, some prev => .array (prev :: items)
  | .put k v, some (.map existing) => .map (HashTable.insertEntry existing k v)
  | .put k v, _ => .map [(k, v)]

/-- A field that is there keeps its place. -/
def putField (out : ObjectMap) (name : String) (update : FieldUpdate) : ObjectMap :=
  HashTable.insertEntry out name (update.apply (out.lookup name))

/-- The update that belongs to a shape. -/
inductive FieldUpdate.Of : GrpcFieldShape → FieldUpdate → Prop
  | scalar (kind : GrpcValueKind) (v : Value) : Of (.scalar kind) (.set v)
  | list (kind : GrpcValueKind) (items : List Value) : Of (.list kind) (.append items)
  | map (keyKind : Kind) (valueKind : GrpcValueKind) (k : MapKey) (v : Value) :
    Of (.map keyKind valueKind) (.put k v)

theorem mergeDecodedField_array (out : ObjectMap) (name : String) (kind : GrpcValueKind)
    (items : List Value) : mergeDecodedField out name (.list kind) (.array items) =
      .ok (putField out name (.append items)) := by
  unfold mergeDecodedField putField
  cases out.lookup name with
  | none => rfl
  | some prev => cases prev <;> rfl

/-- Packed or not, what a record adds is a list. -/
theorem decodeList_array {kind : GrpcValueKind} {decodeScalar : ValueDecoder} {wireType : WireType}
    {src rest : Bytes} {v : Value}
    (decoded : decodeList rt kind decodeScalar wireType src = .ok (v, rest)) :
    ∃ items, v = .array items := by
  unfold decodeList at decoded
  split at decoded
  -- a packed record, then a record of one item
  · obtain ⟨⟨bytes, src'⟩, -, decoded⟩ := bind_ok decoded
    obtain ⟨items, -, decoded⟩ := bind_ok decoded
    cases decoded
    exact ⟨items, rfl⟩
  · obtain ⟨⟨item, src'⟩, -, decoded⟩ := bind_ok decoded
    cases decoded
    exact ⟨[item], rfl⟩

/-- A record fails whatever was read before, or it is an update of its field. -/
theorem decodeFieldInto_eq (name : String) (shape : GrpcFieldShape) (wireType : WireType)
    (src : Bytes) :
    (∃ e, ∀ out, decodeFieldInto rt name shape wireType out src = .error e) ∨
      ∃ update rest, FieldUpdate.Of shape update ∧
        ∀ out, decodeFieldInto rt name shape wireType out src =
          .ok (putField out name update, rest) := by
  -- what is decoded depends on the record alone; `out` is read only when the value is merged
  cases shape with
  | scalar kind =>
    cases read : decodeScalarValue rt kind wireType src with
    | error e => exact .inl ⟨e, fun out => by rw [decodeFieldInto, read]; rfl⟩
    | ok p =>
      refine .inr ⟨.set p.1, p.2, .scalar kind p.1, fun out => ?_⟩
      rw [decodeFieldInto, read]
      rfl
  | list kind =>
    cases read : decodeList rt kind
      (fun wireType src => decodeScalarValue rt kind wireType src) wireType src with
    | error e => exact .inl ⟨e, fun out => by rw [decodeFieldInto, read]; rfl⟩
    | ok p =>
      obtain ⟨v, rest⟩ := p
      obtain ⟨items, rfl⟩ := decodeList_array rt read
      refine .inr ⟨.append items, rest, .list kind items, fun out => ?_⟩
      rw [decodeFieldInto, read]
      simp only [bind, Except.bind, mergeDecodedField_array]
  | map keyKind valueKind =>
    -- the entry is decoded in full before the object is touched
    have entered (out : ObjectMap) : decodeFieldInto rt name (.map keyKind valueKind) wireType out
        src = expect .len "map field must be length-delimited" wireType >>= fun _ =>
          readLenDelimited src >>= fun p => decodeMapEntry rt keyKind
            (fun wireType src => decodeScalarValue rt valueKind wireType src) p.1 >>= fun e =>
              .ok (putMapEntry out name e.1 e.2, p.2) := by
      rw [decodeFieldInto, decodeMapEntryIntoObject_eq]
    cases isLen : expect .len "map field must be length-delimited" wireType with
    | error e => exact .inl ⟨e, fun out => by rw [entered, isLen]; rfl⟩
    | ok _ =>
      cases read : readLenDelimited src with
      | error e => exact .inl ⟨e, fun out => by rw [entered, isLen, read]; rfl⟩
      | ok p =>
        cases entry : decodeMapEntry rt keyKind
          (fun wireType src => decodeScalarValue rt valueKind wireType src) p.1 with
        | error e =>
          refine .inl ⟨e, fun out => ?_⟩
          rw [entered, isLen, read]
          simp only [bind, Except.bind, entry]
        | ok e =>
          refine .inr ⟨.put e.1 e.2, p.2, .map keyKind valueKind e.1 e.2, fun out => ?_⟩
          rw [entered, isLen, read]
          simp only [bind, Except.bind, entry, putMapEntry, putField]
          cases out.lookup name with
          | none => rfl
          | some prev => cases prev <;> rfl

/-! ### Shapes -/

/-- The values that updates of a shape lead to. -/
inductive Shaped : GrpcFieldShape → Value → Prop
  | scalar (kind : GrpcValueKind) (v : Value) : Shaped (.scalar kind) v
  | list (kind : GrpcValueKind) (items : List Value) : Shaped (.list kind) (.array items)
  | map (keyKind : Kind) (valueKind : GrpcValueKind) {entries : List (MapKey × Value)}
    (distinct : (entries.map Prod.fst).Nodup) : Shaped (.map keyKind valueKind) (.map entries)

/-- Every declared field holds a value of its shape, and no name comes twice. -/
structure WellShaped (fields : List GrpcInputFieldMeta) (out : ObjectMap) : Prop where
  distinct : (out.map Prod.fst).Nodup
  shaped : ∀ name v shape, out.lookup name = some v → fieldShape fields name = some shape →
    Shaped shape v

theorem WellShaped.nil (fields : List GrpcInputFieldMeta) : WellShaped fields [] :=
  ⟨List.nodup_nil, nofun⟩

/-- An update keeps the shape. -/
theorem FieldUpdate.Of.shaped {shape : GrpcFieldShape} {update : FieldUpdate}
    (of : update.Of shape) {prev : Option Value} (before : ∀ v, prev = some v → Shaped shape v) :
    Shaped shape (update.apply prev) := by
  cases of with
  | scalar kind v => exact .scalar kind _
  | list kind items =>
    cases prev with
    | none => exact .list kind items
    | some v =>
      -- the field held an array before, so nothing is wrapped
      cases before v rfl with
      | list _ existing => exact .list kind (existing ++ items)
  | map keyKind valueKind k v =>
    cases prev with
    | none => exact .map keyKind valueKind (by simp)
    | some v =>
      cases before v rfl with
      | map _ _ distinct => exact .map keyKind valueKind (HashTable.nodup_insertEntry distinct _ _)

variable {fields : List GrpcInputFieldMeta} {name : String} {shape : GrpcFieldShape}
  {update : FieldUpdate} {a out : ObjectMap}

/-- So does putting it into the object. -/
theorem WellShaped.put (inv : WellShaped fields out) (of : update.Of shape)
    (declared : fieldShape fields name = some shape) :
    WellShaped fields (putField out name update) := by
  refine ⟨HashTable.nodup_insertEntry inv.distinct _ _, fun name' v shape' found declared' => ?_⟩
  rw [putField, HashTable.lookup_insertEntry] at found
  split at found
  next same =>
    subst same
    cases found
    -- the name determines the shape
    cases declared.symm.trans declared'
    exact of.shaped fun v isValue => inv.shaped name' v shape isValue declared
  next => exact inv.shaped name' v shape' found declared'

/-- Updating after a merge is updating before it. -/
theorem FieldUpdate.Of.apply_merge (of : update.Of shape) {left : Value}
    (isLeft : Shaped shape left) {prev : Option Value} (before : ∀ v, prev = some v → Shaped shape v) :
    mergeField (some shape) left (update.apply prev) =
      update.apply (some (prev.elim left (mergeField (some shape) left))) := by
  cases of with
  -- the last value wins on both sides
  | scalar kind v => cases left <;> rfl
  | list kind items =>
    cases isLeft with
    | list _ first =>
      cases prev with
      | none => rfl
      | some right =>
        cases before right rfl with
        -- `first ++ (second ++ items)` is `(first ++ second) ++ items`
        | list _ second => simp [FieldUpdate.apply, mergeField]
  | map keyKind valueKind k v =>
    cases isLeft with
    | map _ _ distinct =>
      rename_i first
      -- the new entry wins over both maps, so it can be put last
      have inserted (second : List (MapKey × Value)) :
          HashTable.unionWith (fun _ _ v => v) first (HashTable.insertEntry second k v) =
            HashTable.insertEntry (HashTable.unionWith (fun _ _ v => v) first second) k v := by
        rw [HashTable.unionWith_insertEntry distinct]
        cases first.lookup k <;> rfl
      cases prev with
      | none =>
        have single := inserted []
        rw [HashTable.unionWith_nil] at single
        exact congrArg Value.map single
      | some right =>
        cases before right rfl with
        | map _ _ _ => exact congrArg Value.map (inserted _)

/-- An update of the second message is an update of the merged one. -/
theorem mergeObjects_put (first : WellShaped fields a) (second : WellShaped fields out)
    (of : update.Of shape) (declared : fieldShape fields name = some shape) :
    mergeObjects fields a (putField out name update) =
      putField (mergeObjects fields a out) name update := by
  have before (v : Value) (found : out.lookup name = some v) : Shaped shape v :=
    second.shaped name v shape found declared
  rw [mergeObjects, putField, HashTable.unionWith_insertEntry first.distinct, putField,
    mergeObjects, HashTable.lookup_unionWith]
  -- both put one entry at `name`; what is left is the value there
  congr 1
  cases left : a.lookup name with
  -- the first message says nothing about the field
  | none => rfl
  | some l =>
    have merged := of.apply_merge (first.shaped name l shape left declared) before
    simp only [declared]
    rw [merged]
    cases out.lookup name <;> rfl

/-! ### Messages -/

/-- A decoder that a number leads to is the one of a field, which has the shape declared. -/
theorem decodeNumbered_some (names : (fields.map fun entry => entry.field.name).Nodup) {n : UInt32}
    {decode : FieldDecoder} (found : decodeNumbered rt fields n = some decode) :
    ∃ entry : GrpcInputFieldMeta, decode = decodeFieldInto rt entry.field.name entry.shape ∧
      fieldShape fields entry.field.name = some entry.shape := by
  rw [decodeNumbered_eq_lastWith, Option.map_eq_some_iff] at found
  obtain ⟨entry, isLast, rfl⟩ := found
  exact ⟨entry, rfl, fieldShape_of_mem names
    (List.mem_of_mem_filter (HashTable.lastWith_mem _ isLast))⟩

/-- One record, with an earlier message merged in or not. -/
theorem messageStep_mergeObjects (names : (fields.map fun entry => entry.field.name).Nodup)
    (first : WellShaped fields a) (second : WellShaped fields out) (src : Bytes) :
    messageStep (decodeNumbered rt fields) (mergeObjects fields a out) src =
      (messageStep (decodeNumbered rt fields) out src).map fun p =>
        (mergeObjects fields a p.1, p.2) := by
  unfold messageStep
  cases readTag src with
  | error e => rfl
  | ok p =>
    obtain ⟨n, wireType, rest⟩ := p
    simp only [bind, Except.bind]
    cases found : decodeNumbered rt fields n with
    -- a record that is skipped changes neither object
    | none => cases skipValue wireType rest <;> rfl
    | some decode =>
      obtain ⟨entry, rfl, declared⟩ := decodeNumbered_some rt names found
      rcases decodeFieldInto_eq rt entry.field.name entry.shape wireType rest with
        ⟨e, failed⟩ | ⟨update, rest', of, updated⟩
      · simp [failed, Except.map]
      · simp [updated, Except.map, mergeObjects_put first second of declared]

/-- And so does every record. -/
theorem wellShaped_messageStep (names : (fields.map fun entry => entry.field.name).Nodup)
    {out' : ObjectMap} {src rest : Bytes} (inv : WellShaped fields out)
    (step : messageStep (decodeNumbered rt fields) out src = .ok (out', rest)) :
    WellShaped fields out' := by
  obtain ⟨⟨n, wireType, src'⟩, -, step⟩ := bind_ok step
  dsimp only at step
  split at step
  -- skipped
  · obtain ⟨src'', -, step⟩ := bind_ok step
    cases step
    exact inv
  next decode found =>
    obtain ⟨entry, rfl, declared⟩ := decodeNumbered_some rt names found
    rcases decodeFieldInto_eq rt entry.field.name entry.shape wireType src' with
      ⟨e, failed⟩ | ⟨update, rest', of, updated⟩
    · rw [failed] at step
      cases step
    · rw [updated] at step
      cases step
      exact inv.put of declared

/-- A message is the object that the loop over its records has read. -/
theorem decodeMessageForMeta_ok {bytes : Bytes} {v : Value}
    (decoded : decodeMessageForMeta rt (.mk fields) bytes = .ok v) :
    ∃ out, v = .object out ∧
      Reads .diverge (messageStep (decodeNumbered rt fields)) [] bytes out := by
  obtain ⟨out, loop, decoded⟩ := bind_ok decoded
  cases decoded
  exact ⟨out, rfl, Consumes.reads (parses_messageStep (parses_decodeNumbered rt fields))
    (progress_decodeNumbered rt fields) loop⟩

/-- What the second part decodes to is merged into what the first part did. -/
theorem decodeMessageForMeta_append (names : (fields.map fun entry => entry.field.name).Nodup)
    {x : Bytes} {v : Value} (first : decodeMessageForMeta rt (.mk fields) x = .ok v) (y : Bytes) :
    decodeMessageForMeta rt (.mk fields) (x ++ y) =
      (decodeMessageForMeta rt (.mk fields) y).map (merge fields v) := by
  obtain ⟨a, rfl, reads⟩ := decodeMessageForMeta_ok rt first
  have shaped : WellShaped fields a := by
    have loop := reads.whileRemaining
    exact whileRemaining_invariant (fun s src s' rest inv step =>
      wellShaped_messageStep rt names inv step) (WellShaped.nil fields) loop
  -- the loop over `y` from the empty message and from `a`, related by merging `a` in
  have merged := whileRemaining_map .diverge (WellShaped fields)
    (fun out src inv => messageStep_mergeObjects rt names shaped inv src)
    (fun out src out' rest inv step => wellShaped_messageStep rt names inv step)
    (WellShaped.nil fields) y
  rw [mergeObjects, HashTable.unionWith_nil] at merged
  simp only [decodeMessageForMeta, GrpcMessageMeta.fields, decodeMessageWith]
  -- the loop over `x ++ y` arrives at `y` with `a` read
  rw [reads y, merged]
  cases whileRemaining .diverge (messageStep (decodeNumbered rt fields)) [] y <;> rfl

/-- A record of a field that the schema does not declare is skipped. -/
theorem reads_unknown {n : UInt32} (undeclared : ∀ entry ∈ fields, entry.field.number ≠ n)
    {record payload : Bytes} {wireType : WireType} (tag : readTag record = .ok (n, wireType, payload))
    (skipped : skipValue wireType payload = .ok []) (out : ObjectMap) :
    Reads .diverge (messageStep (decodeNumbered rt fields)) out record out := by
  -- no field has the number, so none is the last with it
  have unknown : decodeNumbered rt fields n = none := by
    rw [decodeNumbered_eq_lastWith, Option.map_eq_none_iff, HashTable.lastWith_eq_none]
    intro entry member
    exact undeclared entry (List.mem_of_mem_filter member)
  have step : messageStep (decodeNumbered rt fields) out record = .ok (out, []) := by
    rw [messageStep, tag]
    simp only [bind, Except.bind, unknown, skipped]
  apply Reads.of_body (progress_decodeNumbered rt fields)
  intro rest
  exact (parses_messageStep (parses_decodeNumbered rt fields) out).append step rest

/-- For both decoders, when the first part decodes: the whole decodes to the merged message when
the second part decodes, and fails when it fails; a record of an undeclared field between the two
makes no difference. -/
theorem concatenation_law (names : (fields.map fun entry => entry.field.name).Nodup)
    {decode : Bytes → Decoded Value}
    (decoder : decode = decodeMessageForMeta rt (.mk fields) ∨
      ∃ input, decode = decodeMessageForMethod rt (GrpcMethod.new input fields))
    {x : Bytes} {a : Value} (first : decode x = .ok a) (y : Bytes) :
    (∀ b, decode y = .ok b → decode (x ++ y) = .ok (merge fields a b)) ∧
      (∀ e, decode y = .error e → decode (x ++ y) = .error e) ∧
      ∀ (n : UInt32) (wireType : WireType) (record payload : Bytes),
        (∀ entry ∈ fields, entry.field.number ≠ n) → readTag record = .ok (n, wireType, payload) →
        skipValue wireType payload = .ok [] → decode (x ++ (record ++ y)) = decode (x ++ y) := by
  -- `GrpcMethod::new` indexes the fields by number as the loop over them would
  have isMeta : decode = decodeMessageForMeta rt (.mk fields) := by
    rcases decoder with rfl | ⟨input, rfl⟩
    · rfl
    · exact funext (decodeMessageForMethod_new rt input fields)
  subst isMeta
  refine ⟨fun b second => ?_, fun e second => ?_,
    fun n wireType record payload undeclared tag skipped => ?_⟩
  · rw [decodeMessageForMeta_append rt names first, second]
    rfl
  · rw [decodeMessageForMeta_append rt names first, second]
    rfl
  · obtain ⟨out, rfl, reads⟩ := decodeMessageForMeta_ok rt first
    simp only [decodeMessageForMeta, GrpcMessageMeta.fields, decodeMessageWith]
    rw [reads, reads, reads_unknown rt undeclared tag skipped out y]

/-- Two orders in one buffer: the later id, the counts of both. -/
theorem concatenation_law_orders :
    decodeMessageForMeta ieee (.mk orderFields) ([0x08, 1, 0x10, 10] ++ [0x08, 2, 0x10, 13]) =
      .ok (.object [("id", .i64 2), ("counts", .array [.i64 5, .i64 (-7)])]) := by
  have law := (@concatenation_law ieee orderFields (by decide) _ (.inl rfl) [0x08, 1, 0x10, 10] _ rfl
    [0x08, 2, 0x10, 13]).1 _ rfl
  exact law

end Wrkr.Grpc.Wire
