import Wrkr.Grpc.Wire.Sendable
import Wrkr.Lua.ValueRoundTrip

/-!
# A request that is sent back

The way of a request through `client:invoke` and back: the table is converted without the schema,
encoded with it, decoded by it, and a table is built from what was decoded. On this way integers
become unsigned, texts become bytes and objects become maps; `Twin` says that `value_to_lua` shows
nothing of it. Together: what an echo server answers is the request (`echo_returns_request`), in
whatever order the hash maps in between are gone through.
-/
namespace Wrkr.ValueUtil

open Wrkr.Lib Wrkr.Lua

/-! ### Keys -/

/-- The key that `lua_to_value` has for the number. -/
def luaKey : MapKey → MapKey
  | .i64 i => if 0 ≤ i then .u64 i.toUInt64 else .i64 i
  | key => key

theorem u64ToLua_of_nonneg {i : Int64} (sign : 0 ≤ i) :
    u64ToLua .integer i.toUInt64 = .integer i := by
  have small : i.toUInt64 ≤ Int64.maxValue.toUInt64 := by
    rw [UInt64.le_iff_toNat_le, Int64.toNat_toUInt64_of_le sign]
    exact Nat.le_of_lt_succ (toNat_lt i)
  rw [u64ToLua, if_pos small, toInt64_toUInt64]

theorem keyToLua_luaKey (key : MapKey) :
    keyToLua .integer (luaKey key) = keyToLua .integer key := by
  cases key with
  | i64 i =>
    rw [luaKey]
    split
    next sign => exact u64ToLua_of_nonneg sign
    next => rfl
  | _ => rfl

/-- The entries under the keys that `lua_to_value` would have. -/
def rekeyed (w : Value) : List (MapKey × Value) :=
  (tableEntries w).map fun e => (luaKey e.1, e.2)

theorem keys_rekeyed (w : Value) :
    (rekeyed w).map Prod.fst = ((tableEntries w).map Prod.fst).map luaKey := by
  simp [rekeyed, Function.comp_def]

theorem rekeyed_array (items : List Value) :
    rekeyed (.array items) = tableEntries (.array items) := by
  refine (List.map_congr_left fun e member => ?_).trans (List.map_id _)
  obtain ⟨key, x⟩ := e
  obtain ⟨n, -, rfl⟩ := mem_array.mp member
  rfl

theorem build_rekeyed (depth : Nat) {w : Value} {kind : Kind} (isKind : tableKind w = some kind)
    (small : ∀ items, w = .array items → items.length < 2 ^ 63) :
    build .integer (depth + 1) w = build .integer (depth + 1) (.map (rekeyed w)) := by
  rw [build_table depth isKind small, build_table depth (w := .map (rekeyed w)) rfl (by simp)]
  simp only [tableEntries, rekeyed, List.map_map, Function.comp_def, keyToLua_luaKey]

/-! ### Values that look alike to a script -/

/-- `value_to_lua` makes the same of both. -/
inductive Twin : Value → Value → Prop
  | atom {v : Value} (atom : tableKind v = none) : Twin v v
  | unsigned {i : Int64} (sign : 0 ≤ i) : Twin (.i64 i) (.u64 i.toUInt64)
  | bytes (s : String) : Twin (.string s) (.bytes (asBytes s))
  | array {xs ys : List Value} (length : xs.length = ys.length)
      (items : ∀ (n : Nat) x y, xs[n]? = some x → ys[n]? = some y → Twin x y) :
      Twin (.array xs) (.array ys)
  | table {v w : Value} (first : tableKind v ≠ none)
      (second : tableKind w = some .object ∨ tableKind w = some .map)
      (distinct : ((rekeyed w).map Prod.fst).Nodup)
      (keys : ∀ k, k ∈ (tableEntries v).map Prod.fst ↔ k ∈ (rekeyed w).map Prod.fst)
      (values : ∀ k x y, (k, x) ∈ tableEntries v → (k, y) ∈ rekeyed w → Twin x y) : Twin v w

section Twins

variable {v w w' : Value}

/-- The twin of a table has the same entries. -/
theorem Twin.agree (twin : Twin v w) {kind : Kind} (isKind : tableKind v = some kind)
    (small : ∀ items, v = .array items → items.length < 2 ^ 63) :
    (∃ kind', tableKind w = some kind') ∧ (∀ items, w = .array items → items.length < 2 ^ 63) ∧
      ((rekeyed w).map Prod.fst).Nodup ∧ Agree Twin (tableEntries v) (rekeyed w) := by
  cases twin with
  | atom atom => cases isKind.symm.trans atom
  | unsigned sign => cases isKind
  | bytes s => cases isKind
  -- an array is numbered from 1 on both sides
  | @array xs ys length items =>
    have room := small xs rfl
    refine ⟨⟨.array, rfl⟩, ?_, ?_, ?_⟩
    · rintro _ ⟨⟩
      exact length ▸ room
    · rw [rekeyed_array]
      exact (wellFormed_array (length ▸ room)).nodup
    · rw [rekeyed_array]
      refine ⟨fun key => ?_, fun left right => ?_⟩
      · rw [key_array, key_array, length]
      · obtain ⟨n, here, rfl⟩ := mem_array.mp left
        obtain ⟨below, -⟩ := List.getElem?_eq_some_iff.mp here
        have there := (mem_array_index (length ▸ room) (by omega)).mp right
        exact items n _ _ here there
  | table first second distinct keys values =>
    refine ⟨?_, ?_, distinct, keys, values _ _ _⟩
    · exact second.elim (fun object => ⟨_, object⟩) fun map => ⟨_, map⟩
    · rintro items rfl
      rcases second with object | map
      · cases object
      · cases map

/-- The order of the entries does not matter for the keys of a script either. -/
theorem rekeyed_of_same {kind : Kind} (isKind : tableKind w = some kind)
    (small : ∀ items, w = .array items → items.length < 2 ^ 63)
    (distinct : ((rekeyed w).map Prod.fst).Nodup) (same : w.Same w') (hashed : Hashed w') :
    tableKind w' = some kind ∧ (∀ items, w' = .array items → items.length < 2 ^ 63) ∧
      ((rekeyed w').map Prod.fst).Nodup ∧ Agree Value.Same (rekeyed w) (rekeyed w') ∧
      ∀ e ∈ rekeyed w', Hashed e.2 := by
  rw [keys_rekeyed] at distinct
  have good : WellFormed w := ⟨distinct.of_map, small⟩
  obtain ⟨isKind', small', agree⟩ := agree_of_same good isKind same
  obtain ⟨good', hashes⟩ := wellFormed_of_hashed hashed isKind' small'
  -- the keys of `w` stay apart, and `w'` has the same
  have apart : ∀ k ∈ (tableEntries w).map Prod.fst, ∀ k' ∈ (tableEntries w).map Prod.fst,
      luaKey k = luaKey k' → k = k' := fun k member k' member' =>
    List.inj_on_of_nodup_map distinct member member'
  refine ⟨isKind', small', ?_, agree.mapKeysOn apart, fun e member => ?_⟩
  · rw [keys_rekeyed]
    exact good'.nodup.map_on fun k member k' member' =>
      apart k ((agree.keys k).mpr member) k' ((agree.keys k').mpr member')
  · obtain ⟨e, inside, rfl⟩ := List.mem_map.mp member
    exact hashes e inside

end Twins

/-! ### Back to the script -/

section Back

variable {capacity : Nat} {lossy : List UInt8 → String} {v v' w w' : Value}

/-- A value of a script comes back from its twin, whatever the iteration order of the hash maps on
both sides. -/
theorem build_of_twin {t : LuaValue} {n : Nat} (plain : Plain t) (bounded : ¬Oversized capacity n t)
    (ok : luaToValueInner capacity lossy (2 * n) t = .ok v) (same : v.Same v') (twin : Twin v' w)
    (same' : w.Same w') (hashed : Hashed w') (depth : Nat) (deep : n ≤ depth) :
    ∃ u, build .integer depth w' = .ok u ∧ t.Same u := by
  induction n generalizing t v v' w w' depth with
  | zero => cases t <;> cases ok
  | succ n ih =>
    obtain ⟨depth, rfl⟩ : ∃ d, depth = d + 1 := ⟨depth - 1, by omega⟩
    cases plain with
    | nil | boolean | number =>
      cases ok
      cases same
      cases twin with
      | atom _ =>
        cases same'
        exact ⟨_, rfl, .refl _⟩
      | table first _ _ _ _ => exact absurd rfl first
    | integer i =>
      cases ok
      cases same
      cases twin with
      | atom _ =>
        cases same'
        exact ⟨_, rfl, .refl _⟩
      | unsigned sign =>
        cases same'
        refine ⟨_, rfl, ?_⟩
        rw [u64ToLua_of_nonneg sign]
        exact .refl _
      | table first _ _ _ _ => exact absurd rfl first
    | @string bytes utf8 =>
      obtain ⟨s, decoded⟩ := Option.isSome_iff_exists.mp utf8
      cases ok
      cases same
      have back : asBytes (text lossy bytes) = bytes := by
        rw [text, decoded]
        exact asBytes_of_toStr decoded
      cases twin with
      | atom _ | bytes _ =>
        cases same'
        refine ⟨_, rfl, ?_⟩
        rw [back]
        exact .refl _
      | table first _ _ _ _ => exact absurd rfl first
    | @table es distinct keys present values =>
      obtain ⟨good, kind, entries⟩ := table_value (.table distinct keys present values) bounded ok
      obtain ⟨kind', small', agree⟩ := agree_of_same good kind same
      obtain ⟨⟨_, isKind⟩, small, apart, twins⟩ := twin.agree kind' small'
      obtain ⟨isKind', small'', apart', agree', hashes⟩ :=
        rekeyed_of_same isKind small apart same' hashed
      rw [build_rekeyed depth isKind' small'']
      -- from the table that is built back to the one that was written
      have chain := (((agree'.symm (S := fun x' x => x.Same x') fun _ _ => id).trans
        (twins.symm (S := fun x y => Twin y x) fun _ _ => id)).trans
        (agree.symm (S := fun y z => z.Same y) fun _ _ => id)).trans entries
      refine build_of_agree keys rfl (wellFormed_map apart') (chain.mono fun key x' l left _ => ?_)
      rintro ⟨z, ⟨y, ⟨x, equal', alike⟩, equal⟩, converts⟩
      obtain ⟨u, done, back⟩ := ih converts.plain converts.bounded converts.ok equal alike equal'
        (hashes _ left) depth (Nat.le_of_succ_le_succ deep)
      refine ⟨u, done, back, fun nil => converts.present ?_⟩
      rw [nil] at back
      cases back
      rfl

end Back

/-! ### What arrives is a twin -/

section Arrived

open Wrkr.Grpc Wrkr.Grpc.Wire

variable {floats : UInt64 → Prop}

/-- The key of a script comes back from the key that arrives. -/
theorem luaKey_arrivedKey {kind : Grpc.Kind} {key : MapKey} (sendable : SendableKey kind key) :
    luaKey (arrivedKey kind key) = key := by
  cases sendable with
  | bool b => rfl
  | @nonneg _ i number sign =>
    rw [arrivedKey]
    split
    · rw [toInt64_toUInt64, luaKey, if_pos sign]
    · rfl
  | negative signed sign => exact if_neg sign

/-- Entries whose values are twins, under keys that Lua does not tell apart. -/
theorem twin_entries {κ : Type} {entries : List (κ × Value)} (key : κ → MapKey)
    {received : κ × Value → Value} {v w : Value} (first : tableKind v ≠ none)
    (second : tableKind w = some .object ∨ tableKind w = some .map)
    (here : tableEntries v = entries.map fun e => (key e.1, e.2))
    (there : rekeyed w = entries.map fun e => (key e.1, received e))
    (distinct : (entries.map fun e => key e.1).Nodup)
    (each : ∀ e ∈ entries, Twin e.2 (received e)) : Twin v w := by
  refine .table first second ?_ (fun k => ?_) fun k x y left right => ?_
  · simpa [there, Function.comp_def] using distinct
  · simp [here, there]
  · rw [here] at left
    rw [there] at right
    obtain ⟨e, inside, isLeft⟩ := List.mem_map.mp left
    obtain ⟨e', inside', isRight⟩ := List.mem_map.mp right
    cases isLeft
    simp only [Prod.mk.injEq] at isRight
    obtain ⟨same, rfl⟩ := isRight
    cases List.inj_on_of_nodup_map distinct inside' inside same
    exact each e inside

theorem nodup_string_keys {entries : List (String × Value)}
    (distinct : (entries.map Prod.fst).Nodup) : (entries.map fun e => MapKey.string e.1).Nodup := by
  have keys := distinct.map fun _ _ => MapKey.string.inj
  rwa [List.map_map] at keys

theorem twin_list {items : List Value} {received : Value → Value}
    (each : ∀ item ∈ items, Twin item (received item)) :
    Twin (.array items) (.array (items.map received)) := by
  refine .array (by simp) fun n x y left right => ?_
  rw [List.getElem?_map, left] at right
  cases right
  exact each x (List.mem_of_getElem? left)

mutual

/-- What arrives is a twin of what was sent: all kinds of values, by recursion over them. -/
theorem twin_arrived {kind : GrpcValueKind} {v : Value} (sendable : Sendable floats kind v)
    (unique : kind.Unique) : Twin v (arrived kind v) :=
  match sendable with
  | .message distinct each => by
    rw [arrived]
    refine twin_entries MapKey.string (by simp [tableKind]) (.inl rfl) rfl ?_
      (nodup_string_keys distinct) fun e member => twin_named (each e member) unique.1 unique.2
    simp [rekeyed, tableEntries, Function.comp_def, luaKey]
  | .bytes s => .bytes s
  | .uint32 sign | .uint64 sign | .fixed32 sign _ _ | .fixed64 sign => .unsigned sign
  | .bool _ | .string _ | .int32 _ | .int64 _ | .sint32 _ | .sint64 _ | .sfixed32 _ | .sfixed64 _
  | .float _ | .double _ | .enumName _ | .enumNumber _ => .atom rfl

/-- The same of a field. -/
theorem twin_named {fields : List GrpcInputFieldMeta} {name : String} {v : Value}
    (sendable : SendableEntry floats fields name v) (unique : UniqueFields fields)
    (shapes : uniqueShapes fields) : Twin v (arrivedNamed fields name v) :=
  match sendable with
  | .mk declared sendable => by
    have named := arrivedNamed_of_mem unique.names declared v
    rw [GrpcInputFieldMeta.field_mk] at named
    rw [named]
    exact twin_shape sendable (unique_of_mem shapes declared)

/-- And of all shapes of fields. -/
theorem twin_shape {shape : GrpcFieldShape} {v : Value} (sendable : SendableField floats shape v)
    (unique : shape.Unique) : Twin v (arrivedShape shape v) :=
  match sendable with
  | .scalar sendable => by
    rw [arrivedShape]
    exact twin_arrived sendable unique
  | .list _ each => by
    rw [arrivedShape]
    exact twin_list fun item member => twin_arrived (each item member) unique
  | .texts _ distinct values => by
    rw [arrivedShape]
    refine twin_entries MapKey.string (by simp [tableKind]) (.inr rfl) rfl ?_
      (nodup_string_keys distinct) fun e member => twin_arrived (values e member) unique
    simp [rekeyed, tableEntries, Function.comp_def, luaKey]
  | .map _ distinct keys values => by
    rw [arrivedShape]
    refine twin_entries id (by simp [tableKind]) (.inr rfl) (by simp [tableEntries]) ?_
      distinct fun e member => twin_arrived (values e member) unique
    rw [rekeyed, tableEntries, List.map_map]
    refine List.map_congr_left fun e member => ?_
    simp only [Function.comp_apply, luaKey_arrivedKey (keys e member), id]

end

/-- What an echo server answers is the request. A table of a script is converted to a value, and in
whatever order the hash maps of this value are gone through: if it fits the schema it is encoded,
both readers of the other end decode the bytes, and from what they decode, again in whatever order,
`value_to_lua` builds a table equal to the one that the script has written. -/
theorem echo_returns_request {rt : Runtime} (exact : rt.Exact) {fields : List GrpcInputFieldMeta}
    (unique : (GrpcMessageMeta.mk fields).Unique) {capacity : Nat} {lossy : List UInt8 → String}
    {t : LuaValue} (plain : Plain t) (bounded : ¬Oversized capacity 32 t) {v v' : Value}
    (converted : luaToValue capacity lossy t .string = .ok v) (same : v.Same v')
    (sendable : Sendable rt.Wide (.message (.mk fields)) v') :
    ∃ bytes, encodeMessage rt fields v' = .ok bytes ∧ (bytes.length < 2 ^ 64 →
      ∃ w, decodeMessageForMeta rt (.mk fields) bytes = .ok w ∧
        (∀ input, decodeValueForMethod rt (GrpcMethod.new input fields) bytes = .ok w) ∧
        ∀ w', Hashed w' → w.Same w' → ∃ u, valueToLua w' .integer = .ok u ∧ t.Same u) := by
  have message : GrpcValueKind.Unique (.message (.mk fields)) := unique
  have twin := twin_arrived sendable message
  have canonical := (arrives sendable message).canonical
  cases sendable with
  | @message _ entries distinct each =>
    have written := encodeMessage_arrived fun e member =>
      entry_arrives (each e member) unique.1 unique.2
    rw [arrived] at twin canonical
    cases canonical with
    | message distinct' each' =>
      obtain ⟨bytes, encodes, decodes⟩ := message_carried unique.1 distinct' fun e member =>
        entry_carried exact (each' e member) unique.1 unique.2
      refine ⟨bytes, written.trans encodes, fun fits => ?_⟩
      have nested := decodes fits _ (progress_decodeNumbered rt fields)
        (finds_decodeNumbered rt unique.1)
      refine ⟨_, nested, fun input => ?_, fun w' hashed same' => ?_⟩
      · exact decodes fits _ (progress_decodeIndexed rt _) (finds_decodeIndexed rt unique.1 input)
      · exact build_of_twin plain bounded converted same twin same' hashed 64 (by decide)

def pingFields : List GrpcInputFieldMeta :=
  [.mk ⟨"id", 1⟩ (.scalar .uint32), .mk ⟨"note", 2⟩ (.scalar .bytes)]

/-- `{id = 7, note = "a"}`: the number is unsigned on the way, and the note is bytes. -/
theorem echo_returns_request_ping :
    let t : LuaValue := .table [(.string [105, 100], .integer 7),
      (.string [110, 111, 116, 101], .string [97])]
    ∃ bytes w u, encodeMessage ieee pingFields
        (.object [("id", .i64 7), ("note", .string "a")]) = .ok bytes ∧
      decodeMessageForMeta ieee (.mk pingFields) bytes = .ok w ∧
      valueToLua w .integer = .ok u ∧ t.Same u := by
  intro t
  have unique : (GrpcMessageMeta.mk pingFields).Unique :=
    ⟨⟨by decide, by decide, by decide⟩, trivial, trivial, trivial⟩
  have plain : Plain t := by
    refine .table (by simp) ?_ (by simp) ?_
    · simp only [List.forall_mem_cons]
      exact ⟨rfl, rfl, by simp⟩
    · simp only [List.forall_mem_cons]
      exact ⟨.integer 7, .string rfl, by simp⟩
  have bounded : ¬Oversized 1024 32 t := by
    simp [t, Oversized]
  have converted : luaToValue 1024 (fun _ => "") t .string =
      .ok (.object [("id", .i64 7), ("note", .string "a")]) := rfl
  have sendable : Sendable ieee.Wide (.message (.mk pingFields))
      (.object [("id", .i64 7), ("note", .string "a")]) := by
    refine .message (by decide) ?_
    simp only [List.forall_mem_cons]
    exact ⟨@SendableEntry.mk _ pingFields ⟨"id", 1⟩ (.scalar .uint32) _ (by simp [pingFields])
        (.scalar (.uint32 (by decide))),
      @SendableEntry.mk _ pingFields ⟨"note", 2⟩ (.scalar .bytes) _ (by simp [pingFields])
        (.scalar (.bytes "a")), by simp⟩
  obtain ⟨bytes, encoded, decodes⟩ :=
    echo_returns_request ieee_exact unique plain bounded converted (.refl _) sendable
  -- field 1 as a varint, field 2 with a length of one
  have written : encodeMessage ieee pingFields (.object [("id", .i64 7), ("note", .string "a")]) =
      .ok [8, 7, 18, 1, 97] := rfl
  cases encoded.symm.trans written
  obtain ⟨w, decoded, -, back⟩ := decodes (by decide)
  have read : decodeMessageForMeta ieee (.mk pingFields) [8, 7, 18, 1, 97] =
      .ok (.object [("id", .u64 7), ("note", .bytes [97])]) := rfl
  cases decoded.symm.trans read
  have hashed : Hashed (.object [("id", .u64 7), ("note", .bytes [97])]) := by
    refine .object (by decide) ?_
    simp only [List.forall_mem_cons]
    exact ⟨.atom rfl, .atom rfl, by simp⟩
  obtain ⟨u, built, same⟩ := back _ hashed (.refl _)
  exact ⟨_, _, u, written, read, built, same⟩

/-- The keys of a table for a map with integer keys. -/
def IntegerKeys (keyKind : Grpc.Kind) (es : List (LuaValue × LuaValue)) : Prop :=
  ∀ e ∈ es, ∃ i, e.1 = .integer i ∧ (signedKey keyKind ∨ unsignedKey keyKind ∧ 0 ≤ i)

/-- An integer is a key for every kind that has it. -/
theorem sendableKey_of_integer {keyKind : Grpc.Kind} {lossy : List UInt8 → String} {i : Int64}
    {key : MapKey} (found : mapKey lossy (.integer i) = some key)
    (number : signedKey keyKind ∨ unsignedKey keyKind ∧ 0 ≤ i) : SendableKey keyKind key := by
  rw [mapKey] at found
  split at found
  next sign =>
    cases found
    exact .nonneg (number.imp id And.left) sign
  next sign =>
    cases found
    exact .negative (number.resolve_right fun unsigned => sign unsigned.2) sign

/-- A table with integer keys and values that can be sent is taken for a map exactly when one of
the keys is not positive: any other such table is an array, and an array is no map. -/
theorem integer_map_sent_iff {rt : Runtime} (exact : rt.Exact) {field : FieldDescriptor}
    (positive : field.number ≠ 0) {keyKind : Grpc.Kind} {valueKind : GrpcValueKind}
    (unique : valueKind.Unique) {capacity : Nat} {lossy : List UInt8 → String} {n : Nat}
    {es : List (LuaValue × LuaValue)} (plain : Plain (.table es))
    (bounded : ¬Oversized capacity (n + 1) (.table es)) (integers : IntegerKeys keyKind es)
    {v v' : Value} (converted : luaToValueInner capacity lossy (2 * (n + 1)) (.table es) = .ok v)
    (same : v.Same v') (hashed : Hashed v')
    (values : ∀ e ∈ tableEntries v', Sendable rt.Wide valueKind e.2) :
    (∃ bytes, encodeField rt field (.map keyKind valueKind) v' = .ok bytes) ↔
      ∃ e ∈ es, ¬ValueUtil.positive e.1 := by
  obtain ⟨good, kind, entries⟩ := table_value plain bounded converted
  obtain ⟨kind', small, agree⟩ := agree_of_same good kind same
  constructor
  -- with positive keys only the table becomes an array, and a map field takes no array
  · rintro ⟨bytes, encoded⟩
    by_contra none
    simp only [not_exists, not_and, not_not] at none
    have isArray : kindOf es = .array := by rw [kindOf, if_pos (List.all_eq_true.mpr none)]
    rw [isArray] at kind'
    obtain ⟨items, rfl⟩ := array_of_kind kind'
    rw [encodeField, if_neg positive] at encoded
    cases encoded
  · rintro ⟨e, member, low⟩
    have isMap : kindOf es = .map := by
      have notArray : ¬(es.all fun e => ValueUtil.positive e.1) := fun all =>
        low (List.all_eq_true.mp all e member)
      have notObject : ¬(es.all fun e => isString e.1) := by
        intro all
        obtain ⟨i, integer, -⟩ := integers e member
        have text := List.all_eq_true.mp all e member
        rw [integer] at text
        cases text
      rw [kindOf, if_neg notArray, if_neg notObject]
    rw [isMap] at kind'
    obtain ⟨fields, rfl⟩ := map_of_kind kind'
    have supports (key : MapKey) (member : key ∈ fields.map Prod.fst) :
        SendableKey keyKind key := by
      have inside := (entries.keys key).mp ((agree.keys key).mpr member)
      obtain ⟨⟨_, x⟩, stored, rfl⟩ := List.mem_map.mp inside
      obtain ⟨k, entry, found⟩ := mem_supported.mp stored
      obtain ⟨i, rfl, number⟩ := integers _ entry
      exact sendableKey_of_integer found number
    -- the key that is not positive is one that can be kept, so at least its entry is there
    have nonempty : fields ≠ [] := by
      rintro rfl
      cases plain with
      | table _ keys _ _ =>
        obtain ⟨key, found, -⟩ := mapKey_of_plain lossy (keys e member)
        have inside : key ∈ (supported lossy es).map Prod.fst :=
          List.mem_map.mpr ⟨_, mem_supported.mpr ⟨_, member, found⟩, rfl⟩
        have absent := (agree.keys key).mp ((entries.keys key).mpr inside)
        cases absent
    have distinct : (fields.map Prod.fst).Nodup :=
      (wellFormed_of_hashed hashed kind' small).1.nodup
    have sendable : SendableField rt.Wide (.map keyKind valueKind) (.map fields) :=
      .map nonempty distinct (fun e member => supports _ (List.mem_map_of_mem member)) values
    have arrives := field_arrives sendable unique
    obtain ⟨bytes, encoded⟩ := (field_carried exact arrives.canonical positive unique).encodes
    exact ⟨bytes, (arrives.encodes field).trans encoded⟩

/-- `{[0] = true, [1] = true}` is sent as a map, because of its key 0. -/
theorem integer_map_sent_iff_zero :
    ∃ bytes, encodeField ieee ⟨"seen", 1⟩ (.map .int32 .bool)
      (.map [(.u64 1, .bool true), (.u64 0, .bool true)]) = .ok bytes := by
  let es : List (LuaValue × LuaValue) := [(.integer 1, .boolean true), (.integer 0, .boolean true)]
  have plain : Plain (.table es) := by
    refine .table (by simp [es]) ?_ (by simp [es]) ?_
    · simp only [es, List.forall_mem_cons]
      exact ⟨trivial, trivial, by simp⟩
    · simp only [es, List.forall_mem_cons]
      exact ⟨.boolean true, .boolean true, by simp⟩
  have bounded : ¬Oversized 1024 2 (.table es) := by
    simp [es, Oversized]
  have integers : IntegerKeys .int32 es := by
    simp only [IntegerKeys, es, List.forall_mem_cons]
    exact ⟨⟨1, rfl, .inl rfl⟩, ⟨0, rfl, .inl rfl⟩, by simp⟩
  have hashed : Hashed (.map [(.u64 1, .bool true), (.u64 0, .bool true)]) := by
    refine .map (by decide) ?_
    simp only [List.forall_mem_cons]
    exact ⟨.atom rfl, .atom rfl, by simp⟩
  have converted : luaToValueInner 1024 (fun _ => "") (2 * (1 + 1)) (.table es) =
      .ok (.map [(.u64 1, .bool true), (.u64 0, .bool true)]) := rfl
  have unique : GrpcValueKind.Unique .bool := trivial
  refine (integer_map_sent_iff ieee_exact (by decide) unique plain bounded integers converted
    (.refl _) hashed ?_).mpr ⟨(.integer 0, .boolean true), by simp [es], by decide⟩
  simp only [tableEntries, List.forall_mem_cons]
  exact ⟨.bool true, .bool true, by simp⟩

end Arrived

end Wrkr.ValueUtil
