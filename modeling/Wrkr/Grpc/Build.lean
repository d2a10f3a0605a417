import Mathlib.Data.Finset.Card
import Mathlib.Logic.Relation
import Wrkr.Grpc.Proto
import Wrkr.Lib.Outcome

/-!
# Building schemas

`ProtoSchema::method` builds the shapes of the input and of the output message from the descriptors
of the pool. Messages that were built are cached under their full name, and a message that is met
again while it is being built is an error. `unfoldMeta` is the meta of a message without the
cache; where it exists no cycle of messages is reachable (`not_reachesCycle_of_unfolds`), and the
builders return it or have found such a cycle (`buildMessageMeta_outcome`).
-/
namespace Wrkr.Grpc

open Wrkr.Lib

/-! ### Descriptor pools -/

/-- What `prost_reflect::FieldDescriptor` says of a field. -/
structure PoolField where
  descriptor : FieldDescriptor
  kind : Kind
  isMap : Bool
  isList : Bool

/-- A message of the pool with its fields. -/
structure PoolMessage where
  desc : MessageDescriptor
  fields : List PoolField

def fieldsIn (messages : List PoolMessage) (desc : MessageDescriptor) : List PoolField :=
  ((messages.find? fun m => m.desc = desc).map PoolMessage.fields).getD []

/-- The first field of that name. -/
def fieldByNameIn (messages : List PoolMessage) (desc : MessageDescriptor) (name : String) :
    Option PoolField :=
  (fieldsIn messages desc).find? fun f => f.descriptor.name = name

/-- The type of a map field is a message with the fields of an entry. -/
structure DescriptorPool where
  messages : List PoolMessage
  mapEntries : ∀ m ∈ messages, ∀ f ∈ m.fields, f.isMap → ∃ entry key value,
    f.kind = .message entry ∧ fieldByNameIn messages entry "key" = some key ∧
      fieldByNameIn messages entry "value" = some value

namespace DescriptorPool

/-- `MessageDescriptor::fields`. -/
def fields (pool : DescriptorPool) (desc : MessageDescriptor) : List PoolField :=
  fieldsIn pool.messages desc

def getFieldByName (pool : DescriptorPool) (desc : MessageDescriptor) (name : String) :
    Option PoolField :=
  fieldByNameIn pool.messages desc name

end DescriptorPool

/-! ### The builders -/

/-- Why no shape could be built. -/
inductive BuildError
  | invalidDescriptor (message : String)
  /-- No error of the source: the calls of `build_message_meta` are nested deeper than allowed. -/
  | diverge
  deriving DecidableEq, Repr

/-- The error for a type that is met again while it is being built. -/
def recursiveMessage (desc : MessageDescriptor) : BuildError :=
  .invalidDescriptor ("recursive message types are not supported: " ++ desc.fullName)

/-- `message_cache` and `message_in_progress`. -/
structure Memo where
  cache : HashTable String GrpcMessageMeta
  inProgress : Finset String

namespace Memo

def new : Memo := ⟨HashTable.empty, ∅⟩

/-- The type is in progress from here on. -/
def enter (memo : Memo) (desc : MessageDescriptor) : Memo :=
  { memo with inProgress := insert desc.fullName memo.inProgress }

/-- It is done, and its shape is remembered. -/
def leave (memo : Memo) (desc : MessageDescriptor) (msg : GrpcMessageMeta) : Memo where
  cache := memo.cache.insert desc.fullName msg
  inProgress := memo.inProgress.erase desc.fullName

end Memo

/-- The memo is passed along, and lost with an error. -/
abbrev Build := StateT Memo (Except BuildError)

/-- `build_kind`, for any way to build the messages. -/
def buildKind {m : Type → Type} [Monad m] (buildMessage : MessageDescriptor → m GrpcMessageMeta) :
    Kind → m GrpcValueKind
  | .bool => pure .bool
  | .string => pure .string
  | .bytes => pure .bytes
  | .int32 => pure .int32
  | .sint32 => pure .sint32
  | .sfixed32 => pure .sfixed32
  | .int64 => pure .int64
  | .sint64 => pure .sint64
  | .sfixed64 => pure .sfixed64
  | .uint32 => pure .uint32
  | .fixed32 => pure .fixed32
  | .uint64 => pure .uint64
  | .fixed64 => pure .fixed64
  | .float => pure .float
  | .double => pure .double
  | .enum desc => pure (.enum desc)
  | .message desc => do
    let msg ← buildMessage desc
    return .message msg

section Builders

variable (pool : DescriptorPool) (buildMessage : MessageDescriptor → Build GrpcMessageMeta)

/-- A map field has its entry as a message with the fields `key` and `value`; another field that
repeats is a list. -/
def buildShape (f : PoolField) : Build GrpcFieldShape :=
  if f.isMap then
    match f.kind with
    | .message entry =>
      match pool.getFieldByName entry "key" with
      | none => throw (.invalidDescriptor "invalid map entry: missing key")
      | some key =>
        match pool.getFieldByName entry "value" with
        | none => throw (.invalidDescriptor "invalid map entry: missing value")
        | some value => do
          let valueKind ← buildKind buildMessage value.kind
          return .map key.kind valueKind
    | _ => throw (.invalidDescriptor "map field did not have message kind")
  else do
    let kind ← buildKind buildMessage f.kind
    return if f.isList then .list kind else .scalar kind

/-- The loop over the fields of a message. -/
def buildFields : List PoolField → Build (List GrpcInputFieldMeta)
  | [] => pure []
  | f :: rest => do
    let shape ← buildShape pool buildMessage f
    let fields ← buildFields rest
    return .mk f.descriptor shape :: fields

end Builders

/-- At most `depth` calls are nested in one another. -/
def buildMessageMeta (pool : DescriptorPool) : Nat → MessageDescriptor → Build GrpcMessageMeta
  | 0, _ => throw .diverge
  | depth + 1, desc => do
    let memo ← get
    match memo.cache.get? desc.fullName with
    | some existing => return existing
    | none =>
      -- a message that contains itself, directly or through others
      if desc.fullName ∈ memo.inProgress then throw (recursiveMessage desc)
      else do
        set (memo.enter desc)
        let fields ← buildFields pool (buildMessageMeta pool depth) (pool.fields desc)
        let msg := GrpcMessageMeta.mk fields
        -- an error above leaves the name in progress, and the memo is not used again
        modify fun memo => memo.leave desc msg
        return msg

/-- The fields of the input message, then those of the output message. -/
def methodFields (pool : DescriptorPool) (depth : Nat) (input output : MessageDescriptor) :
    Build GrpcMethod := do
  let inputFields ← buildFields pool (buildMessageMeta pool depth) (pool.fields input)
  let outputFields ← buildFields pool (buildMessageMeta pool depth) (pool.fields output)
  return GrpcMethod.new inputFields outputFields

/-- The part of `ProtoSchema::method` from the input and output message on. -/
def buildMethod (pool : DescriptorPool) (depth : Nat) (input output : MessageDescriptor) :
    Except BuildError (GrpcMethod × Memo) :=
  (methodFields pool depth input output).run Memo.new

/-! ### Unfolding without the cache -/

section Unfold

variable (pool : DescriptorPool) (unfold : MessageDescriptor → Option GrpcMessageMeta)

/-- The shape of a field, where that of a message is given by `unfold`. -/
def unfoldShape (f : PoolField) : Option GrpcFieldShape :=
  if f.isMap then
    match f.kind with
    | .message entry => do
      let key ← pool.getFieldByName entry "key"
      let value ← pool.getFieldByName entry "value"
      let valueKind ← buildKind unfold value.kind
      return .map key.kind valueKind
    | _ => none
  else do
    let kind ← buildKind unfold f.kind
    return if f.isList then .list kind else .scalar kind

def unfoldFields (fs : List PoolField) : Option (List GrpcInputFieldMeta) :=
  fs.mapM fun f => (unfoldShape pool unfold f).map (.mk f.descriptor)

end Unfold

/-- The meta of a message whose messages are nested less than `depth` deep. -/
def unfoldMeta (pool : DescriptorPool) : Nat → MessageDescriptor → Option GrpcMessageMeta
  | 0, _ => none
  | depth + 1, desc =>
    (unfoldFields pool (unfoldMeta pool depth) (pool.fields desc)).map GrpcMessageMeta.mk

namespace DescriptorPool

variable (pool : DescriptorPool)

/-- The kind of the values of a field: of a map field, that of the values of its entries. -/
def valueKind (f : PoolField) : Option Kind :=
  if f.isMap then
    match f.kind with
    | .message entry => (pool.getFieldByName entry "value").map PoolField.kind
    | _ => none
  else some f.kind

/-- The first message has a singular, repeated or map field with values of the second. -/
def Refers (a b : MessageDescriptor) : Prop :=
  ∃ f ∈ pool.fields a, pool.valueKind f = some (.message b)

/-- From the message a message can be reached that can be reached again from itself. -/
def ReachesCycle (desc : MessageDescriptor) : Prop :=
  ∃ m, Relation.ReflTransGen pool.Refers desc m ∧ Relation.TransGen pool.Refers m m

def names : Finset String := (pool.messages.map fun m => m.desc.fullName).toFinset

variable {pool}

/-- A field belongs to a message of the pool. -/
theorem exists_of_mem_fields {desc : MessageDescriptor} {f : PoolField}
    (member : f ∈ pool.fields desc) :
    desc.fullName ∈ pool.names ∧ ∃ m ∈ pool.messages, f ∈ m.fields := by
  rw [fields, fieldsIn] at member
  cases found : pool.messages.find? fun m => m.desc = desc with
  | none => simp [found] at member
  | some m =>
    have inPool := List.mem_of_find?_eq_some found
    have isDesc : m.desc = desc := by simpa using List.find?_some found
    rw [found] at member
    refine ⟨?_, m, inPool, member⟩
    rw [names, List.mem_toFinset, List.mem_map]
    exact ⟨m, inPool, by rw [isDesc]⟩

/-- A field of the pool has a kind of values, and its shape is a wrapper around their kind. -/
theorem field_cases {desc : MessageDescriptor} {f : PoolField} (member : f ∈ pool.fields desc) :
    ∃ (kind : Kind) (wrap : GrpcValueKind → GrpcFieldShape), pool.valueKind f = some kind ∧
      (∀ buildMessage, buildShape pool buildMessage f = wrap <$> buildKind buildMessage kind) ∧
      ∀ unfold, unfoldShape pool unfold f = wrap <$> buildKind unfold kind := by
  cases isMap : f.isMap with
  -- wrapped as a list or not at all
  | false =>
    refine ⟨f.kind, fun kind => if f.isList then .list kind else .scalar kind,
      by simp [valueKind, isMap], fun buildMessage => ?_, fun unfold => ?_⟩
    · simp [buildShape, isMap]
    · simp [unfoldShape, isMap, Option.map_eq_bind]
  | true =>
    obtain ⟨-, m, inPool, isField⟩ := exists_of_mem_fields member
    -- the entry of a map is a message of the pool with both fields
    obtain ⟨entry, key, value, isEntry, hasKey, hasValue⟩ := pool.mapEntries m inPool f isField isMap
    have key_eq : pool.getFieldByName entry "key" = some key := hasKey
    have value_eq : pool.getFieldByName entry "value" = some value := hasValue
    refine ⟨value.kind, .map key.kind, by simp [valueKind, isMap, isEntry, value_eq],
      fun buildMessage => ?_, fun unfold => ?_⟩
    · simp [buildShape, isMap, isEntry, key_eq, value_eq]
    · simp [unfoldShape, isMap, isEntry, key_eq, value_eq, Option.map_eq_bind]

end DescriptorPool

section Unfolding

variable {pool : DescriptorPool}

/-- What unfolds goes on to unfold when more does. -/
theorem buildKind_some_mono {unfold unfold' : MessageDescriptor → Option GrpcMessageMeta}
    (mono : ∀ desc msg, unfold desc = some msg → unfold' desc = some msg) {kind : Kind}
    {value : GrpcValueKind} (built : buildKind unfold kind = some value) :
    buildKind unfold' kind = some value := by
  cases kind with
  | message desc =>
    simp only [buildKind, Option.pure_def, Option.bind_eq_bind, Option.bind_eq_some_iff] at built ⊢
    obtain ⟨msg, unfolds, same⟩ := built
    exact ⟨msg, mono desc msg unfolds, same⟩
  | _ => exact built

/-- The fields unfold one by one. -/
theorem unfoldFields_cons {unfold : MessageDescriptor → Option GrpcMessageMeta} {f : PoolField}
    {kind : Kind} {wrap : GrpcValueKind → GrpcFieldShape}
    (shape : unfoldShape pool unfold f = wrap <$> buildKind unfold kind) (rest : List PoolField)
    {metas : List GrpcInputFieldMeta} :
    unfoldFields pool unfold (f :: rest) = some metas ↔
      ∃ value, buildKind unfold kind = some value ∧ ∃ metas',
        unfoldFields pool unfold rest = some metas' ∧
          .mk f.descriptor (wrap value) :: metas' = metas := by
  simp only [unfoldFields, List.mapM_cons, shape, Option.map_eq_map, Option.map_map,
    Option.bind_eq_bind, Option.bind_eq_some_iff, Option.map_eq_some_iff, Option.pure_def,
    Option.some.injEq, Function.comp_apply]
  constructor
  · rintro ⟨_, ⟨value, built, rfl⟩, metas', later, same⟩
    exact ⟨value, built, metas', later, same⟩
  · rintro ⟨value, built, metas', later, same⟩
    exact ⟨_, ⟨value, built, rfl⟩, metas', later, same⟩

/-- The same over all fields of a message. -/
theorem unfoldFields_mono {unfold unfold' : MessageDescriptor → Option GrpcMessageMeta}
    (mono : ∀ desc msg, unfold desc = some msg → unfold' desc = some msg)
    {desc : MessageDescriptor} {fs : List PoolField} (within : fs ⊆ pool.fields desc)
    {metas : List GrpcInputFieldMeta} (unfolds : unfoldFields pool unfold fs = some metas) :
    unfoldFields pool unfold' fs = some metas := by
  induction fs generalizing metas with
  | nil => exact unfolds
  | cons f rest ih =>
    obtain ⟨isField, restWithin⟩ := List.cons_subset.mp within
    obtain ⟨kind, wrap, -, -, shape⟩ := DescriptorPool.field_cases isField
    obtain ⟨value, built, metas', later, same⟩ := (unfoldFields_cons (shape _) rest).mp unfolds
    exact (unfoldFields_cons (shape _) rest).mpr
      ⟨value, buildKind_some_mono mono built, metas', ih restWithin later, same⟩

/-- A depth that is enough stays enough. -/
theorem unfoldMeta_mono {depth depth' : Nat} (le : depth ≤ depth') {desc : MessageDescriptor}
    {msg : GrpcMessageMeta} (unfolds : unfoldMeta pool depth desc = some msg) :
    unfoldMeta pool depth' desc = some msg := by
  induction depth generalizing depth' desc msg with
  | zero => cases unfolds
  | succ depth ih =>
    obtain ⟨depth', rfl⟩ := Nat.exists_eq_add_of_le' (Nat.le_trans (Nat.le_add_left 1 depth) le)
    simp only [unfoldMeta, Option.map_eq_some_iff] at unfolds ⊢
    obtain ⟨metas, fields, same⟩ := unfolds
    exact ⟨metas, unfoldFields_mono (fun _ _ => ih (Nat.le_of_succ_le_succ le))
      (List.Subset.refl _) fields, same⟩

/-- Fields only unfold if the types that they refer to do. -/
theorem isSome_of_unfoldFields {unfold : MessageDescriptor → Option GrpcMessageMeta}
    {desc b : MessageDescriptor} {fs : List PoolField} (within : fs ⊆ pool.fields desc)
    {metas : List GrpcInputFieldMeta} (unfolds : unfoldFields pool unfold fs = some metas)
    {f : PoolField} (isField : f ∈ fs) (isMessage : pool.valueKind f = some (.message b)) :
    (unfold b).isSome := by
  induction fs generalizing metas with
  | nil => cases isField
  | cons first rest ih =>
    obtain ⟨firstWithin, restWithin⟩ := List.cons_subset.mp within
    obtain ⟨kind, wrap, isKind, -, shape⟩ := DescriptorPool.field_cases firstWithin
    obtain ⟨value, built, metas', later, -⟩ := (unfoldFields_cons (shape _) rest).mp unfolds
    rcases List.mem_cons.mp isField with rfl | inRest
    -- the field itself, or one of the rest
    · obtain rfl := Option.some.inj (isKind.symm.trans isMessage)
      simp only [buildKind, Option.pure_def, Option.bind_eq_bind, Option.bind_eq_some_iff] at built
      obtain ⟨msg, unfoldsTo, -⟩ := built
      exact Option.isSome_iff_exists.mpr ⟨msg, unfoldsTo⟩
    · exact ih restWithin later inRest

/-- What a message refers to unfolds in less depth. -/
theorem unfolds_of_refers {depth : Nat} {a b : MessageDescriptor}
    (unfolds : (unfoldMeta pool depth a).isSome) (refers : pool.Refers a b) :
    ∃ depth' < depth, (unfoldMeta pool depth' b).isSome := by
  obtain ⟨f, isField, isKind⟩ := refers
  cases depth with
  -- without depth nothing unfolds, and a message needs one level for itself
  | zero => cases unfolds
  | succ depth =>
    rw [unfoldMeta, Option.isSome_map] at unfolds
    obtain ⟨metas, fields⟩ := Option.isSome_iff_exists.mp unfolds
    exact ⟨depth, Nat.lt_succ_self depth,
      isSome_of_unfoldFields (List.Subset.refl _) fields isField isKind⟩

/-- Along a path of references the depth gets smaller. -/
theorem unfolds_of_transGen {depth : Nat} {a b : MessageDescriptor}
    (unfolds : (unfoldMeta pool depth a).isSome) (path : Relation.TransGen pool.Refers a b) :
    ∃ depth' < depth, (unfoldMeta pool depth' b).isSome := by
  induction path with
  | single refers => exact unfolds_of_refers unfolds refers
  | tail _ refers ih =>
    obtain ⟨depth', less, unfolds'⟩ := ih
    obtain ⟨depth'', less', unfolds''⟩ := unfolds_of_refers unfolds' refers
    exact ⟨depth'', less'.trans less, unfolds''⟩

/-- On a cycle the depth would fall for ever. -/
theorem not_cycle_of_unfolds {depth : Nat} {desc : MessageDescriptor}
    (unfolds : (unfoldMeta pool depth desc).isSome) : ¬Relation.TransGen pool.Refers desc desc := by
  intro cycle
  induction depth using Nat.strong_induction_on with
  | h depth ih =>
    obtain ⟨depth', less, unfolds'⟩ := unfolds_of_transGen unfolds cycle
    exact ih depth' less unfolds'

/-- So no cycle can be reached: it would need a depth below itself. -/
theorem not_reachesCycle_of_unfolds {depth : Nat} {desc : MessageDescriptor}
    (unfolds : (unfoldMeta pool depth desc).isSome) : ¬pool.ReachesCycle desc := by
  rintro ⟨m, path, cycle⟩
  rcases Relation.reflTransGen_iff_eq_or_transGen.mp path with rfl | path
  · exact not_cycle_of_unfolds unfolds cycle
  · obtain ⟨depth', -, unfolds'⟩ := unfolds_of_transGen unfolds path
    exact not_cycle_of_unfolds unfolds' cycle

end Unfolding

/-! ### What the builders return -/

namespace Memo

variable (pool : DescriptorPool)

/-- The cached metas are those of their messages. -/
def Sound (memo : Memo) : Prop :=
  ∀ desc msg, memo.cache.get? desc.fullName = some msg → ∃ depth, unfoldMeta pool depth desc = some msg

variable {pool}

theorem sound_new (pool : DescriptorPool) : new.Sound pool := fun _ _ found => by cases found

/-- What is remembered stays true. -/
theorem Sound.leave {memo : Memo} (sound : memo.Sound pool) {desc : MessageDescriptor}
    {msg : GrpcMessageMeta} (unfolds : ∃ depth, unfoldMeta pool depth desc = some msg) :
    (memo.leave desc msg).Sound pool := by
  intro desc' msg' found
  simp only [Memo.leave, HashTable.get?_insert] at found
  split at found
  -- the new entry is the one message that was just built
  next same =>
    obtain rfl : desc' = desc := by cases desc'; cases desc; exact congrArg _ same
    cases found
    exact unfolds
  next => exact sound desc' msg' found

end Memo

section Outcomes

variable {pool : DescriptorPool}

/-- The memo after a call that returned: nothing is in progress that was not before. -/
def Memo.Returned (pool : DescriptorPool) (inProgress : Finset String) (memo : Memo) : Prop :=
  memo.Sound pool ∧ memo.inProgress = inProgress

/-- The meta is that of the message. -/
def Built (pool : DescriptorPool) (inProgress : Finset String) (desc : MessageDescriptor)
    (msg : GrpcMessageMeta) (memo : Memo) : Prop :=
  (∃ depth, unfoldMeta pool depth desc = some msg) ∧ memo.Returned pool inProgress

/-- A kind that is a message is built, any other one is there. -/
theorem buildKind_outcome {build : MessageDescriptor → Build GrpcMessageMeta}
    {inProgress : Finset String} {kind : Kind} {err : BuildError → Prop} {memo : Memo}
    (returned : memo.Returned pool inProgress)
    (each : ∀ b, kind = .message b → Outcome (build b) memo (Built pool inProgress b) err) :
    Outcome (buildKind build kind) memo
      (fun value memo' => (∃ depth, buildKind (unfoldMeta pool depth) kind = some value) ∧
        memo'.Returned pool inProgress) err := by
  cases kind with
  | message b =>
    refine (each b rfl).bind fun msg memo' ⟨⟨depth, unfolds⟩, returned'⟩ => ?_
    exact .pure ⟨⟨depth, by rw [buildKind, unfolds]; rfl⟩, returned'⟩
  | _ => exact .pure ⟨⟨0, rfl⟩, returned⟩

/-- The fields in turn, by induction: each finds the memo sound and leaves it so. -/
theorem buildFields_outcome {build : MessageDescriptor → Build GrpcMessageMeta}
    {inProgress : Finset String} {desc : MessageDescriptor} {err : BuildError → Prop}
    (each : ∀ b, pool.Refers desc b → ∀ memo, memo.Returned pool inProgress →
      Outcome (build b) memo (Built pool inProgress b) err)
    {fs : List PoolField} (within : fs ⊆ pool.fields desc) {memo : Memo}
    (returned : memo.Returned pool inProgress) :
    Outcome (buildFields pool build fs) memo
      (fun metas memo' => (∃ depth, unfoldFields pool (unfoldMeta pool depth) fs = some metas) ∧
        memo'.Returned pool inProgress) err := by
  induction fs generalizing memo with
  | nil => exact .pure ⟨⟨0, rfl⟩, returned⟩
  | cons f rest ih =>
    obtain ⟨isField, restWithin⟩ := List.cons_subset.mp within
    obtain ⟨kind, wrap, isKind, shape, shape'⟩ := DescriptorPool.field_cases isField
    have first := buildKind_outcome returned fun b isMessage =>
      each b ⟨f, isField, isMessage ▸ isKind⟩ memo returned
    rw [buildFields, shape]
    have shaped : Outcome (wrap <$> buildKind build kind) memo
        (fun shape memo' => (∃ depth value, shape = wrap value ∧
          buildKind (unfoldMeta pool depth) kind = some value) ∧ memo'.Returned pool inProgress)
        err :=
      first.map fun value memo' ⟨⟨depth, built⟩, returned'⟩ =>
        ⟨⟨depth, value, rfl, built⟩, returned'⟩
    refine shaped.bind ?_
    rintro _ memo' ⟨⟨depth, value, rfl, built⟩, returned'⟩
    refine (ih restWithin returned').bind fun metas memo'' ⟨⟨depth', unfolds⟩, returned''⟩ => ?_
    refine .pure ⟨⟨max depth depth', ?_⟩, returned''⟩
    -- both unfold in the larger of the two depths
    have left := buildKind_some_mono (fun _ _ => unfoldMeta_mono (le_max_left depth depth')) built
    have right := unfoldFields_mono (fun _ _ => unfoldMeta_mono (le_max_right depth depth'))
      restWithin unfolds
    exact (unfoldFields_cons (shape' _) rest).mpr ⟨value, left, metas, right, rfl⟩

/-- Why building the message fails: it leads to a cycle, provided that the messages in progress lead
to it, or the nesting is not allowed to be as deep as the messages not in progress require. -/
def Failure (pool : DescriptorPool) (depth : Nat) (inProgress : Finset String)
    (desc : MessageDescriptor) (e : BuildError) : Prop :=
  (∃ m, e = recursiveMessage m) ∧
    ((∀ p : MessageDescriptor, p.fullName ∈ inProgress → Relation.TransGen pool.Refers p desc) →
      pool.ReachesCycle desc) ∨
  e = .diverge ∧ depth ≤ (pool.names \ inProgress).card

/-- A failure in a field is one of the message: a cycle that the field reaches is reached from
here. -/
theorem failure_of_refers {depth : Nat} {inProgress : Finset String} {a b : MessageDescriptor}
    (refers : pool.Refers a b) (new : a.fullName ∉ inProgress) {e : BuildError}
    (failure : Failure pool depth (insert a.fullName inProgress) b e) :
    Failure pool (depth + 1) inProgress a e := by
  rcases failure with ⟨recursive, cycle⟩ | ⟨diverged, deep⟩
  · refine .inl ⟨recursive, fun paths => ?_⟩
    -- what is in progress around the field leads to it, by one step more than to the message
    obtain ⟨m, path, again⟩ := cycle fun p inside => by
      rcases Finset.mem_insert.mp inside with same | before
      · obtain rfl : p = a := by cases p; cases a; exact congrArg _ same
        exact .single refers
      · exact (paths p before).tail refers
    exact ⟨m, path.head refers, again⟩
  · refine .inr ⟨diverged, ?_⟩
    obtain ⟨f, isField, -⟩ := refers
    have isName := (DescriptorPool.exists_of_mem_fields isField).1
    have inside : a.fullName ∈ pool.names \ inProgress := Finset.mem_sdiff.mpr ⟨isName, new⟩
    -- there is one name less that is not in progress
    have fewer := Finset.card_erase_of_mem inside
    have positive := Finset.card_pos.mpr ⟨_, inside⟩
    rw [Finset.sdiff_insert] at deep
    omega

/-- `build_message_meta` returns the meta of the message, or it fails for one of two reasons. -/
theorem buildMessageMeta_outcome (depth : Nat) (desc : MessageDescriptor) {memo : Memo}
    (sound : memo.Sound pool) :
    Outcome (buildMessageMeta pool depth desc) memo (Built pool memo.inProgress desc)
      (Failure pool depth memo.inProgress desc) := by
  induction depth generalizing desc memo with
  | zero => exact .throw (.inr ⟨rfl, Nat.zero_le _⟩)
  | succ depth ih =>
    rw [buildMessageMeta]
    refine .get_bind ?_
    cases cached : memo.cache.get? desc.fullName with
    | some existing => exact .pure ⟨sound desc existing cached, sound, rfl⟩
    | none =>
      by_cases again : desc.fullName ∈ memo.inProgress
      -- the type is met again while it is being built: it refers to itself
      · rw [if_pos again]
        refine .throw (.inl ⟨⟨desc, rfl⟩, fun paths => ?_⟩)
        exact ⟨desc, .refl, paths desc again⟩
      · rw [if_neg again]
        refine .set_bind ?_
        have entered : (memo.enter desc).Returned pool (insert desc.fullName memo.inProgress) :=
          ⟨sound, rfl⟩
        -- the types of the fields are built with this one in progress
        have each (b : MessageDescriptor) (refers : pool.Refers desc b) (memo' : Memo)
            (returned : memo'.Returned pool (insert desc.fullName memo.inProgress)) :
            Outcome (buildMessageMeta pool depth b) memo'
              (Built pool (insert desc.fullName memo.inProgress) b)
              (Failure pool (depth + 1) memo.inProgress desc) := by
          have nested := ih b returned.1
          rw [returned.2] at nested
          exact nested.mono (fun _ _ built => built) fun e => failure_of_refers refers again
        refine (buildFields_outcome each (List.Subset.refl _) entered).bind ?_
        rintro metas memo' ⟨⟨depth', unfolds⟩, sound', inProgress⟩
        have isMeta : unfoldMeta pool (depth' + 1) desc = some (.mk metas) := by
          rw [unfoldMeta, unfolds]
          rfl
        refine .modify_bind (.pure ⟨⟨_, isMeta⟩, sound'.leave ⟨_, isMeta⟩, ?_⟩)
        rw [Memo.leave, inProgress, Finset.erase_insert again]

/-- Building fails for a cycle, or the nesting is not allowed to be as deep as the pool requires. -/
def FieldsFailed (pool : DescriptorPool) (depth : Nat) (cycle : Prop) (e : BuildError) : Prop :=
  (∃ m, e = recursiveMessage m) ∧ cycle ∨ e = .diverge ∧ depth ≤ pool.names.card

theorem FieldsFailed.mono {depth : Nat} {cycle cycle' : Prop} {e : BuildError}
    (failed : FieldsFailed pool depth cycle e) (weaker : cycle → cycle') :
    FieldsFailed pool depth cycle' e :=
  failed.imp (And.imp_right weaker) id

/-- The fields of a message that is not itself in progress. -/
theorem buildFields_top (depth : Nat) (desc : MessageDescriptor) {memo : Memo}
    (returned : memo.Returned pool ∅) :
    Outcome (buildFields pool (buildMessageMeta pool depth) (pool.fields desc)) memo
      (fun metas memo' =>
        (∃ depth, unfoldFields pool (unfoldMeta pool depth) (pool.fields desc) = some metas) ∧
          memo'.Returned pool ∅)
      (FieldsFailed pool depth (pool.ReachesCycle desc)) := by
  refine buildFields_outcome (fun b refers memo' returned' => ?_) (List.Subset.refl _) returned
  have nested := buildMessageMeta_outcome depth b returned'.1
  rw [returned'.2] at nested
  refine nested.mono (fun _ _ built => built) fun e failure => ?_
  rcases failure with ⟨recursive, cycle⟩ | ⟨diverged, deep⟩
  -- nothing is in progress here, so the cycle is one that `desc` reaches
  · obtain ⟨m, path, again⟩ := cycle fun p inside => by cases inside
    exact .inl ⟨recursive, m, path.head refers, again⟩
  · exact .inr ⟨diverged, by rwa [Finset.sdiff_empty] at deep⟩

/-- The field of an output as one of an input. -/
def GrpcOutputFieldMeta.asInput (entry : GrpcOutputFieldMeta) : GrpcInputFieldMeta :=
  .mk entry.field entry.shape

/-- What the method holds is the unfolding of the two messages, in any depth that is enough, and the
index leads from a number to the last field that has it. -/
structure MethodBuilt (pool : DescriptorPool) (input output : MessageDescriptor)
    (method : GrpcMethod) : Prop where
  shapes : ∃ depth, ∀ depth' ≥ depth,
    unfoldFields pool (unfoldMeta pool depth') (pool.fields input) = some method.inputFields ∧
    unfoldFields pool (unfoldMeta pool depth') (pool.fields output) =
      some (method.outputFields.map GrpcOutputFieldMeta.asInput)
  names : ∀ entry ∈ method.outputFields, entry.name = entry.field.name
  index : ∀ number idx, method.outputFieldIndexByNumber.get? number = some idx ↔
    number ≠ 0 ∧ (∃ entry, method.outputFields[idx]? = some entry ∧ entry.field.number = number) ∧
      ∀ later entry, idx < later → method.outputFields[later]? = some entry →
        entry.field.number ≠ number

/-- The method was made of the unfolded fields. -/
def MadeOfUnfolded (pool : DescriptorPool) (input output : MessageDescriptor)
    (method : GrpcMethod) : Prop :=
  ∃ inputFields outputFields depth,
    (∀ depth' ≥ depth,
      unfoldFields pool (unfoldMeta pool depth') (pool.fields input) = some inputFields ∧
      unfoldFields pool (unfoldMeta pool depth') (pool.fields output) = some outputFields) ∧
    method = GrpcMethod.new inputFields outputFields

theorem MadeOfUnfolded.built {input output : MessageDescriptor} {method : GrpcMethod}
    (made : MadeOfUnfolded pool input output method) : MethodBuilt pool input output method := by
  obtain ⟨inputFields, outputFields, depth, unfolds, rfl⟩ := made
  refine ⟨⟨depth, fun depth' le => ?_⟩, fun entry member => ?_, fun number idx => ?_⟩
  · obtain ⟨inputUnfolds, outputUnfolds⟩ := unfolds depth' le
    refine ⟨inputUnfolds, outputUnfolds.trans (congrArg some ?_)⟩
    simp [GrpcMethod.new, GrpcOutputFieldMeta.asInput, Function.comp_def, GrpcInputFieldMeta.eta]
  · obtain ⟨field, -, rfl⟩ := List.mem_map.mp member
    rfl
  · exact get?_indexByNumber _ number idx

/-- The two sides of a method are built one after the other with one memo. -/
theorem methodFields_outcome (pool : DescriptorPool) (depth : Nat)
    (input output : MessageDescriptor) :
    Outcome (methodFields pool depth input output) Memo.new
      (fun method memo => MadeOfUnfolded pool input output method ∧ memo.Returned pool ∅)
      (FieldsFailed pool depth (pool.ReachesCycle input ∨ pool.ReachesCycle output)) := by
  have first := buildFields_top depth input ⟨Memo.sound_new pool, rfl⟩
  refine (first.mono (fun _ _ built => built) fun _ failed => failed.mono .inl).bind ?_
  -- the memo that the input leaves behind is sound for the output
  rintro inputFields memo ⟨⟨depth₁, unfolds₁⟩, returned⟩
  have second := buildFields_top depth output returned
  refine (second.mono (fun _ _ built => built) fun _ failed => failed.mono .inr).bind ?_
  rintro outputFields memo' ⟨⟨depth₂, unfolds₂⟩, returned'⟩
  refine .pure ⟨⟨inputFields, outputFields, max depth₁ depth₂, fun depth' le => ?_, rfl⟩, returned'⟩
  -- the larger depth is enough for both sides
  have le₁ := (le_max_left depth₁ depth₂).trans le
  have le₂ := (le_max_right depth₁ depth₂).trans le
  exact ⟨unfoldFields_mono (fun _ _ => unfoldMeta_mono le₁) (List.Subset.refl _) unfolds₁,
    unfoldFields_mono (fun _ _ => unfoldMeta_mono le₂) (List.Subset.refl _) unfolds₂⟩

theorem not_reachesCycle_of_unfoldFields {depth : Nat} {desc : MessageDescriptor}
    {metas : List GrpcInputFieldMeta}
    (unfolds : unfoldFields pool (unfoldMeta pool depth) (pool.fields desc) = some metas) :
    ¬pool.ReachesCycle desc := by
  have isMeta : (unfoldMeta pool (depth + 1) desc).isSome := by
    rw [unfoldMeta, unfolds]
    rfl
  exact not_reachesCycle_of_unfolds isMeta

end Outcomes

/-! ### Memos in the course of a method -/

/-- The memos with which `build_message_meta` is called: a call marks its message, and a call that
returned leaves what it built. -/
inductive Memo.Reached (pool : DescriptorPool) : Memo → Prop
  | new : Reached pool .new
  | entered {memo : Memo} {desc : MessageDescriptor} (before : Reached pool memo)
      (uncached : memo.cache.get? desc.fullName = none) (new : desc.fullName ∉ memo.inProgress) :
      Reached pool (memo.enter desc)
  | returned {memo memo' : Memo} {depth : Nat} {desc : MessageDescriptor} {msg : GrpcMessageMeta}
      (before : Reached pool memo)
      (built : buildMessageMeta pool depth desc memo = .ok (msg, memo')) : Reached pool memo'

theorem Memo.Reached.sound {pool : DescriptorPool} {memo : Memo} (reached : memo.Reached pool) :
    memo.Sound pool := by
  induction reached with
  | new => exact sound_new pool
  | entered _ _ _ ih => exact ih
  | returned _ built ih => exact ((buildMessageMeta_outcome _ _ ih).of_ok built).2.1

/-- The meta of a message has the fields that its method gets. -/
theorem fields_eq_of_built {pool : DescriptorPool} {input output : MessageDescriptor}
    {method : GrpcMethod} (top : MadeOfUnfolded pool input output method) {msg : GrpcMessageMeta}
    (nested : ∃ depth, unfoldMeta pool depth output = some msg) :
    ∃ inputFields, method = GrpcMethod.new inputFields msg.fields := by
  obtain ⟨inputFields, outputFields, depth, unfolds, rfl⟩ := top
  obtain ⟨depth', isMeta⟩ := nested
  -- both are the unfolding of the message, in any depth that is enough for both
  have later := unfoldMeta_mono (Nat.le_succ_of_le (le_max_right depth depth')) isMeta
  rw [unfoldMeta, (unfolds (max depth depth') (le_max_left depth depth')).2] at later
  obtain rfl := Option.some.inj later
  exact ⟨inputFields, rfl⟩

/-- Building the shapes of a method comes to an end. It fails exactly when a cycle of message types
can be reached, with the error for that; else the method holds the unfolded shapes and nothing is
left in progress. -/
theorem buildMethod_contract (pool : DescriptorPool) (input output : MessageDescriptor)
    (depth : Nat) (enough : pool.messages.length < depth) :
    (∀ e, buildMethod pool depth input output = .error e → ∃ m, e = recursiveMessage m) ∧
    ((∃ m, buildMethod pool depth input output = .error (recursiveMessage m)) ↔
      pool.ReachesCycle input ∨ pool.ReachesCycle output) ∧
    ∀ method memo, buildMethod pool depth input output = .ok (method, memo) →
      MethodBuilt pool input output method ∧ memo.inProgress = ∅ := by
  have outcome := methodFields_outcome pool depth input output
  -- a chain of distinct types is no longer than the pool, so the depth is enough
  have few : pool.names.card ≤ pool.messages.length :=
    (List.toFinset_card_le _).trans_eq (List.length_map _)
  have failed (e : BuildError) (isError : buildMethod pool depth input output = .error e) :
      (∃ m, e = recursiveMessage m) ∧ (pool.ReachesCycle input ∨ pool.ReachesCycle output) := by
    rcases outcome.of_error isError with recursive | ⟨-, deep⟩
    · exact recursive
    · omega
  refine ⟨fun e isError => (failed e isError).1, ⟨?_, fun cycle => ?_⟩, fun method memo isOk => ?_⟩
  · rintro ⟨m, isError⟩
    exact (failed _ isError).2
  · cases result : buildMethod pool depth input output with
    | error e =>
      obtain ⟨m, rfl⟩ := (failed e result).1
      exact ⟨m, rfl⟩
    | ok built =>
      obtain ⟨depth', unfolds⟩ := (outcome.of_ok result).1.built.shapes
      obtain ⟨inputUnfolds, outputUnfolds⟩ := unfolds depth' (le_refl depth')
      rcases cycle with inInput | inOutput
      · exact absurd inInput (not_reachesCycle_of_unfoldFields inputUnfolds)
      · exact absurd inOutput (not_reachesCycle_of_unfoldFields outputUnfolds)
  · obtain ⟨made, returned⟩ := outcome.of_ok isOk
    exact ⟨made.built, returned.2⟩

/-- `message Node { string label = 1; map<string, Node> children = 2; }` and a message that has one;
besides, `message Reply { repeated Item items = 3; int64 count = 1; }` of
`message Item { string name = 1; }`. -/
def treePool : DescriptorPool where
  messages :=
    [⟨⟨"Tree"⟩, [⟨⟨"root", 1⟩, .message ⟨"Node"⟩, false, false⟩]⟩,
      ⟨⟨"Node"⟩, [⟨⟨"label", 1⟩, .string, false, false⟩,
        ⟨⟨"children", 2⟩, .message ⟨"Node.ChildrenEntry"⟩, true, false⟩]⟩,
      ⟨⟨"Node.ChildrenEntry"⟩, [⟨⟨"key", 1⟩, .string, false, false⟩,
        ⟨⟨"value", 2⟩, .message ⟨"Node"⟩, false, false⟩]⟩,
      ⟨⟨"Reply"⟩, [⟨⟨"items", 3⟩, .message ⟨"Item"⟩, false, true⟩,
        ⟨⟨"count", 1⟩, .int64, false, false⟩]⟩,
      ⟨⟨"Item"⟩, [⟨⟨"name", 1⟩, .string, false, false⟩]⟩]
  -- the only map is that of the children, whose entry has both fields
  mapEntries m inPool f isField isMap := by
    simp only [List.mem_cons, List.not_mem_nil, or_false] at inPool
    rcases inPool with rfl | rfl | rfl | rfl | rfl
    · obtain rfl := List.mem_singleton.mp isField
      cases isMap
    · rcases List.mem_pair.mp isField with rfl | rfl
      · cases isMap
      · exact ⟨_, _, _, rfl, rfl, rfl⟩
    · rcases List.mem_pair.mp isField with rfl | rfl <;> cases isMap
    · rcases List.mem_pair.mp isField with rfl | rfl <;> cases isMap
    · obtain rfl := List.mem_singleton.mp isField
      cases isMap

/-- The tree is refused; a method from an item to the reply gets the two fields with the item in
place, and finds the second one under its number. -/
theorem buildMethod_contract_tree :
    (∃ m, buildMethod treePool 6 ⟨"Tree"⟩ ⟨"Tree"⟩ = .error (recursiveMessage m)) ∧
      ∃ method memo, buildMethod treePool 6 ⟨"Item"⟩ ⟨"Reply"⟩ = .ok (method, memo) ∧
        memo.inProgress = ∅ ∧
        method.inputFields = [.mk ⟨"name", 1⟩ (.scalar .string)] ∧
        method.outputFields.map GrpcOutputFieldMeta.asInput =
          [.mk ⟨"items", 3⟩ (.list (.message (.mk [.mk ⟨"name", 1⟩ (.scalar .string)]))),
            .mk ⟨"count", 1⟩ (.scalar .int64)] ∧
        method.outputFieldIndexByNumber.get? 1 = some 1 := by
  refine ⟨?_, ?_⟩
  -- the cycle: a node has nodes as its children
  · have root : treePool.Refers ⟨"Tree"⟩ ⟨"Node"⟩ := ⟨_, List.mem_singleton_self _, rfl⟩
    have children : treePool.Refers ⟨"Node"⟩ ⟨"Node"⟩ :=
      ⟨_, List.mem_cons_of_mem _ (List.mem_singleton_self _), rfl⟩
    exact (buildMethod_contract treePool ⟨"Tree"⟩ ⟨"Tree"⟩ 6 (by decide)).2.1.mpr
      (.inl ⟨⟨"Node"⟩, .single root, .single children⟩)
  · have isOk : ∃ method memo, buildMethod treePool 6 ⟨"Item"⟩ ⟨"Reply"⟩ = .ok (method, memo) :=
      ⟨_, _, rfl⟩
    obtain ⟨method, memo, isOk⟩ := isOk
    obtain ⟨built, returned⟩ :=
      (buildMethod_contract treePool ⟨"Item"⟩ ⟨"Reply"⟩ 6 (by decide)).2.2 method memo isOk
    obtain ⟨depth, unfolds⟩ := built.shapes
    obtain ⟨inputUnfolds, outputUnfolds⟩ :=
      unfolds (depth + 2) (Nat.le_add_right depth 2)
    have isInput := Option.some.inj inputUnfolds
    have isOutput := Option.some.inj outputUnfolds
    refine ⟨method, memo, isOk, returned, isInput.symm, isOutput.symm, ?_⟩
    cases isOk
    refine (built.index 1 1).mpr ⟨by decide, ⟨_, rfl, rfl⟩, ?_⟩
    intro later entry after found
    have low := (List.getElem?_eq_some_iff.mp found).1
    exact absurd low (Nat.not_lt.mpr after)

end Wrkr.Grpc
