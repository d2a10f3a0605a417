import Wrkr.Grpc.Client
import Wrkr.Grpc.Shared
import Wrkr.Grpc.Wire.RoundTrip
import Wrkr.Lua.RequestTags
import Wrkr.Lua.ValueUtil

/-!
# Invocations

`client:invoke` of a script looks up the client and the method, reads the options, encodes the
request and hands it to the client. Each stage has its own answer when it fails, and only what was
handed to the client goes into the request metrics. `client:encode` is the part in the middle; a
string that it has returned can be given to `invoke` in place of the request.
-/
namespace Wrkr.Lua.GrpcInvoke

open Wrkr.Lib Wrkr.Metrics Wrkr.Core Wrkr.Core.Accounting Wrkr.Grpc Wrkr.ValueUtil

/-- An error that `invoke` raises: one of its own, or one of a conversion in `mlua`. -/
inductive LuaError
  | external (message : String)
  | conversion
  deriving DecidableEq, Repr

/-- `FromLua` of a text, which takes numbers as well, and the parser of durations. -/
structure Crates extends CustomMetrics.ToText where
  displayNumber : UInt64 → String
  humantime : String → Except String Duration

/-- The options of a call, with the defaults filled in. -/
structure InvokeLuaOptions where
  tags : List (String × String)
  timeout : Option Duration
  metadata : List (String × String)
  int64Repr : Int64Repr

section Options

variable (crates : Crates)

/-- `t.get(key)`, with nil where there is nothing. -/
def get (t : List (LuaValue × LuaValue)) (key : LuaValue) : LuaValue :=
  ((t.find? fun e => rawEq e.1 key).map Prod.snd).getD .nil

/-- A missing field is nil. -/
def field (t : List (LuaValue × LuaValue)) (name : String) : LuaValue :=
  get t (.string (ValueUtil.asBytes name))

/-- The values at 1, 2, and so on up to the first nil. A table has no more than its entries. -/
def sequenceFrom (t : List (LuaValue × LuaValue)) (i : Nat) : Nat → List LuaValue
  | 0 => []
  | fuel + 1 =>
    match get t (.integer (Int64.ofNat i)) with
    | .nil => []
    | v => v :: sequenceFrom t (i + 1) fuel

/-- The values up to the first nil. -/
def sequenceValues (t : List (LuaValue × LuaValue)) : List LuaValue := sequenceFrom t 1 t.length

/-- `get::<Option<String>>` on what is at the key. -/
def optionalText : LuaValue → Except LuaError (Option String)
  | .nil => .ok none
  | .string bytes =>
    match toStr bytes with
    | some s => .ok (some s)
    | none => .error .conversion
  | .integer i => .ok (some (toString i.toInt))
  | .number n => .ok (some (crates.displayNumber n))
  | .boolean _ | .table _ | .other => .error .conversion

/-- Unlike a custom metric, a call takes any number as the value of a tag. -/
def tagValue : LuaValue → Option String
  | .string bytes => some (crates.toStringLossy bytes)
  | .integer i => some (toString i.toInt)
  | .number n => some (crates.displayF64 n)
  | .boolean b => some (toString b)
  | .nil | .table _ | .other => none

/-- Entries that are no tags are left out. -/
def parseTags (opts : List (LuaValue × LuaValue)) : List (String × String) :=
  match field opts "tags" with
  | .table tags => tags.filterMap fun (k, v) =>
    match k with
    | .string bytes => (tagValue crates v).map (crates.toStringLossy bytes, ·)
    | _ => none
  | _ => []

/-- The texts of one metadata entry: of a string, or of the strings in a sequence. -/
def metadataTexts : LuaValue → List String
  | .string bytes => [crates.toStringLossy bytes]
  | .table t => (sequenceValues t).filterMap fun
    | .string bytes => some (crates.toStringLossy bytes)
    | _ => none
  | _ => []

/-- A key may have one text or a list of them. -/
def parseMetadata (opts : List (LuaValue × LuaValue)) : List (String × String) :=
  match field opts "metadata" with
  | .table metadata => metadata.flatMap fun (k, v) =>
    match k with
    | .string bytes => (metadataTexts crates v).map (crates.toStringLossy bytes, ·)
    | _ => []
  | _ => []

/-- The text goes to the parser of durations, and the error names it. -/
def parseDuration (v : String) : Except LuaError Duration :=
  match crates.humantime v with
  | .ok d => .ok d
  | .error e => .error (.external ("invalid duration '" ++ v ++ "': " ++ e))

/-- Anything but the two names is an error. -/
def parseInt64 : Option String → Except LuaError Int64Repr
  | none => .ok .integer
  | some text =>
    if text = "integer" then .ok .integer
    else if text = "string" then .ok .string
    else .error (.external "grpc invoke opts.int64 must be 'integer' or 'string'")

/-- The fields in the order of the code, as the first error counts. -/
def InvokeLuaOptions.parse :
    Option (List (LuaValue × LuaValue)) → Except LuaError InvokeLuaOptions
  | none => .ok ⟨[], none, [], .integer⟩
  | some opts => do
    let tags := parseTags crates opts
    let timeout ← match ← optionalText crates (field opts "timeout") with
      | some v => (parseDuration crates v).map some
      | none => .ok none
    let metadata := parseMetadata crates opts
    let int64Repr ← parseInt64 (← optionalText crates (field opts "int64"))
    return ⟨tags, timeout, metadata, int64Repr⟩

end Options

/-! ### Results -/

/-- What the script gets. -/
structure InvokeLuaResult where
  ok : Bool
  status : Option UInt16
  message : Option String
  errorKind : Option String
  error : Option String
  response : Option Wrkr.Value

namespace InvokeLuaResult

/-- A failure before or below the call, with its kind. -/
def failed (errorKind error : String) : InvokeLuaResult where
  ok := false
  status := none
  message := none
  errorKind := some errorKind
  error := some error
  response := none

def notConnected : InvokeLuaResult := failed "not_connected" "grpc client: call connect() first"

def invalidMethod : InvokeLuaResult :=
  failed "invalid_method" "grpc client: method name must be utf-8"

def notLoaded : InvokeLuaResult := failed "not_loaded" "grpc client: call load() first"

def encodeError (err : String) : InvokeLuaResult := failed "encode" err

def transportError (kind : GrpcTransportErrorKind) (err : String) : InvokeLuaResult :=
  failed kind.toString err

/-- The fields of the result, with the kind as a text. -/
def fromUnaryResult (res : UnaryResult) : InvokeLuaResult where
  ok := res.ok
  status := res.status
  message := res.message
  errorKind := res.transportErrorKind.map GrpcTransportErrorKind.toString
  error := res.error
  response := some res.response

def textField (name : String) (text : Option String) : List (LuaValue × LuaValue) :=
  (text.map fun s =>
    (LuaValue.string (ValueUtil.asBytes name), LuaValue.string (ValueUtil.asBytes s))).toList

/-- A field that is set to nil is not there. -/
def intoLuaTable (result : InvokeLuaResult) (int64Repr : Int64Repr) : Except Failure LuaValue := do
  let key (name : String) : LuaValue := .string (ValueUtil.asBytes name)
  let status := (result.status.map fun status =>
    (key "status", LuaValue.integer (Int64.ofNat status.toNat))).toList
  let fields := [(key "ok", .boolean result.ok)] ++ status ++ textField "message" result.message ++
    textField "error_kind" result.errorKind ++ textField "error" result.error
  match result.response with
  | none => return .table fields
  | some response =>
    let v ← valueToLua response int64Repr
    return .table (rawSet fields (key "response") v)

end InvokeLuaResult

/-! ### Calls -/

structure Args where
  fullMethod : List UInt8
  req : LuaValue
  opts : Option (List (LuaValue × LuaValue))

/-- What is outside: tonic with the server behind it, the parser of a schema, the crates that the
conversions use, and `f32` and `f64`. -/
structure Outside (Schema π : Type) where
  rt : Wire.Runtime
  tonic : Tonic
  transport : Grpc.Request → Reply
  schemaMethod : Schema → String → Except π GrpcMethod
  crates : Crates
  capacity : Nat

abbrev Client (Schema : Type) := SharedGrpcClient Schema GrpcMethod GrpcClient

/-- A call of `record_request`, but for the latency. -/
structure Recorded where
  ok : Bool
  bytesReceived : UInt64
  bytesSent : UInt64
  errorKind : Option String
  tags : List (String × String)
  deriving DecidableEq, Repr

/-- What a call does and how it ends: by a result, by raising an error or in a panic. -/
structure Effect (Schema : Type) where
  shared : Client Schema
  recorded : Option Recorded
  result : Except (Stop LuaError) (InvokeLuaResult × Int64Repr)

/-- The tags of a call, with those of the scenario and the group. -/
def invokeTags (metricsCtx : MetricsContext) (currentGroup : Option String)
    (tags : List (String × String)) : List (String × String) :=
  let tags := metricsCtx.mergeScenarioTagsIfMissing
    ["scenario", "protocol", "error_kind", "group"] tags
  match currentGroup with
  | some group => if tags.any (·.1 == "group") then tags else tags ++ [("group", group)]
  | none => tags

section Code

variable {Schema π : Type} (outside : Outside Schema π)

/-- The request as bytes. A string is taken to be encoded already. -/
def requestBytes (method : GrpcMethod) : LuaValue → Except (Stop String) Wire.Bytes
  | .string bytes => .ok bytes
  | req =>
    match luaToValue outside.capacity outside.crates.toStringLossy req .string with
    | .error (.error message) => .error (.error ("lua error: " ++ message))
    | .error .panic => .error .panic
    | .ok value =>
      match encodeUnaryRequest outside.rt method value with
      | .ok bytes => .ok bytes
      | .error e => .error (.error e.toString)

/-- From the encoded request on. -/
def send (shared : Client Schema) (client : GrpcClient) (method : GrpcMethod)
    (opts : InvokeLuaOptions) (tags : List (String × String)) (reqBytes : Wire.Bytes) :
    Effect Schema :=
  let (client, res) := client.unaryBytes outside.rt outside.tonic outside.transport method reqBytes
    ⟨opts.timeout, opts.metadata⟩
  let shared := { shared with client := some client }
  match res with
  | .ok res => ⟨shared, some ⟨true, res.bytesReceived, res.bytesSent, none, tags⟩,
      .ok (.fromUnaryResult res, opts.int64Repr)⟩
  | .error (.error err) =>
    let kind := err.transportErrorKind
    ⟨shared, some ⟨false, 0, UInt64.ofNat reqBytes.length, some kind.toString, tags⟩,
      .ok (.transportError kind err.toString, .integer)⟩
  | .error .panic => ⟨shared, none, .error .panic⟩

/-- The stages in order, each with an answer of its own: no connection, no method name, no schema,
no method, the options, the request. -/
def invoke (metricsCtx : MetricsContext) (currentGroup : Option String) (shared : Client Schema)
    (args : Args) : Effect Schema :=
  match shared.client with
  | none => ⟨shared, none, .ok (.notConnected, .integer)⟩
  | some client =>
    match toStr args.fullMethod with
    | none => ⟨shared, none, .ok (.invalidMethod, .integer)⟩
    | some fullMethod =>
      match shared.method (γ := Grpc.Error) outside.schemaMethod fullMethod with
      -- a method that the schema does not have is answered like a schema that is missing
      | (shared, .error _) => ⟨shared, none, .ok (.notLoaded, .integer)⟩
      | (shared, .ok method) =>
        match InvokeLuaOptions.parse outside.crates args.opts with
        | .error e => ⟨shared, none, .error (.error e)⟩
        | .ok opts =>
          let tags := invokeTags metricsCtx currentGroup opts.tags
          match requestBytes outside method args.req with
          | .error (.error err) => ⟨shared, none, .ok (.encodeError err, .integer)⟩
          | .error .panic => ⟨shared, none, .error .panic⟩
          | .ok reqBytes => send outside shared client method opts tags reqBytes

/-- What `encode` returns: the bytes, or nil and a message. -/
def encode (shared : Client Schema) (fullMethod : List UInt8) (req : LuaValue) :
    Client Schema × Except (Stop String) Wire.Bytes :=
  match toStr fullMethod with
  | none => (shared, .error (.error "grpc client: method name must be utf-8"))
  | some fullMethod =>
    match shared.method (γ := Grpc.Error) outside.schemaMethod fullMethod with
    -- whatever the error of `method` is, the message is this one
    | (shared, .error _) => (shared, .error (.error "grpc client: call load() first"))
    | (shared, .ok method) =>
      match luaToValue outside.capacity outside.crates.toStringLossy req .string with
      | .error (.error message) => (shared, .error (.error ("lua error: " ++ message)))
      | .error .panic => (shared, .error .panic)
      | .ok value =>
        match encodeUnaryRequest outside.rt method value with
        | .ok bytes => (shared, .ok bytes)
        | .error e => (shared, .error (.error e.toString))

end Code

/-! ### Answers -/

/-- What a script can tell from its result: the server has sent a status, or the call has failed in
one of the ways that a call can fail in. -/
def InvokeLuaResult.answered (result : InvokeLuaResult) : Bool :=
  result.status.isSome ||
    (GrpcClient.calling.map GrpcTransportErrorKind.toString).any fun kind =>
      result.errorKind = some kind

/-- What is recorded is what the script is told, and nothing else is. -/
structure Effect.Faithful {Schema : Type} (effect : Effect Schema) : Prop where
  recorded : ∀ rec, effect.recorded = some rec → ∃ result int64Repr,
    effect.result = .ok (result, int64Repr) ∧ result.answered = true ∧
      rec.ok = result.status.isSome ∧ rec.errorKind = result.errorKind
  dropped : effect.recorded = none → ∀ result int64Repr,
    effect.result = .ok (result, int64Repr) → result.answered = false

section Answers

variable {Schema π : Type} {outside : Outside Schema π} {shared : Client Schema}

theorem faithful_of_unanswered {result : Except (Stop LuaError) (InvokeLuaResult × Int64Repr)}
    (unanswered : ∀ res int64Repr, result = .ok (res, int64Repr) → res.answered = false) :
    (Effect.mk shared none result).Faithful :=
  ⟨fun rec recorded => (by cases recorded), fun _ => unanswered⟩

/-- The answer of the client is counted as what it is. -/
theorem faithful_send (client : GrpcClient) (method : GrpcMethod) (opts : InvokeLuaOptions)
    (tags : List (String × String)) (reqBytes : Wire.Bytes) :
    (send outside shared client method opts tags reqBytes).Faithful := by
  obtain ⟨answers, fails⟩ := GrpcClient.unaryBytes_spec outside.rt outside.tonic outside.transport
    client method reqBytes ⟨opts.timeout, opts.metadata⟩
  rw [send]
  generalize client.unaryBytes outside.rt outside.tonic outside.transport method reqBytes
    ⟨opts.timeout, opts.metadata⟩ = answer at answers fails
  rcases answer with ⟨client', (panic | err) | res⟩
  -- a panic is no answer
  · exact faithful_of_unanswered fun res int64Repr panics => (by cases panics)
  · refine ⟨fun rec recorded => ?_, fun none => (by cases none)⟩
    cases recorded
    -- an error of the transport has one of the kinds
    have kind := fails err rfl
    refine ⟨_, _, rfl, ?_, rfl, rfl⟩
    rw [InvokeLuaResult.answered, Bool.or_eq_true, List.any_eq_true]
    exact .inr ⟨_, List.mem_map_of_mem kind, decide_eq_true rfl⟩
  · obtain ⟨status, kind, -⟩ := answers res rfl
    refine ⟨fun rec recorded => ?_, fun none => (by cases none)⟩
    cases recorded
    refine ⟨_, _, rfl, ?_, status.symm, ?_⟩
    · rw [InvokeLuaResult.answered, Bool.or_eq_true]
      exact .inl status
    · simp [InvokeLuaResult.fromUnaryResult, kind]

/-- Every stage before the client has an answer of its own, which is not counted. -/
theorem faithful_invoke (metricsCtx : MetricsContext) (currentGroup : Option String)
    (args : Args) : (invoke outside metricsCtx currentGroup shared args).Faithful := by
  have own (s : Client Schema) (result : InvokeLuaResult) (int64Repr : Int64Repr)
      (unanswered : result.answered = false) :
      (Effect.mk s none (.ok (result, int64Repr))).Faithful := by
    refine faithful_of_unanswered fun res int64Repr' same => ?_
    cases same
    exact unanswered
  rw [invoke]
  cases shared.client with
  | none => exact own _ _ _ (by decide)
  | some client =>
    dsimp only
    cases toStr args.fullMethod with
    | none => exact own _ _ _ (by decide)
    | some fullMethod =>
      dsimp only
      rcases shared.method (γ := Grpc.Error) outside.schemaMethod fullMethod with
        ⟨shared', e | method⟩
      · exact own _ _ _ (by decide)
      · dsimp only
        cases InvokeLuaOptions.parse outside.crates args.opts with
        -- options that cannot be read raise an error instead of an answer
        | error e => exact faithful_of_unanswered fun res int64Repr raised => (by cases raised)
        | ok opts =>
          dsimp only
          rcases requestBytes outside method args.req with (panic | err) | reqBytes
          · exact faithful_of_unanswered fun res int64Repr panics => (by cases panics)
          · refine own _ _ _ ?_
            simp [InvokeLuaResult.answered, InvokeLuaResult.encodeError, InvokeLuaResult.failed,
              GrpcClient.calling, GrpcTransportErrorKind.toString]
          · exact faithful_send client method opts _ reqBytes

end Answers

/-! ### Encoded requests -/

/-- What VUs do with the client that they share. -/
inductive Use (Schema π : Type)
  | load (call : LoadCall Schema π)
  | connect (call : ConnectCall GrpcClient Grpc.Error)
  | encode (fullMethod : List UInt8) (req : LuaValue)
  | invoke (transport : Grpc.Request → Reply) (metricsCtx : MetricsContext)
      (currentGroup : Option String) (args : Args)

section Encoded

variable {Schema π : Type} (outside : Outside Schema π)

/-- A use of the client by another call. -/
def Use.apply (shared : Client Schema) : Use Schema π → Client Schema
  | .load call =>
    (shared.load (γ := Grpc.Error) call.includePaths call.protoFile call.compileFromProto).1
  | .connect call => (shared.connect (π := π) call.target call.opts call.connectPooled).1
  | .encode fullMethod req => (Wrkr.Lua.GrpcInvoke.encode outside shared fullMethod req).1
  | .invoke transport metricsCtx currentGroup args =>
    (Wrkr.Lua.GrpcInvoke.invoke { outside with transport } metricsCtx currentGroup shared args).shared

variable {outside} {shared : Client Schema} {name : String} {m : GrpcMethod}

variable (outside shared) in
/-- Encoding a request can only add its method to the cache. -/
theorem encode_shared (fullMethod : List UInt8) (req : LuaValue) :
    (encode outside shared fullMethod req).1 = shared ∨
      ∃ name, (encode outside shared fullMethod req).1 =
        (shared.method (γ := Grpc.Error) outside.schemaMethod name).1 := by
  rw [encode]
  cases toStr fullMethod with
  | none => exact .inl rfl
  | some name =>
    refine .inr ⟨name, ?_⟩
    dsimp only
    rcases shared.method (γ := Grpc.Error) outside.schemaMethod name with ⟨shared', e | method⟩
    · rfl
    · dsimp only
      split
      · rfl
      · rfl
      · split <;> rfl

variable (outside shared) in
/-- Of a schema and its methods an invocation sees and changes no more than a lookup does. -/
theorem invoke_shared (metricsCtx : MetricsContext) (currentGroup : Option String) (args : Args) :
    (invoke outside metricsCtx currentGroup shared args).shared = shared ∨
      ∃ name client, (invoke outside metricsCtx currentGroup shared args).shared =
        { (shared.method (γ := Grpc.Error) outside.schemaMethod name).1 with client } := by
  rw [invoke]
  cases shared.client with
  | none => exact .inl rfl
  | some client =>
    dsimp only
    cases toStr args.fullMethod with
    | none => exact .inl rfl
    | some name =>
      refine .inr ⟨name, ?_⟩
      dsimp only
      rcases shared.method (γ := Grpc.Error) outside.schemaMethod name with ⟨shared', e | method⟩
      · exact ⟨shared'.client, rfl⟩
      · dsimp only
        split
        · exact ⟨shared'.client, rfl⟩
        · split
          · exact ⟨shared'.client, rfl⟩
          · exact ⟨shared'.client, rfl⟩
          · rw [send]
            dsimp only
            split <;> exact ⟨_, rfl⟩

/-- A method of the loaded schema is cached. -/
structure Caches (shared : Client Schema) (name : String) (m : GrpcMethod) : Prop where
  loaded : shared.loadSpec.isSome
  cached : shared.methods.lookup name = some m

theorem Caches.found (caches : Caches shared name m) :
    shared.method (γ := Grpc.Error) outside.schemaMethod name = (shared, .ok m) := by
  rw [SharedGrpcClient.method, caches.cached]

variable (outside) in
/-- Looking up another method, or one that does not exist, leaves it cached. -/
theorem Caches.lookup (caches : Caches shared name m) (other : String) :
    Caches (shared.method (γ := Grpc.Error) outside.schemaMethod other).1 name m := by
  unfold SharedGrpcClient.method
  cases cached : shared.methods.lookup other with
  | some existing => exact caches
  | none =>
    cases shared.schema with
    | none => exact caches
    | some schema =>
      dsimp only
      cases outside.schemaMethod schema other with
      | error e => exact caches
      | ok answer =>
        refine ⟨caches.loaded, ?_⟩
        have differs : name ≠ other := by
          rintro rfl
          exact absurd (cached.symm.trans caches.cached) (by simp)
        -- the new entry stands in front, under another name
        rw [List.lookup_cons, beq_false_of_ne differs]
        exact caches.cached

/-- Nothing that is done with the client drops a cached method. -/
theorem Caches.apply (caches : Caches shared name m) (use : Use Schema π) :
    Caches (use.apply outside shared) name m := by
  cases use with
  | load call =>
    -- a second load is compared with the first and then ignored
    obtain ⟨spec, loaded⟩ := Option.isSome_iff_exists.mp caches.loaded
    simp only [Use.apply, SharedGrpcClient.load, loaded, apply_ite Prod.fst, ite_self]
    exact caches
  | connect call =>
    unfold Use.apply SharedGrpcClient.connect
    cases shared.connectSpec with
    | none => exact ⟨caches.loaded, caches.cached⟩
    | some existing =>
      dsimp only
      split
      · exact caches
      · exact ⟨caches.loaded, caches.cached⟩
  | encode fullMethod req =>
    rcases encode_shared outside shared fullMethod req with same | ⟨other, same⟩
    · rw [Use.apply, same]
      exact caches
    · rw [Use.apply, same]
      exact caches.lookup outside other
  | invoke transport metricsCtx currentGroup args =>
    rcases invoke_shared { outside with transport } shared metricsCtx currentGroup args with
      same | ⟨other, client, same⟩
    · rw [Use.apply, same]
      exact caches
    · rw [Use.apply, same]
      have looked := caches.lookup outside other
      exact ⟨looked.loaded, looked.cached⟩

end Encoded

section Example

/-- A schema in which every method takes a message with one field. -/
def counting : Outside Unit Unit where
  rt := Wire.ieee
  tonic := ⟨some, some, ⟨13, "Missing response message.", "", []⟩⟩
  transport _ := .notReady "connection refused"
  schemaMethod _ _ := .ok (GrpcMethod.new [.mk ⟨"n", 1⟩ (.scalar .int64)] [])
  crates :=
    { toStringLossy := fun bytes => (toStr bytes).getD "", displayF64 := fun _ => ""
      displayNumber := fun _ => "", humantime := fun _ => .error "" }
  capacity := 16

/-- `{ n = 300 }` -/
def threeHundred : LuaValue := .table [(.string [110], .integer 300)]

end Example

end Wrkr.Lua.GrpcInvoke
