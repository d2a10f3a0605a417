import Wrkr.Core.Instants
import Wrkr.Grpc.Wire.Decode
import Wrkr.Grpc.Wire.Encode

/-!
# Unary calls

A `GrpcClient` has a pool of channels and takes them in turn. A call with invalid metadata fails
before it takes a channel. A status other than OK is a result of the call and not an error; an
error is what is left when there is neither a status nor a message that can be decoded.

Of the crate `tonic` it is a parameter which keys and values it accepts as metadata and what a call
comes to whose response has no message.
-/
namespace Wrkr.Grpc

open Wrkr.Lib Wrkr.Core Wire

/-- What can fail before there is a status. -/
inductive GrpcTransportErrorKind
  | invalidEndpoint
  | connect
  | metadataKey
  | metadataValue
  | invalidMethodPath
  | encode
  | decode
  deriving DecidableEq, Repr

def GrpcTransportErrorKind.toString : GrpcTransportErrorKind → String
  | .invalidEndpoint => "invalid_endpoint"
  | .connect => "connect"
  | .metadataKey => "metadata_key"
  | .metadataValue => "metadata_value"
  | .invalidMethodPath => "invalid_method_path"
  | .encode => "encode"
  | .decode => "decode"

/-- The errors of tonic are kept as their text. -/
inductive Error
  | invalidEndpoint (source : String)
  | connect (source : String)
  | metadataKey (key : String)
  | metadataValue (key value : String)
  | invalidMethodPath
  | encode (message : String)
  | decode (message : String)
  deriving DecidableEq, Repr

namespace Error

def transportErrorKind : Error → GrpcTransportErrorKind
  | invalidEndpoint _ => .invalidEndpoint
  | connect _ => .connect
  | metadataKey _ => .metadataKey
  | metadataValue _ _ => .metadataValue
  | invalidMethodPath => .invalidMethodPath
  | encode _ => .encode
  | decode _ => .decode

def toString : Error → String
  | invalidEndpoint source => "invalid endpoint: " ++ source
  | connect source => "failed to connect: " ++ source
  | metadataKey key => "invalid metadata key: " ++ key
  | metadataValue key value => "invalid metadata value for '" ++ key ++ "': " ++ value
  | invalidMethodPath => "invalid gRPC method path"
  | encode message => "failed to encode request: " ++ message
  | decode message => "failed to decode response: " ++ message

end Error

/-- The options of one call. -/
structure InvokeOptions where
  timeout : Option Duration
  metadata : List (String × String)

/-- A `tonic::Status`: `text` is its `to_string`, `metadata` what `metadata_to_pairs` reads. -/
structure Status where
  code : UInt16
  message : String
  text : String
  metadata : List (String × String)
  deriving DecidableEq, Repr

/-- What a call has come to, for the script and for the metrics. -/
structure UnaryResult where
  ok : Bool
  status : Option UInt16
  message : Option String
  error : Option String
  transportErrorKind : Option GrpcTransportErrorKind
  response : Value
  headers : List (String × String)
  trailers : List (String × String)
  bytesSent : UInt64
  bytesReceived : UInt64

/-- `MetadataKey::from_bytes` and `MetadataValue::try_from`, as the text that is kept. -/
structure Tonic where
  metadataKey : String → Option String
  metadataValue : String → Option String
  /-- The response ends, and the decoder has not yielded a message. -/
  missingMessage : Status

/-- What is sent, and on which channel. -/
structure Request where
  channel : Nat
  timeout : Option Duration
  metadata : HashTable String String
  body : Bytes

/-- What comes of a request. The body is that of a gRPC message, without its frame. -/
inductive Reply
  | notReady (source : String)
  | status (status : Status)
  | message (headers : List (String × String)) (body : Bytes)

/-- The channels are numbered. -/
structure GrpcClient where
  channels : Nat
  rr : UInt64
  nonempty : 0 < channels

/-- `BytesDecoder::decode`: a body without bytes counts as no message at all. -/
def BytesDecoder.decode (src : Bytes) : Option Bytes := if src.isEmpty then none else some src

namespace GrpcClient

/-- `connect_pooled`, once the channels are connected. -/
def connectPooled (poolSize : Nat) : GrpcClient := ⟨max poolSize 1, 0, by omega⟩

/-- The request is refused with the first key or value that is not valid; `insert` replaces. -/
def insertMetadata (tonic : Tonic) (table : HashTable String String) :
    List (String × String) → Except Error (HashTable String String)
  | [] => .ok table
  | (k, v) :: rest =>
    match tonic.metadataKey k with
    | none => .error (.metadataKey k)
    | some key =>
      match tonic.metadataValue v with
      | none => .error (.metadataValue k v)
      | some value => insertMetadata tonic (table.insert key value) rest

/-- `self.rr.fetch_add(1)` and the channel for what it returned. -/
def nextChannel (client : GrpcClient) : GrpcClient × Nat :=
  ({ client with rr := client.rr + 1 }, client.rr.toNat % client.channels)

/-- The server, or the library in its place, has answered with a status that is not OK. -/
def ofStatus (bytesSent : UInt64) (status : Status) : UnaryResult where
  ok := false
  status := some status.code
  message := some status.message
  error := some status.text
  transportErrorKind := none
  response := .null
  headers := []
  trailers := status.metadata
  bytesSent
  bytesReceived := 0

/-- The answer could be decoded. -/
def ofMessage (bytesSent : UInt64) (headers : List (String × String)) (body : Bytes)
    (response : Value) : UnaryResult where
  ok := true
  status := some 0
  message := none
  error := none
  transportErrorKind := none
  response
  headers
  trailers := []
  bytesSent
  bytesReceived := UInt64.ofNat body.length

section Code

variable (rt : Runtime) (tonic : Tonic)

/-- The `match` on what `grpc.unary` returned, with the decoder of the codec before it. -/
def received (method : GrpcMethod) (bytesSent : UInt64) : Reply → Except (Stop Error) UnaryResult
  | .notReady source => .error (.error (.connect source))
  | .status status => .ok (ofStatus bytesSent status)
  | .message headers body =>
    match BytesDecoder.decode body with
    | none => .ok (ofStatus bytesSent tonic.missingMessage)
    | some bytes =>
      match decodeValueForMethod rt method bytes with
      | .ok response => .ok (ofMessage bytesSent headers bytes response)
      | .error (.err message) => .error (.error (.decode message))
      | .error .panic | .error .diverge => .error .panic

/-- The metadata is checked first; then the request goes to the next channel, and the reply is read. -/
def unaryInner (transport : Request → Reply) (client : GrpcClient) (method : GrpcMethod)
    (reqBytes : Bytes) (opts : InvokeOptions) : GrpcClient × Except (Stop Error) UnaryResult :=
  let bytesSent := UInt64.ofNat reqBytes.length
  match insertMetadata tonic HashTable.empty opts.metadata with
  | .error e => (client, .error (.error e))
  | .ok metadata =>
    let (client, channel) := client.nextChannel
    (client, received rt tonic method bytesSent
      (transport ⟨channel, opts.timeout, metadata, reqBytes⟩))

/-- A value is encoded first. -/
def unary (transport : Request → Reply) (client : GrpcClient) (method : GrpcMethod) (req : Value)
    (opts : InvokeOptions) : GrpcClient × Except (Stop Error) UnaryResult :=
  match encodeValueForMethod rt method req with
  | .error message => (client, .error (.error (.encode message)))
  | .ok bytes => unaryInner rt tonic transport client method bytes opts

/-- Bytes are sent as they are. -/
def unaryBytes (transport : Request → Reply) (client : GrpcClient) (method : GrpcMethod)
    (reqBytes : Bytes) (opts : InvokeOptions) : GrpcClient × Except (Stop Error) UnaryResult :=
  unaryInner rt tonic transport client method reqBytes opts

end Code

end GrpcClient

/-- `encode_unary_request`. -/
def encodeUnaryRequest (rt : Runtime) (method : GrpcMethod) (value : Value) : Except Error Bytes :=
  (encodeValueForMethod rt method value).mapError .encode

namespace GrpcClient

/-! ### Metadata -/

section Metadata

variable {tonic : Tonic} {table sent : HashTable String String} {metadata : List (String × String)}

/-- The pair as tonic keeps it. -/
def kept (tonic : Tonic) (pair : String × String) : Option (String × String) := do
  let key ← tonic.metadataKey pair.1
  let value ← tonic.metadataValue pair.2
  return (key, value)

/-- Valid metadata is sent with the last value that is given for each key. -/
theorem insertMetadata_ok (inserted : insertMetadata tonic table metadata = .ok sent) :
    ∃ pairs, metadata.mapM (kept tonic) = some pairs ∧
      sent = pairs.foldl (fun table pair => table.insert pair.1 pair.2) table := by
  induction metadata generalizing table with
  | nil =>
    cases inserted
    exact ⟨[], rfl, rfl⟩
  | cons pair rest ih =>
    rw [insertMetadata] at inserted
    cases isKey : tonic.metadataKey pair.1 with
    | none => simp [isKey] at inserted
    | some key =>
      cases isValue : tonic.metadataValue pair.2 with
      | none => simp [isKey, isValue] at inserted
      | some value =>
        simp only [isKey, isValue] at inserted
        obtain ⟨pairs, all, filled⟩ := ih inserted
        exact ⟨(key, value) :: pairs, by simp [List.mapM_cons, all, kept, isKey, isValue], filled⟩

/-- Metadata is refused for a key or for a value, and the error names which. -/
theorem insertMetadata_error {e : Error} (refused : insertMetadata tonic table metadata = .error e) :
    (∃ pair ∈ metadata, tonic.metadataKey pair.1 = none ∧ e = .metadataKey pair.1) ∨
      ∃ pair ∈ metadata, tonic.metadataValue pair.2 = none ∧ e = .metadataValue pair.1 pair.2 := by
  induction metadata generalizing table with
  | nil => cases refused
  | cons pair rest ih =>
    rw [insertMetadata] at refused
    cases isKey : tonic.metadataKey pair.1 with
    | none =>
      simp only [isKey, Except.error.injEq] at refused
      exact .inl ⟨pair, List.mem_cons_self .., isKey, refused.symm⟩
    | some key =>
      cases isValue : tonic.metadataValue pair.2 with
      | none =>
        simp only [isKey, isValue, Except.error.injEq] at refused
        exact .inr ⟨pair, List.mem_cons_self .., isValue, refused.symm⟩
      | some value =>
        simp only [isKey, isValue] at refused
        exact (ih refused).imp
          (fun ⟨p, member, rest⟩ => ⟨p, List.mem_cons_of_mem _ member, rest⟩)
          fun ⟨p, member, rest⟩ => ⟨p, List.mem_cons_of_mem _ member, rest⟩

end Metadata

/-! ### Calls -/

/-- The errors that can be left of a request that is encoded already. -/
def calling : List GrpcTransportErrorKind := [.connect, .metadataKey, .metadataValue, .decode]

section Calls

variable {rt : Runtime} {tonic : Tonic} {transport : Request → Reply} {client : GrpcClient}
  {method : GrpcMethod} {reqBytes : Bytes} {opts : InvokeOptions}

/-- A result has a status, an error is one of the kinds of a call. -/
theorem received_spec {bytesSent : UInt64} {reply : Reply} :
    (∀ res, received rt tonic method bytesSent reply = .ok res →
      res.status.isSome ∧ res.transportErrorKind = none ∧ res.bytesSent = bytesSent) ∧
    ∀ e, received rt tonic method bytesSent reply = .error (.error e) →
      e.transportErrorKind ∈ calling := by
  cases reply with
  | notReady source =>
    refine ⟨fun res failed => (by cases failed), fun e failed => ?_⟩
    cases failed
    simp [Error.transportErrorKind, calling]
  | status status =>
    refine ⟨fun res done => ?_, fun e failed => (by cases failed)⟩
    cases done
    exact ⟨rfl, rfl, rfl⟩
  -- the answer is unpacked and decoded; every failure on the way has its own kind
  | message headers body =>
    rw [received]
    cases BytesDecoder.decode body with
    | none =>
      refine ⟨fun res done => ?_, fun e failed => (by cases failed)⟩
      cases done
      exact ⟨rfl, rfl, rfl⟩
    | some bytes =>
      dsimp only
      cases decodeValueForMethod rt method bytes with
      | ok response =>
        refine ⟨fun res done => ?_, fun e failed => (by cases failed)⟩
        cases done
        exact ⟨rfl, rfl, rfl⟩
      | error failure =>
        cases failure with
        | err message =>
          refine ⟨fun res failed => (by cases failed), fun e failed => ?_⟩
          cases failed
          simp [Error.transportErrorKind, calling]
        | panic => exact ⟨fun res failed => (by cases failed), fun e failed => (by cases failed)⟩
        | diverge => exact ⟨fun res failed => (by cases failed), fun e failed => (by cases failed)⟩

variable (rt tonic transport client method reqBytes opts) in
/-- A result has a status; an error is one that a call can have. -/
theorem unaryBytes_spec :
    (∀ res, (unaryBytes rt tonic transport client method reqBytes opts).2 = .ok res →
      res.status.isSome ∧ res.transportErrorKind = none ∧
        res.bytesSent = UInt64.ofNat reqBytes.length) ∧
    ∀ e, (unaryBytes rt tonic transport client method reqBytes opts).2 = .error (.error e) →
      e.transportErrorKind ∈ calling := by
  rw [unaryBytes, unaryInner]
  cases inserted : insertMetadata tonic HashTable.empty opts.metadata with
  | ok metadata => exact received_spec
  | error e =>
    refine ⟨fun res done => (by cases done), fun e' failed => ?_⟩
    cases failed
    rcases insertMetadata_error inserted with ⟨pair, -, -, rfl⟩ | ⟨pair, -, -, rfl⟩ <;>
      simp [Error.transportErrorKind, calling]

end Calls

end GrpcClient

end Wrkr.Grpc
