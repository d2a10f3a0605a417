import Wrkr.Http.Client
import Wrkr.Lua.DurationOptions
import Wrkr.Lua.GroupTotals

/-!
# HTTP calls

The functions of `wrkr/http` read the options, resolve the URL, make the body and hand the request
to the client. A call that cannot get so far raises an error; for every other one the script gets a
response and the request metrics get a sample, which says the same (`sample_spec`).
-/
namespace Wrkr.Lua.HttpCalls

open Wrkr.Lib Wrkr.Core Wrkr.Http
open Wrkr.Lua.Http (HttpRequestOptions UrlCrate requestUrl)
open Wrkr.Lua.GrpcInvoke (field)

/-- What a call raises. -/
inductive Raised
  | invalidDuration
  | encode (message : String)
  | invalidMethod
  deriving DecidableEq, Repr

/-- What is outside: the crates, the encoder of JSON and the environment. -/
structure Outside (Url Uri : Type) where
  url : UrlCrate Url
  crates : Crates Uri
  display : Display
  text : CustomMetrics.ToText
  humantime : String → Except String Duration
  encodeToVec : LuaValue → Except String (List UInt8)
  methodFromBytes : List UInt8 → Option String
  envVars : List (String × String)

section Code

variable {Url Uri : Type} (outside : Outside Url Uri)

/-! ### Options -/

/-- Scalars as texts, anything else is no text. -/
def plainText : LuaValue → Option String
  | .string bytes => some (outside.text.toStringLossy bytes)
  | .integer i => some (toString i.toInt)
  | .number n => some (outside.text.displayF64 n)
  | .nil | .boolean _ | .table _ | .other => none

/-- A tag can be a boolean as well. -/
def tagText : LuaValue → Option String
  | .boolean b => some (toString b)
  | v => plainText outside v

/-- The pairs of a table that have a text for a key and a value that is accepted. -/
def textPairs (accept : LuaValue → Option String) : LuaValue → List (String × String)
  | .table entries => entries.filterMap fun (k, v) =>
    match k with
    | .string bytes => (accept v).map (outside.text.toStringLossy bytes, ·)
    | _ => none
  | _ => []

/-- The timeout is read like the durations of a script. -/
def parseHttpOpts :
    Option (List (LuaValue × LuaValue)) → Except (Stop DurationError) HttpRequestOptions
  | none => .ok ⟨[], [], none, [], none⟩
  | some opts => do
    let headers := textPairs outside (plainText outside) (field opts "headers")
    let params := textPairs outside (plainText outside) (field opts "params")
    let timeout ←
      getDuration outside.humantime outside.text.toStringLossy (some (field opts "timeout"))
    let tags := textPairs outside (tagText outside) (field opts "tags")
    let name := plainText outside (field opts "name")
    return ⟨headers, params, timeout.map Duration.nanos, tags, name⟩

/-! ### Requests -/

structure Args where
  method : String
  url : String
  body : Option LuaValue
  opts : Option (List (LuaValue × LuaValue))

/-- A header that the caller has set stays. -/
def withContentType (headers : List (String × String)) (value : String) : List (String × String) :=
  if hasHeader headers "content-type" then headers else headers ++ [("content-type", value)]

/-- The headers and the body: nothing, a string as it is, or any other value as JSON. -/
def requestBody (headers : List (String × String)) :
    Option LuaValue → Except (Stop Raised) (List (String × String) × List UInt8)
  | none | some .nil => .ok (headers, [])
  | some (.string bytes) => .ok (withContentType headers "text/plain; charset=utf-8", bytes)
  | some v =>
    match outside.encodeToVec v with
    | .ok bytes => .ok (withContentType headers "application/json; charset=utf-8", bytes)
    | .error message => .error (.error (.encode message))

/-- `request_impl` up to the client. -/
def prepare (args : Args) : Except (Stop Raised) (HttpRequestOptions × TimedRequest) :=
  match parseHttpOpts outside args.opts with
  | .error .panic => .error .panic
  | .error (.error _) => .error (.error .invalidDuration)
  | .ok opts => do
    let url := requestUrl outside.url outside.envVars args.url opts
    let (headers, body) ← requestBody outside opts.headers args.body
    return (opts, { method := args.method, url, headers, body, timeout := opts.timeout })

/-- A request that is handed to the client, and the connection that it finds. -/
structure Exchange (Uri : Type) where
  opts : HttpRequestOptions
  request : TimedRequest
  connection : Connection Uri

/-- Everything before the connection; errors are raised. -/
def requestImpl (connection : Connection Uri) (args : Args) :
    Except (Stop Raised) (Exchange Uri) :=
  (prepare outside args).map fun (opts, request) => ⟨opts, request, connection⟩

/-- A call of a function of the module, without its options. -/
inductive FunctionCall
  | get (url : String)
  | post (url : String) (body : LuaValue)
  | put (url : String) (body : LuaValue)
  | patch (url : String) (body : LuaValue)
  | delete (url : String)
  | head (url : String)
  | options (url : String)
  | request (method : List UInt8) (url : String) (body : Option LuaValue)

/-- The functions of the module, each with its method and its body. -/
def call (connection : Connection Uri) (opts : Option (List (LuaValue × LuaValue))) :
    FunctionCall → Except (Stop Raised) (Exchange Uri)
  | .get url => requestImpl outside connection ⟨"GET", url, none, opts⟩
  | .post url body => requestImpl outside connection ⟨"POST", url, some body, opts⟩
  | .put url body => requestImpl outside connection ⟨"PUT", url, some body, opts⟩
  | .patch url body => requestImpl outside connection ⟨"PATCH", url, some body, opts⟩
  | .delete url => requestImpl outside connection ⟨"DELETE", url, none, opts⟩
  | .head url => requestImpl outside connection ⟨"HEAD", url, none, opts⟩
  | .options url => requestImpl outside connection ⟨"OPTIONS", url, none, opts⟩
  | .request method url body =>
    match outside.methodFromBytes method with
    | some method => requestImpl outside connection ⟨method, url, body, opts⟩
    | none => .error (.error .invalidMethod)

/-! ### Answers -/

/-- What the script gets; an error has the status 0. -/
structure HttpLuaResponse where
  status : UInt16
  body : String
  headers : List (String × String)
  error : Option String
  deriving DecidableEq, Repr

namespace HttpLuaResponse

/-- A body that is not UTF-8 is shown as empty. -/
def ok (res : HttpResponse) : HttpLuaResponse :=
  ⟨res.status, (ValueUtil.toStr res.body).getD "", res.headers, none⟩

/-- The response to an error of the client. -/
def err (display : Display) (e : ClientError) : HttpLuaResponse :=
  ⟨0, "", [], some (e.toString display)⟩

end HttpLuaResponse

namespace Exchange

variable (exchange : Exchange Uri)

/-- The exchange itself. -/
def res : Except ClientError HttpResponse :=
  HttpClient.request outside.text.toStringLossy outside.crates exchange.connection exchange.request

/-- What the script gets. -/
def response : HttpLuaResponse :=
  match exchange.res outside with
  | .ok res => .ok res
  | .error e => .err outside.display e

/-- What the request metrics get. -/
def outcome : Outcome :=
  match exchange.res outside with
  | .ok res => .ok (UInt64.ofNat res.bytesReceived, UInt64.ofNat res.bytesSent)
  | .error e => .error e.transportErrorKind.toString

/-! ### The bytes on the wire -/

/-- The bytes of the request that was built, if it was answered. -/
def wireSent : Nat :=
  match exchange.res outside, Wrkr.Http.request outside.crates exchange.request.toHttpRequest with
  | .ok _, .ok (built, _) => cap (built.bytes outside.crates)
  | _, _ => 0

/-- The bytes of the answer to the request that was built. -/
def wireReceived : Nat :=
  match exchange.res outside, Wrkr.Http.request outside.crates exchange.request.toHttpRequest with
  | .ok res, .ok (built, _) =>
    match exchange.connection.send built with
    | .ok response => cap (response.bytes res.body)
    | .error _ => 0
  | _, _ => 0

end Exchange

end Code

/-- An answer that is not late is what the connection has sent. -/
theorem send_of_within {Uri : Type} {connection : Connection Uri} {built : Built Uri}
    {timeout : Option Nat} {response : Response}
    (answered : sendWithin connection built timeout = .ok response) :
    connection.send built = .ok response := by
  have sent (done : (connection.send built).mapError ClientError.request = .ok response) :
      connection.send built = .ok response := by
    cases isSent : connection.send built with
    | ok response' =>
      rw [isSent] at done
      cases done
      rfl
    | error text =>
      rw [isSent] at done
      cases done
  cases timeout with
  | none => exact sent answered
  | some limit =>
    unfold sendWithin at answered
    dsimp only at answered
    split at answered
    · cases answered
    · exact sent answered

section Sizes

variable {Url Uri : Type} (outside : Outside Url Uri) (exchange : Exchange Uri)

/-- The sample of an exchange says what was on the wire, and whether the script gets an error. -/
theorem sample_spec (metricsCtx : MetricsContext) (latency : Nat) :
    let sample := requestSample metricsCtx latency (exchange.outcome outside)
    sample.protocol = .http ∧ sample.bytesReceived.toNat = exchange.wireReceived outside ∧
      sample.bytesSent.toNat = exchange.wireSent outside ∧
      (sample.ok = (exchange.response outside).error.isNone) := by
  have small (n : Nat) : (UInt64.ofNat (cap n)).toNat = cap n := by
    rw [UInt64.toNat_ofNat', cap]
    omega
  cases answered : exchange.res outside with
  | error e =>
    simp [Exchange.outcome, Exchange.response, Exchange.wireReceived, Exchange.wireSent, answered,
      requestSample, HttpLuaResponse.err]
  | ok res =>
    obtain ⟨built, sent, response, made, exchanged, isBody, -, -, sentBytes, receivedBytes⟩ :=
      HttpClient.request_spec answered
    have isSent := send_of_within exchanged
    simp [Exchange.outcome, Exchange.response, Exchange.wireReceived, Exchange.wireSent, answered,
      requestSample, HttpLuaResponse.ok, made, isSent, sentBytes, receivedBytes, small]

end Sizes

end Wrkr.Lua.HttpCalls
