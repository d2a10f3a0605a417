import Wrkr.Http.Estimate
import Wrkr.Lib.OrderedMap

/-!
# The HTTP client

`HttpClient::request` hands a request that could be built to the connection and makes one value of
the answer: the status, the body, the headers by their names in small letters with all values of a
name in one text, and the bytes of both directions. What the connection does is a parameter. A timeout is
in nanoseconds.
-/
namespace Wrkr.Http

open Wrkr.Lib

/-! ### Errors -/

inductive HttpTransportErrorKind
  | invalidUrl
  | unsupportedScheme
  | requestBuild
  | headerName
  | headerValue
  | request
  | timeout
  | bodyRead
  deriving DecidableEq, Repr

def HttpTransportErrorKind.toString : HttpTransportErrorKind → String
  | invalidUrl => "invalid_url"
  | unsupportedScheme => "unsupported_scheme"
  | requestBuild => "request_build"
  | headerName => "header_name"
  | headerValue => "header_value"
  | request => "request"
  | timeout => "timeout"
  | bodyRead => "body_read"

/-- An error before the request is sent, or one of the exchange. -/
inductive ClientError
  | build (e : Error)
  | request (text : String)
  | timeout (limit : Nat)
  | bodyRead (text : String)
  deriving DecidableEq, Repr

/-- How the crates show what an error carries. -/
structure Display where
  requestBuild : String
  headerName : String
  headerValue : String
  duration : Nat → String

namespace ClientError

def transportErrorKind : ClientError → HttpTransportErrorKind
  | build (.invalidUrl _) => .invalidUrl
  | build (.unsupportedScheme _) => .unsupportedScheme
  | build .requestBuild => .requestBuild
  | build .headerName => .headerName
  | build .headerValue => .headerValue
  | request _ => .request
  | timeout _ => .timeout
  | bodyRead _ => .bodyRead

def toString (display : Display) : ClientError → String
  | build (.invalidUrl url) => "invalid url: " ++ url
  | build (.unsupportedScheme url) =>
    "unsupported URL scheme: " ++ url ++ " (only http:// and https:// are supported)"
  | build .requestBuild => "http request build failed: " ++ display.requestBuild
  | build .headerName => "invalid http header name: " ++ display.headerName
  | build .headerValue => "invalid http header value: " ++ display.headerValue
  | request text => "http request failed: " ++ text
  | timeout limit => "http request timed out after " ++ display.duration limit
  | bodyRead text => "failed to read response body: " ++ text

end ClientError

/-! ### Answers -/

inductive Version
  | http10
  | http11
  | http2
  | http3
  | other
  deriving DecidableEq, Repr

def Version.text : Version → String
  | http10 => "HTTP/1.0"
  | http11 => "HTTP/1.1"
  | http2 => "HTTP/2"
  | http3 => "HTTP/3"
  | other => "HTTP/1.1"

/-- What the connection has received; the body is read afterwards. -/
structure Response where
  version : Version
  status : UInt16
  headers : List (String × List UInt8)
  body : Except String (List UInt8)

structure HttpResponse where
  status : UInt16
  body : List UInt8
  headers : List (String × String)
  bytesSent : Nat
  bytesReceived : Nat
  deriving DecidableEq, Repr

/-- What becomes of a request that is sent, and whether the answer takes longer than a limit. -/
structure Connection (Uri : Type) where
  send : Built Uri → Except String Response
  slower : Built Uri → Nat → Bool

structure TimedRequest extends HttpRequest where
  timeout : Option Nat
  deriving DecidableEq, Repr

section Code

variable (toStringLossy : List UInt8 → String)

/-- The values of a name are joined as they come, from the first one that is not empty. -/
def mergeHeader (merged : Std.TreeMap String String) (header : String × List UInt8) :
    Std.TreeMap String String :=
  let v := toStringLossy header.2
  merged.alter header.1.toLower fun
    | some cur => some ((if cur.isEmpty then cur else cur ++ ", ") ++ v)
    | none => some v

def mergeHeaders (headers : List (String × List UInt8)) : Std.TreeMap String String :=
  headers.foldl (mergeHeader toStringLossy) ∅

def estimateHttp1StatusLineBytes (version : Version) (status : UInt16) : Nat :=
  saturatingAdd (saturatingAdd (saturatingAdd version.text.utf8ByteSize 1)
    (toString status).utf8ByteSize) 2

/-- `estimate_http1_header_bytes` on a value that is given by its bytes. -/
def estimateHttp1ValueBytes (name : String) (value : List UInt8) : Nat :=
  saturatingAdd (saturatingAdd (saturatingAdd name.utf8ByteSize 2) value.length) 2

def estimateHttp1ResponseHeadBytes (version : Version) (status : UInt16)
    (headers : List (String × List UInt8)) : Nat :=
  let bytes := saturatingAdd 0 (estimateHttp1StatusLineBytes version status)
  let bytes := headers.foldl
    (fun bytes (name, value) => saturatingAdd bytes (estimateHttp1ValueBytes name value)) bytes
  saturatingAdd bytes 2

variable {Uri : Type} (crates : Crates Uri) (connection : Connection Uri)

/-- The limit is on the wait for the head of the answer. -/
def sendWithin (built : Built Uri) (timeout : Option Nat) : Except ClientError Response :=
  match timeout with
  | some limit =>
    if connection.slower built limit then .error (.timeout limit)
    else (connection.send built).mapError .request
  | none => (connection.send built).mapError .request

def HttpClient.request (req : TimedRequest) : Except ClientError HttpResponse := do
  let (built, bytesSent) ← (Http.request crates req.toHttpRequest).mapError .build
  let res ← sendWithin connection built req.timeout
  let headers := (mergeHeaders toStringLossy res.headers).toList
  let headBytes := estimateHttp1ResponseHeadBytes res.version res.status res.headers
  let body ← res.body.mapError .bodyRead
  return {
    status := res.status, body, headers, bytesSent
    bytesReceived := saturatingAdd headBytes body.length }

end Code

/-! ### Merged headers -/

section Merged

variable (toStringLossy : List UInt8 → String)

/-- The values under a name in small letters, in order. -/
def valuesOf (headers : List (String × List UInt8)) (key : String) : List String :=
  (headers.filter fun header => header.1.toLower = key).map fun header => toStringLossy header.2

/-- The values in one text. Empty values before the first other one leave no trace. -/
def joined : List String → Option String
  | [] => none
  | values => some (", ".intercalate (values.dropWhile String.isEmpty))

theorem joined_concat (values : List String) (v : String) :
    joined (values ++ [v]) = some (match joined values with
      | some cur => (if cur.isEmpty then cur else cur ++ ", ") ++ v
      | none => v) := by
  have nonempty : joined (values ++ [v]) =
      some (", ".intercalate ((values ++ [v]).dropWhile String.isEmpty)) := by
    cases values <;> rfl
  have last : ", ".intercalate ([v].dropWhile String.isEmpty) = v := by
    cases blank : v.isEmpty with
    | true => simp [String.isEmpty_iff.mp blank]
    | false => simp [blank]
  rw [nonempty, List.dropWhile_append]
  cases values with
  | nil => simpa [joined] using last
  | cons first rest =>
    simp only [joined]
    generalize isKept : (first :: rest).dropWhile String.isEmpty = kept
    cases kept with
    | nil => simpa using last
    | cons u us =>
      -- what is left starts with a value that is not empty, and so does the text
      have starts : u.isEmpty = false := by
        have := List.head_dropWhile_not String.isEmpty (l := first :: rest) (by simp [isKept])
        simpa [isKept] using this
      have text : (", ".intercalate (u :: us)).isEmpty = false := by
        cases us with
        | nil => simpa using starts
        | cons w ws =>
          rw [String.intercalate_cons_cons]
          simp
      simp only [text, List.isEmpty_cons, Bool.false_eq_true, ↓reduceIte]
      rw [String.intercalate_append_of_ne_nil (by simp) (by simp), String.intercalate_singleton]

/-- Each name is there once, with all its values in the order in which they came. -/
theorem getElem?_mergeHeaders (headers : List (String × List UInt8)) (key : String) :
    (mergeHeaders toStringLossy headers)[key]? = joined (valuesOf toStringLossy headers key) := by
  induction headers using List.reverseRecOn with
  | nil => rfl
  | append_singleton headers header ih =>
    have split : valuesOf toStringLossy (headers ++ [header]) key =
        valuesOf toStringLossy headers key ++
          if header.1.toLower = key then [toStringLossy header.2] else [] := by
      rw [valuesOf, List.filter_append, List.map_append]
      -- the last header has this name, in whatever case, or another one
      by_cases same : header.1.toLower = key <;> simp [valuesOf, same]
    rw [split, mergeHeaders, List.foldl_append, List.foldl_cons, List.foldl_nil, mergeHeader,
      Std.TreeMap.getElem?_alter]
    by_cases same : header.1.toLower = key
    · rw [if_pos (by simp [same]), if_pos same, joined_concat, ← ih, same]
      rw [mergeHeaders]
      cases (headers.foldl (mergeHeader toStringLossy) ∅)[key]? <;> rfl
    · rw [if_neg (by simpa using same), if_neg same, List.append_nil]
      exact ih

/-- The entries of the merged headers, which are those of the answer. -/
theorem mem_mergeHeaders_iff (headers : List (String × List UInt8)) (key value : String) :
    (key, value) ∈ (mergeHeaders toStringLossy headers).toList ↔
      joined (valuesOf toStringLossy headers key) = some value := by
  rw [Std.TreeMap.mem_toList_iff_getElem?_eq_some, getElem?_mergeHeaders]

end Merged

/-! ### The bytes of both directions -/

def statusLine (version : Version) (status : UInt16) : String :=
  version.text ++ " " ++ toString status ++ "\r\n"

def valueBytes (headers : List (String × List UInt8)) : Nat :=
  (headers.map fun (name, value) => name.utf8ByteSize + value.length + 4).sum

/-- The bytes of an answer with a body, without a reason phrase. -/
def Response.bytes (res : Response) (body : List UInt8) : Nat :=
  (statusLine res.version res.status).utf8ByteSize + valueBytes res.headers + 2 + body.length

theorem headBytes_eq (version : Version) (status : UInt16) (headers : List (String × List UInt8)) :
    estimateHttp1ResponseHeadBytes version status headers =
      cap ((statusLine version status).utf8ByteSize + valueBytes headers + 2) := by
  have line : estimateHttp1StatusLineBytes version status =
      cap (statusLine version status).utf8ByteSize := by
    have blank : " ".utf8ByteSize = 1 := by decide
    have ending : "\r\n".utf8ByteSize = 2 := by decide
    simp only [estimateHttp1StatusLineBytes, statusLine, saturatingAdd_eq, cap_cap_add,
      String.utf8ByteSize_append, blank, ending]
  have value (name : String) (value : List UInt8) : estimateHttp1ValueBytes name value =
      cap (name.utf8ByteSize + value.length + 4) := by
    simp only [estimateHttp1ValueBytes, saturatingAdd_eq, cap_cap_add]
    congr 1
    omega
  -- saturation commutes with the sum, so the cap can be taken once at the end
  have loop (n : Nat) : headers.foldl
      (fun bytes (name, value) => saturatingAdd bytes (estimateHttp1ValueBytes name value)) (cap n) =
        cap (n + valueBytes headers) := by
    induction headers generalizing n with
    | nil => rfl
    | cons header rest ih =>
      simp only [List.foldl_cons, saturatingAdd_eq, value, cap_cap_add, cap_add_cap] at ih ⊢
      rw [ih]
      simp only [valueBytes, List.map_cons, List.sum_cons]
      congr 1
      omega
  have start (n : Nat) : saturatingAdd 0 (cap n) = cap n := by
    rw [saturatingAdd_eq, cap_add_cap, Nat.zero_add]
  rw [estimateHttp1ResponseHeadBytes, line, start, loop, saturatingAdd_eq, cap_cap_add]

variable {Uri : Type} {crates : Crates Uri} {connection : Connection Uri}
  {toStringLossy : List UInt8 → String}

/-- The estimate is for the request that is built. -/
theorem sent_eq {req : HttpRequest} {built : Built Uri} {sent : Nat}
    (reached : Http.request crates req = .ok (built, sent)) : sent = cap (built.bytes crates) := by
  obtain ⟨parsed, uri, user, isUrl, isUri, estimated, given, rfl⟩ := request_spec reached
  rw [estimate_eq isUrl isUri estimated, Built.bytes, headerBytes_append, headerBytes_append,
    headerBytes_attached given]

/-- An answer is that of a request that was built and sent: with its body, each name of a header once
with all values, and the bytes of both directions. -/
theorem HttpClient.request_spec {req : TimedRequest} {res : HttpResponse}
    (answered : HttpClient.request toStringLossy crates connection req = .ok res) :
    ∃ built sent response, Http.request crates req.toHttpRequest = .ok (built, sent) ∧
      sendWithin connection built req.timeout = .ok response ∧ response.body = .ok res.body ∧
      res.status = response.status ∧
      (∀ key value, (key, value) ∈ res.headers ↔
        joined (valuesOf toStringLossy response.headers key) = some value) ∧
      res.bytesSent = cap (built.bytes crates) ∧
      res.bytesReceived = cap (response.bytes res.body) := by
  rw [HttpClient.request] at answered
  cases made : Http.request crates req.toHttpRequest with
  | error e => simp [made, Except.mapError, bind, Except.bind] at answered
  | ok out =>
    obtain ⟨built, sent⟩ := out
    simp only [made, Except.mapError, bind, Except.bind] at answered
    cases exchanged : sendWithin connection built req.timeout with
    | error e => simp [exchanged] at answered
    | ok response =>
      simp only [exchanged] at answered
      -- the body is read after the head, and may fail on its own
      cases isBody : response.body with
      | error text => simp [isBody] at answered
      | ok body =>
        simp only [isBody, pure, Except.pure, Except.ok.injEq] at answered
        subst answered
        refine ⟨built, sent, response, rfl, exchanged, isBody, rfl,
          mem_mergeHeaders_iff toStringLossy response.headers, sent_eq made, ?_⟩
        rw [headBytes_eq, saturatingAdd_eq, cap_cap_add]
        rfl

end Wrkr.Http
