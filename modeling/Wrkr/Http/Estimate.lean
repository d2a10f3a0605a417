import Mathlib.Algebra.GroupWithZero.Nat
import Mathlib.Algebra.Order.Group.Nat
import Wrkr.Lib.Text

/-!
# Bytes of an HTTP request

`HttpClient::request` reports as sent what `estimate_http_request_bytes_parts` computes from the
method, the URL, the headers of the caller and the length of the body. The estimate and the code
that builds the request decide separately whether a `Host` and a `Content-Length` are added; here
the estimate is compared with the request that is built.

The parsers of the crates `url` and `http` are parameters. A `u64` is a natural number, with
additions that stop at `2⁶⁴ - 1`.
-/
namespace Wrkr.Http

open Wrkr.Lib

/-- What the code asks a `url::Url` for. -/
structure Url where
  scheme : String
  hostStr : Option String
  port : Option UInt16
  deriving DecidableEq, Repr

/-- The crates. `HeaderName::from_bytes` makes the letters of a name small and keeps its length,
`HeaderValue::from_str` keeps the value as it is. -/
structure Crates (Uri : Type) where
  parseUrl : String → Option Url
  parseUri : String → Option Uri
  pathAndQuery : Uri → Option String
  headerName : String → Option String
  headerValue : String → Option String
  /-- A header map takes no more entries. -/
  full : List (String × String) → Bool
  headerName_size : ∀ k name, headerName k = some name → name.utf8ByteSize = k.utf8ByteSize
  headerValue_same : ∀ v value, headerValue v = some value → value = v

inductive Error
  | invalidUrl (url : String)
  | unsupportedScheme (url : String)
  | requestBuild
  | headerName
  | headerValue
  deriving DecidableEq, Repr

structure HttpRequest where
  method : String
  url : String
  headers : List (String × String)
  body : List UInt8
  deriving DecidableEq, Repr

/-- The request that is handed to the connection. -/
structure Built (Uri : Type) where
  method : String
  uri : Uri
  headers : List (String × String)
  body : List UInt8

def saturatingAdd (a b : Nat) : Nat := min (a + b) (2 ^ 64 - 1)

/-! ### Both sides -/

def hasHeader (headers : List (String × String)) (name : String) : Bool :=
  headers.any fun (k, _) => Text.eqIgnoreAsciiCase k.toList name.toList

def hostHeaderValue (parsed : Url) : Option String :=
  parsed.hostStr.map fun host =>
    match parsed.port with
    | some port => if port ≠ 80 then host ++ ":" ++ toString port else host
    | none => host

section Code

variable {Uri : Type} (crates : Crates Uri)

/-! ### The estimate -/

def estimateHttp1RequestLineBytes (method : String) (uri : Uri) : Nat :=
  let path := (crates.pathAndQuery uri).getD "/"
  -- METHOD SP path SP HTTP/1.1 CRLF
  saturatingAdd (saturatingAdd (saturatingAdd (saturatingAdd (saturatingAdd method.utf8ByteSize 1)
    path.utf8ByteSize) 1) "HTTP/1.1".utf8ByteSize) 2

/-- `name: value` CRLF. -/
def estimateHttp1HeaderBytes (name value : String) : Nat :=
  saturatingAdd (saturatingAdd (saturatingAdd name.utf8ByteSize 2) value.utf8ByteSize) 2

def estimateHttpRequestBytesParts (method url : String) (headers : List (String × String))
    (bodyLen : Nat) : Except Error Nat :=
  match crates.parseUrl url with
  | none => .error (.invalidUrl url)
  | some parsed =>
    if parsed.scheme ≠ "http" ∧ parsed.scheme ≠ "https" then .error (.unsupportedScheme url)
    else
      match crates.parseUri url with
      | none => .error (.invalidUrl url)
      | some uri =>
        let bytes := saturatingAdd 0 (estimateHttp1RequestLineBytes crates method uri)
        let bytes := headers.foldl
          (fun bytes (k, v) => saturatingAdd bytes (estimateHttp1HeaderBytes k v)) bytes
        let bytes :=
          if hasHeader headers "host" then bytes
          else
            match hostHeaderValue parsed with
            | some host => saturatingAdd bytes (estimateHttp1HeaderBytes "host" host)
            | none => bytes
        let bytes :=
          if bodyLen ≠ 0 ∧ hasHeader headers "content-length" = false then
            saturatingAdd bytes (estimateHttp1HeaderBytes "content-length" (toString bodyLen))
          else bytes
        -- the empty line, and the body
        .ok (saturatingAdd (saturatingAdd bytes 2) bodyLen)

/-! ### The request -/

/-- `Builder::header`: an error is kept until the body is given. -/
def builderHeader (builder : Option (List (String × String))) (name : String)
    (value : Option String) : Option (List (String × String)) :=
  match builder, value with
  | some headers, some value =>
    if crates.full headers then none else some (headers ++ [(name, value)])
  | _, _ => none

def userHeaders (builder : Option (List (String × String))) :
    List (String × String) → Except Error (Option (List (String × String)))
  | [] => .ok builder
  | (k, v) :: rest =>
    match crates.headerName k with
    | none => .error .headerName
    | some name =>
      match crates.headerValue v with
      | none => .error .headerValue
      | some value => userHeaders (builderHeader crates builder name (some value)) rest

/-- `HttpClient::request` up to the point of sending: the request and `bytes_sent`. -/
def request (req : HttpRequest) : Except Error (Built Uri × Nat) :=
  match crates.parseUrl req.url with
  | none => .error (.invalidUrl req.url)
  | some parsed =>
    if parsed.scheme ≠ "http" ∧ parsed.scheme ≠ "https" then .error (.unsupportedScheme req.url)
    else do
      -- the estimate comes before the request is built and knows nothing of it
      let bytesSent ←
        estimateHttpRequestBytesParts crates req.method req.url req.headers req.body.length
      match crates.parseUri req.url with
      | none => .error (.invalidUrl req.url)
      | some uri =>
        let builder := some []
        let builder :=
          if hasHeader req.headers "host" then builder
          else
            match hostHeaderValue parsed with
            | some host => builderHeader crates builder "host" (crates.headerValue host)
            | none => builder
        let builder :=
          if req.body ≠ [] ∧ hasHeader req.headers "content-length" = false then
            builderHeader crates builder "content-length" (some (toString req.body.length))
          else builder
        match ← userHeaders crates builder req.headers with
        | none => .error .requestBuild
        | some headers =>
          .ok ({ method := req.method, uri, headers, body := req.body }, bytesSent)

/-! ### What goes over the wire -/

/-- The first line; a URI without path and query asks for the root. -/
def requestLine (method : String) (pathAndQuery : Option String) : String :=
  method ++ " " ++ pathAndQuery.getD "/" ++ " HTTP/1.1\r\n"

def headerBytes (headers : List (String × String)) : Nat :=
  (headers.map fun (name, value) => name.utf8ByteSize + value.utf8ByteSize + 4).sum

/-- The exact number of bytes of a request: first line, headers, empty line and body. -/
def Built.bytes (built : Built Uri) : Nat :=
  (requestLine built.method (crates.pathAndQuery built.uri)).utf8ByteSize +
    headerBytes built.headers + 2 + built.body.length

/-- The headers that nobody asked for. -/
def implicitHeaders (parsed : Url) (headers : List (String × String)) (bodyLen : Nat) :
    List (String × String) :=
  (if hasHeader headers "host" then [] else (hostHeaderValue parsed).toList.map ("host", ·)) ++
    if bodyLen ≠ 0 ∧ hasHeader headers "content-length" = false then
      [("content-length", toString bodyLen)]
    else []

/-- What becomes of a header of the caller. -/
def Attached (given attached : String × String) : Prop :=
  crates.headerName given.1 = some attached.1 ∧ crates.headerValue given.2 = some attached.2

end Code

/-! ### Sums that stop at the largest number -/

def cap (n : Nat) : Nat := min n (2 ^ 64 - 1)

theorem saturatingAdd_eq (a b : Nat) : saturatingAdd a b = cap (a + b) := rfl

@[simp] theorem cap_cap_add (a b : Nat) : cap (cap a + b) = cap (a + b) := by
  unfold cap
  omega

@[simp] theorem cap_add_cap (a b : Nat) : cap (a + cap b) = cap (a + b) := by
  unfold cap
  omega

theorem headerBytes_append (first second : List (String × String)) :
    headerBytes (first ++ second) = headerBytes first + headerBytes second := by
  simp [headerBytes]

variable {Uri : Type} {crates : Crates Uri}

theorem requestLine_bytes (method : String) (uri : Uri) :
    estimateHttp1RequestLineBytes crates method uri =
      cap (requestLine method (crates.pathAndQuery uri)).utf8ByteSize := by
  have version : "HTTP/1.1".utf8ByteSize = 8 := by decide
  have rest : " HTTP/1.1\r\n".utf8ByteSize = 11 := by decide
  have blank : " ".utf8ByteSize = 1 := by decide
  simp only [estimateHttp1RequestLineBytes, requestLine, saturatingAdd_eq, cap_cap_add,
    String.utf8ByteSize_append, version, rest, blank]

theorem header_bytes (name value : String) :
    estimateHttp1HeaderBytes name value =
      cap (name.utf8ByteSize + value.utf8ByteSize + 4) := by
  simp only [estimateHttp1HeaderBytes, saturatingAdd_eq, cap_cap_add]
  congr 1
  omega

theorem headers_bytes (headers : List (String × String)) (n : Nat) :
    headers.foldl (fun bytes (k, v) => saturatingAdd bytes (estimateHttp1HeaderBytes k v)) (cap n) =
      cap (n + headerBytes headers) := by
  induction headers generalizing n with
  | nil => rfl
  | cons header headers ih =>
    simp only [List.foldl_cons, saturatingAdd_eq, header_bytes, cap_cap_add, cap_add_cap] at ih ⊢
    rw [ih]
    simp only [headerBytes, List.map_cons, List.sum_cons]
    congr 1
    omega

theorem add_header_bytes (n : Nat) (name value : String) :
    saturatingAdd (cap n) (estimateHttp1HeaderBytes name value) =
      cap (n + headerBytes [(name, value)]) := by
  rw [header_bytes, saturatingAdd_eq, cap_cap_add, cap_add_cap]
  rfl

theorem host_bytes (parsed : Url) (headers : List (String × String)) (n : Nat) :
    (if hasHeader headers "host" then cap n
      else
        match hostHeaderValue parsed with
        | some host => saturatingAdd (cap n) (estimateHttp1HeaderBytes "host" host)
        | none => cap n) =
      cap (n + headerBytes (if hasHeader headers "host" then []
        else (hostHeaderValue parsed).toList.map ("host", ·))) := by
  cases hasHeader headers "host" with
  | true => rfl
  | false =>
    cases hostHeaderValue parsed with
    | none => rfl
    | some host => exact add_header_bytes n "host" host

theorem length_bytes (headers : List (String × String)) (bodyLen n : Nat) :
    (if bodyLen ≠ 0 ∧ hasHeader headers "content-length" = false then
        saturatingAdd (cap n) (estimateHttp1HeaderBytes "content-length" (toString bodyLen))
      else cap n) =
      cap (n + headerBytes (if bodyLen ≠ 0 ∧ hasHeader headers "content-length" = false then
        [("content-length", toString bodyLen)] else [])) := by
  split
  · exact add_header_bytes n _ _
  · rfl

/-- The estimate is the sum of the same parts, with the implicit headers. -/
theorem estimate_eq {method url : String} {headers : List (String × String)} {bodyLen : Nat}
    {parsed : Url} {uri : Uri} (isUrl : crates.parseUrl url = some parsed)
    (isUri : crates.parseUri url = some uri) {bytes : Nat}
    (estimated : estimateHttpRequestBytesParts crates method url headers bodyLen = .ok bytes) :
    bytes = cap ((requestLine method (crates.pathAndQuery uri)).utf8ByteSize +
      headerBytes (implicitHeaders parsed headers bodyLen ++ headers) + 2 + bodyLen) := by
  unfold estimateHttpRequestBytesParts at estimated
  simp only [isUrl, isUri] at estimated
  split at estimated
  next => cases estimated
  next =>
    -- saturation is one cap on the sum, whatever the order
    have start (n : Nat) : saturatingAdd 0 (cap n) = cap n := by
      rw [saturatingAdd_eq, cap_add_cap, Nat.zero_add]
    rw [requestLine_bytes, start, headers_bytes, host_bytes, length_bytes] at estimated
    simp only [saturatingAdd_eq, cap_cap_add, Except.ok.injEq] at estimated
    rw [← estimated, headerBytes_append, implicitHeaders, headerBytes_append]
    congr 1
    omega

/-! ### The request that is built -/

theorem userHeaders_spec {headers : List (String × String)}
    {builder : Option (List (String × String))} {all : List (String × String)}
    (attached : userHeaders crates builder headers = .ok (some all)) :
    ∃ before user, builder = some before ∧ all = before ++ user ∧
      List.Forall₂ (Attached crates) headers user := by
  induction headers generalizing builder with
  | nil =>
    cases attached
    exact ⟨all, [], rfl, by simp, .nil⟩
  | cons header headers ih =>
    obtain ⟨k, v⟩ := header
    unfold userHeaders at attached
    cases isName : crates.headerName k with
    | none => simp [isName] at attached
    | some name =>
      cases isValue : crates.headerValue v with
      | none => simp [isName, isValue] at attached
      | some value =>
        simp only [isName, isValue] at attached
        obtain ⟨before, user, added, rfl, rest⟩ := ih attached
        -- a builder that has failed stays failed, so the headers before were fine
        unfold builderHeader at added
        split at added
        next earlier value' same =>
          cases same
          split at added
          next => cases added
          next =>
            cases added
            exact ⟨earlier, (name, value) :: user, rfl, by simp, .cons ⟨isName, isValue⟩ rest⟩
        next => cases added

theorem headerBytes_attached {headers user : List (String × String)}
    (attached : List.Forall₂ (Attached crates) headers user) :
    headerBytes user = headerBytes headers := by
  induction attached with
  | nil => rfl
  | cons first _ ih =>
    obtain ⟨isName, isValue⟩ := first
    simp only [headerBytes, List.map_cons, List.sum_cons] at ih ⊢
    rw [ih, crates.headerName_size _ _ isName, crates.headerValue_same _ _ isValue]

/-- An implicit header is added as long as nothing went wrong. -/
theorem builderHeader_spec {builder : Option (List (String × String))} {name : String}
    {value : Option String} {all : List (String × String)}
    (added : builderHeader crates builder name value = some all) :
    ∃ before text, builder = some before ∧ value = some text ∧ all = before ++ [(name, text)] := by
  unfold builderHeader at added
  split at added
  next before text =>
    split at added
    next => cases added
    next =>
      cases added
      exact ⟨before, text, rfl, rfl, rfl⟩
  next => cases added

section Implicit

variable {parsed : Url} {headers : List (String × String)}

theorem host_spec {start : List (String × String)}
    (made : (if hasHeader headers "host" then some []
      else
        match hostHeaderValue parsed with
        | some host => builderHeader crates (some []) "host" (crates.headerValue host)
        | none => some []) = some start) :
    start = if hasHeader headers "host" then []
      else (hostHeaderValue parsed).toList.map ("host", ·) := by
  split at made
  next given =>
    cases made
    rw [if_pos given]
  next given =>
    rw [if_neg given]
    cases isHost : hostHeaderValue parsed with
    | none =>
      rw [isHost] at made
      cases made
      rfl
    | some host =>
      rw [isHost] at made
      obtain ⟨_, text, same, valid, rfl⟩ := builderHeader_spec made
      cases same
      -- a value that is valid is attached as it is
      rw [crates.headerValue_same _ _ valid]
      rfl

theorem contentLength_spec {body : List UInt8} {hosted : Option (List (String × String))}
    {before : List (String × String)}
    (added : (if body ≠ [] ∧ hasHeader headers "content-length" = false then
        builderHeader crates hosted "content-length" (some (toString body.length))
      else hosted) = some before) :
    ∃ start, hosted = some start ∧
      before = start ++ if body.length ≠ 0 ∧ hasHeader headers "content-length" = false then
        [("content-length", toString body.length)]
      else [] := by
  -- the builder asks whether the body is empty, the estimate for its length
  have empty : body ≠ [] ↔ body.length ≠ 0 := not_congr List.length_eq_zero_iff.symm
  split at added
  next long =>
    obtain ⟨start, text, made, same, rfl⟩ := builderHeader_spec added
    cases same
    exact ⟨start, made, by rw [if_pos ⟨empty.mp long.1, long.2⟩]⟩
  next short =>
    have short' : ¬(body.length ≠ 0 ∧ hasHeader headers "content-length" = false) :=
      fun long => short ⟨empty.mpr long.1, long.2⟩
    exact ⟨before, added, by rw [if_neg short', List.append_nil]⟩

end Implicit

/-- A request that gets to be sent has the implicit headers and then those of the caller. -/
theorem request_spec {req : HttpRequest} {built : Built Uri} {sent : Nat}
    (reached : request crates req = .ok (built, sent)) :
    ∃ parsed uri user, crates.parseUrl req.url = some parsed ∧ crates.parseUri req.url = some uri ∧
      estimateHttpRequestBytesParts crates req.method req.url req.headers req.body.length =
        .ok sent ∧
      List.Forall₂ (Attached crates) req.headers user ∧
      built = {
        method := req.method, uri
        headers := implicitHeaders parsed req.headers req.body.length ++ user
        body := req.body } := by
  unfold request at reached
  cases isUrl : crates.parseUrl req.url with
  | none => simp [isUrl] at reached
  | some parsed =>
    simp only [isUrl] at reached
    -- the branches of `request` in their order, each failure ends it
    split at reached
    next => cases reached
    next =>
      cases estimated : estimateHttpRequestBytesParts crates req.method req.url req.headers
          req.body.length with
      | error e => simp [estimated, bind, Except.bind] at reached
      | ok bytes =>
        simp only [estimated, bind, Except.bind] at reached
        cases isUri : crates.parseUri req.url with
        | none => simp [isUri] at reached
        | some uri =>
          simp only [isUri] at reached
          split at reached
          next => cases reached
          next out attached =>
            cases out with
            | none => cases reached
            | some all =>
              cases reached
              obtain ⟨before, user, added, rfl, given⟩ := userHeaders_spec attached
              obtain ⟨start, made, rfl⟩ := contentLength_spec added
              exact ⟨parsed, uri, user, rfl, rfl, rfl, given, by rw [host_spec made]; rfl⟩

/-- For every request that gets to be sent, the bytes reported are those of the request built, up
to the largest number: its first line, every header attached to it (those of the caller and the
implicit ones), the empty line and the body. -/
theorem bytes_sent_eq (crates : Crates Uri) {req : HttpRequest} {built : Built Uri} {sent : Nat}
    (reached : request crates req = .ok (built, sent)) :
    estimateHttpRequestBytesParts crates req.method req.url req.headers req.body.length =
        .ok sent ∧
      (built.bytes crates < 2 ^ 64 → sent = built.bytes crates) ∧
      sent = min (built.bytes crates) (2 ^ 64 - 1) ∧
      built.method = req.method ∧ built.body = req.body ∧
      ∃ parsed user, crates.parseUrl req.url = some parsed ∧
        List.Forall₂ (Attached crates) req.headers user ∧
        built.headers = implicitHeaders parsed req.headers req.body.length ++ user := by
  obtain ⟨parsed, uri, user, isUrl, isUri, estimated, given, rfl⟩ := request_spec reached
  -- header by header the estimate is what the builder attaches
  have total : sent = cap (Built.bytes crates
      { method := req.method, uri
        headers := implicitHeaders parsed req.headers req.body.length ++ user
        body := req.body }) := by
    rw [estimate_eq isUrl isUri estimated, Built.bytes, headerBytes_append, headerBytes_append,
      headerBytes_attached given]
  refine ⟨estimated, fun small => ?_, total, rfl, rfl, parsed, user, isUrl, given, rfl⟩
  rw [total, cap]
  omega

/-- The crates on one URL, with lower-case header names. -/
def postCrates : Crates String where
  parseUrl url :=
    if url = "http://api.test:8080/items?id=1" then
      some { scheme := "http", hostStr := some "api.test", port := some 8080 }
    else none
  parseUri url := if url = "http://api.test:8080/items?id=1" then some "/items?id=1" else none
  pathAndQuery := some
  headerName k := if k.toList.all fun c => c.isLower || c == '-' then some k else none
  headerValue v := if v.toList.all fun c => 32 ≤ c.toNat && c.toNat < 127 then some v else none
  full headers := 32768 ≤ headers.length
  headerName_size k name accepted := by
    split at accepted
    · cases accepted
      rfl
    · cases accepted
  headerValue_same v value accepted := by
    split at accepted
    · cases accepted
      rfl
    · cases accepted

/-- A body of two bytes to a port of its own: both implicit headers are there. -/
theorem bytes_sent_eq_post :
    80 = Built.bytes postCrates
      { method := "POST", uri := "/items?id=1",
        headers := [("host", "api.test:8080"), ("content-length", "2"), ("x-id", "7")],
        body := [1, 2] } :=
  have reached : request postCrates
      { method := "POST", url := "http://api.test:8080/items?id=1", headers := [("x-id", "7")],
        body := [1, 2] } = .ok (_, 80) := rfl
  (bytes_sent_eq postCrates reached).2.1 (by decide)

end Wrkr.Http
