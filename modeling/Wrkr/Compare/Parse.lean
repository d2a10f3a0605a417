import Wrkr.Lib.Json
import Wrkr.Lib.PyText

/-!
# The reader of the JSON output

`try_parse_wrkr_json_summary` of the comparison tool takes the last progress line for the rates and
the last summary line for the totals and the latencies. Each of the two is read under the schema of
the JSON output or, without that schema, under older names. The limits of Python on the depth of a
text and on the digits of an integer are left out.
-/
namespace Wrkr.Compare

open Wrkr.Lib

variable {F : Type}

/-- What the reader needs of `float`. -/
structure PyFloat (F : Type) where
  /-- The float that is written as a number of a JSON text. -/
  read : List Char → F
  /-- `float(n)`, unless it overflows. -/
  ofInt : Int → Option F
  /-- `int(x)`, if `x.is_integer()`. -/
  whole : F → Option Int
  /-- `x > 0.0` -/
  positive : F → Bool
  /-- `x < 0.0` -/
  negative : F → Bool
  /-- `not x` -/
  isZero : F → Bool
  zero : F
  div : F → F → F
  thousand : F
  million : F
  repr : F → String

inductive Failure
  | parseError (message : String)
  | overflowError
  deriving DecidableEq, Repr

/-! ### Access to objects -/

/-- `dict.get`; of the fields with one name the last one is in the dictionary. -/
def get : List (String × Json F) → String → Option (Json F)
  | [], _ => none
  | (k, v) :: rest, key => (get rest key).or (if k = key then some v else none)

/-- `type(v).__name__` -/
def typeName : Json F → String
  | .null => "NoneType"
  | .bool _ => "bool"
  | .int _ => "int"
  | .float _ => "float"
  | .string _ => "str"
  | .array _ => "list"
  | .object _ => "dict"

/-- `obj.get(key) == s` -/
def isString (obj : List (String × Json F)) (key s : String) : Bool :=
  match get obj key with
  | some (.string t) => t == s
  | _ => false

/-- `obj.get(key) is None` -/
def isNone (obj : List (String × Json F)) (key : String) : Bool :=
  match get obj key with
  | none | some .null => true
  | _ => false

def hasKey (obj : List (String × Json F)) (key : String) : Bool := (get obj key).isSome

def missingKey (key : String) : Failure := .parseError ("wrkr json: missing key '" ++ key ++ "'")

def mustBe (key what : String) : Failure :=
  .parseError ("wrkr json: key '" ++ key ++ "' must be " ++ what)

variable (py : PyFloat F)

def float (n : Int) : Except Failure F :=
  match py.ofInt n with
  | some x => .ok x
  | none => .error .overflowError

/-- `x or 0.0` -/
def orZero (x : F) : F := if py.isZero x then py.zero else x

def jsonInt (obj : List (String × Json F)) (key : String) : Except Failure Int :=
  match get obj key with
  | none => .error (missingKey key)
  | some (.int n) => .ok n
  | some (.float x) =>
    match py.whole x with
    | some n => .ok n
    | none => .error (mustBe key "an int, got float")
  | some v => .error (mustBe key ("an int, got " ++ typeName v))

def floatOf (key : String) : Json F → Except Failure F
  | .int n => float py n
  | .float x => .ok x
  | v => .error (mustBe key ("a float, got " ++ typeName v))

/-- `_json_float` without a default. -/
def jsonFloat (obj : List (String × Json F)) (key : String) : Except Failure F :=
  match get obj key with
  | none => .error (missingKey key)
  | some v => floatOf py key v

/-- `_json_float` with the default `None`. -/
def jsonFloatOrNone (obj : List (String × Json F)) (key : String) : Except Failure (Option F) :=
  match get obj key with
  | none => .ok none
  | some v => (floatOf py key v).map some

def jsonObj (parent : List (String × Json F)) (key : String) :
    Except Failure (List (String × Json F)) :=
  match get parent key with
  | none => .error (missingKey key)
  | some (.object fields) => .ok fields
  | some _ => .error (mustBe key "an object")

def jsonList (parent : List (String × Json F)) (key : String) : Except Failure (List (Json F)) :=
  match get parent key with
  | none => .error (missingKey key)
  | some (.array items) => .ok items
  | some _ => .error (mustBe key "a list")

/-! ### Lines -/

def tryParseJsonObjectLine (line : List Char) : Option (List (String × Json F)) :=
  let s := PyText.strip line
  if s.head? ≠ some '{' then none
  else
    match Json.loads py.read s with
    | some (.object fields) => some fields
    | _ => none

/-- What the lines were found to be. -/
structure Found (F : Type) where
  lastProgress : Option (List (String × Json F))
  lastSummary : Option (List (String × Json F))
  sawJson : Bool

def Found.object (found : Found F) (obj : List (String × Json F)) : Found F :=
  if isString obj "kind" "progress" ||
      (isNone obj "kind" && hasKey obj "elapsed_secs" && hasKey obj "total_requests") then
    { found with lastProgress := some obj, sawJson := true }
  else if isString obj "kind" "summary" ||
      (isNone obj "kind" && hasKey obj "totals" && hasKey obj "scenarios") then
    { found with lastSummary := some obj, sawJson := true }
  else { found with sawJson := true }

def Found.line (found : Found F) (raw : List Char) : Found F :=
  match tryParseJsonObjectLine py raw with
  | none => found
  | some obj => found.object obj

/-! ### Diagnostics -/

def DIAG_MAX_CHARS : Nat := 4096

def tailLines (text : List Char) (n : Nat) : List Char :=
  if n = 0 then []
  else
    let lines := PyText.splitlines text
    if lines.length ≤ n then text else PyText.joinLines (lines.drop (lines.length - n))

def truncate (text : List Char) (maxChars : Nat) : List Char :=
  if maxChars = 0 then []
  else if text.length ≤ maxChars then text
  else text.take maxChars ++ ['.', '.', '.']

/-- `ParseDiagnostics.format` of the tails of both outputs. -/
def diagnostics (message : String) (stdout stderr : List Char) : String :=
  let out := String.ofList (truncate (tailLines stdout 12) DIAG_MAX_CHARS)
  let err := String.ofList (truncate (tailLines stderr 12) DIAG_MAX_CHARS)
  message ++ "\n--- wrkr-json stdout (tail) ---\n" ++ out ++
    "\n--- wrkr-json stderr (tail) ---\n" ++ err

/-- The `except ParseError` of the reader. -/
def diagnosed {α : Type} (stdout stderr : List Char) : Except Failure α → Except Failure α
  | .error (.parseError message) => .error (.parseError (diagnostics message stdout stderr))
  | result => result

/-! ### The summary -/

structure WrkrJsonSummary (F : Type) where
  elapsedSeconds : F
  totalRequests : Int
  rps : F
  checksFailedTotal : Int
  latencyMeanSeconds : Option F
  latencyP50Seconds : Option F
  latencyP90Seconds : Option F
  latencyP99Seconds : Option F
  latencyMaxSeconds : Option F
  bytesReceivedPerSec : Option Int
  bytesSentPerSec : Option Int
  deriving DecidableEq, Repr

/-- What is read from the progress line. -/
structure Rates (F : Type) where
  elapsedSeconds : F
  rpsAvg : F
  bytesReceivedPerSec : Int
  bytesSentPerSec : Int

/-- What is read from the summary line, if there is one. -/
structure Totals (F : Type) where
  totalRequests : Int
  checksFailedTotal : Int
  latencyMeanSeconds : Option F
  latencyP50Seconds : Option F
  latencyP90Seconds : Option F
  latencyP99Seconds : Option F
  latencyMaxSeconds : Option F

def isV1 (obj : List (String × Json F)) : Bool := isString obj "schema" "wrkr.ndjson.v1"

def ratesV1 (progress : List (String × Json F)) : Except Failure (Rates F) := do
  let elapsed ← jsonFloat py progress "elapsedSeconds"
  let elapsedSeconds := orZero py elapsed
  let m ← jsonObj progress "metrics"
  let rpsAvgOpt ← jsonFloatOrNone py m "reqPerSecAvg"
  let rpsAvg ← match rpsAvgOpt with
    | some rpsAvg => pure rpsAvg
    | none => do
      let totalRequestsProgress ← jsonInt py m "totalRequests"
      -- the average is only computed where the line has none
      if py.positive elapsedSeconds then do
        let total ← float py totalRequestsProgress
        pure (py.div total elapsedSeconds)
      else do
        let now ← jsonFloat py m "requestsPerSec"
        pure (orZero py now)
  let bytesReceivedPerSec ← jsonInt py m "bytesReceivedPerSec"
  let bytesSentPerSec ← jsonInt py m "bytesSentPerSec"
  pure ⟨elapsedSeconds, rpsAvg, bytesReceivedPerSec, bytesSentPerSec⟩

def ratesOld (progress : List (String × Json F)) : Except Failure (Rates F) := do
  let elapsedSecs ← jsonInt py progress "elapsed_secs"
  let elapsedSeconds ← float py elapsedSecs
  let rpsAvgOpt ← jsonFloatOrNone py progress "req_per_sec_avg"
  let rpsAvg ← match rpsAvgOpt with
    | some rpsAvg => pure rpsAvg
    | none => do
      let totalRequestsProgress ← jsonInt py progress "total_requests"
      if elapsedSecs > 0 then do
        let total ← float py totalRequestsProgress
        pure (py.div total elapsedSeconds)
      else do
        let now ← jsonFloat py progress "requests_per_sec"
        pure (orZero py now)
  let bytesReceivedPerSec ← jsonInt py progress "bytes_received_per_sec"
  let bytesSentPerSec ← jsonInt py progress "bytes_sent_per_sec"
  pure ⟨elapsedSeconds, rpsAvg, bytesReceivedPerSec, bytesSentPerSec⟩

/-- The latencies of the first scenario, if they are a dictionary. -/
def firstLatency (scenarios : List (Json F)) (key : String) : Option (List (String × Json F)) :=
  match scenarios with
  | .object first :: _ =>
    match get first key with
    | some (.object latency) => some latency
    | _ => none
  | _ => none

/-- A latency; an empty dictionary counts as none. -/
def latencyOf (latency : Option (List (String × Json F))) (key : String) :
    Except Failure (Option F) :=
  match latency with
  | some (field :: fields) => jsonFloatOrNone py (field :: fields) key
  | _ => .ok none

def totalsV1 (summary : List (String × Json F)) : Except Failure (Totals F) := do
  let totals ← jsonObj summary "totals"
  let totalRequests ← jsonInt py totals "requestsTotal"
  let checksFailedTotal ← jsonInt py totals "checksFailedTotal"
  let scenarios ← jsonList summary "scenarios"
  let latency := firstLatency scenarios "latencySeconds"
  let mean ← latencyOf py latency "mean"
  let p50 ← latencyOf py latency "p50"
  let p90 ← latencyOf py latency "p90"
  let p99 ← latencyOf py latency "p99"
  let max ← latencyOf py latency "max"
  pure ⟨totalRequests, checksFailedTotal, mean, p50, p90, p99, max⟩

def totalsOld (summary : List (String × Json F)) : Except Failure (Totals F) := do
  let totals ← jsonObj summary "totals"
  let totalRequests ← jsonInt py totals "requests_total"
  let checksFailedTotal ← jsonInt py totals "checks_failed_total"
  let scenarios ← jsonList summary "scenarios"
  let latency := firstLatency scenarios "latency_ms"
  -- the older summary has milliseconds
  let seconds := Option.map fun (millis : F) => py.div millis py.thousand
  let mean ← latencyOf py latency "mean"
  let p50 ← latencyOf py latency "p50"
  let p90 ← latencyOf py latency "p90"
  let p99 ← latencyOf py latency "p99"
  let max ← latencyOf py latency "max"
  pure ⟨totalRequests, checksFailedTotal, seconds mean, seconds p50, seconds p90, seconds p99,
    seconds max⟩

/-- Without a summary the totals are read from the progress line, under the older names. -/
def totalsProgress (progress : List (String × Json F)) : Except Failure (Totals F) := do
  let micros (key : String) : Except Failure F := do
    let n ← jsonInt py progress key
    let x ← float py n
    pure (py.div x py.million)
  let totalRequests ← jsonInt py progress "total_requests"
  let checksFailedTotal ← jsonInt py progress "checks_failed_total"
  let mean ← jsonFloatOrNone py progress "latency_mean"
  let p50 ← micros "latency_p50"
  let p90 ← micros "latency_p90"
  let p99 ← micros "latency_p99"
  let max ← micros "latency_max"
  pure ⟨totalRequests, checksFailedTotal, mean.map fun x => py.div x py.million, some p50, some p90,
    some p99, some max⟩

/-- The `try` block. -/
def ratesAndTotals (progress summary : Option (List (String × Json F))) :
    Except Failure (Rates F × Totals F) :=
  match progress with
  | none => .error (.parseError "wrkr json: missing progress line (kind=progress)")
  | some progress => do
    let rates ← if isV1 progress then ratesV1 py progress else ratesOld py progress
    let totals ← match summary with
      | some summary => if isV1 summary then totalsV1 py summary else totalsOld py summary
      | none => totalsProgress py progress
    pure (rates, totals)

def wrkrJsonSummary (rates : Rates F) (totals : Totals F) : WrkrJsonSummary F where
  elapsedSeconds := rates.elapsedSeconds
  totalRequests := totals.totalRequests
  rps := rates.rpsAvg
  checksFailedTotal := totals.checksFailedTotal
  latencyMeanSeconds := totals.latencyMeanSeconds
  latencyP50Seconds := totals.latencyP50Seconds
  latencyP90Seconds := totals.latencyP90Seconds
  latencyP99Seconds := totals.latencyP99Seconds
  latencyMaxSeconds := totals.latencyMaxSeconds
  bytesReceivedPerSec := some rates.bytesReceivedPerSec
  bytesSentPerSec := some rates.bytesSentPerSec

def parseWrkrJsonSummaryObj (progress summary : Option (List (String × Json F)))
    (stdout stderr : List Char) : Except Failure (WrkrJsonSummary F) := do
  let (rates, totals) ← diagnosed stdout stderr (ratesAndTotals py progress summary)
  if py.negative rates.rpsAvg then
    .error (.parseError ("wrkr json: rps must be non-negative, got " ++ py.repr rates.rpsAvg))
  else pure (wrkrJsonSummary rates totals)

def tryParseWrkrJsonSummary (stdout stderr : List Char) :
    Except Failure (Option (WrkrJsonSummary F)) :=
  let found := (PyText.splitlines stdout ++ PyText.splitlines stderr).foldl (Found.line py)
    ⟨none, none, false⟩
  if found.lastProgress.isNone && found.lastSummary.isNone then
    if found.sawJson then
      .error (.parseError (diagnostics
        "failed to parse wrkr JSON progress lines (no progress objects found)" stdout stderr))
    else .ok none
  else do
    let summary ← parseWrkrJsonSummaryObj py found.lastProgress found.lastSummary stdout stderr
    pure (some summary)

end Wrkr.Compare
