import Wrkr.Compare.Lines

/-!
# Reading the stream of a run

Every run writes a line for each progress update and then its summary. The reader accepts what it
has got of that stream if the summary is there (`accepts_iff`): without it the totals are looked up
in the progress line under names that the writer does not use.
-/
namespace Wrkr.Compare

open Wrkr.Lib Wrkr.Core Wrkr.Metrics Wrkr.Cli.Ndjson

variable {F : Type} (x : Exchange F)

/-- A run with at least one progress update. -/
structure Run (F : Type) where
  scenarios : Option (List ScenarioConfig)
  first : ProgressUpdate F
  rest : List (ProgressUpdate F)
  summary : RunSummary F
  violations : List ThresholdViolation

namespace Run

def updates (run : Run F) : List (ProgressUpdate F) := run.first :: run.rest

end Run

def progressFields (u : ProgressUpdate F) : List (String × Json F) :=
  (buildProgressLine x.toFloats u).fields x.toFloats

/-! ### Fields of the lines -/

section Fields

variable {obj : List (String × Json F)} {key : String}

theorem jsonInt_u64 {n : UInt64} (here : get obj key = some (u64 n)) :
    jsonInt x.toPyFloat obj key = .ok (n.toNat : Int) := by
  rw [jsonInt, here]
  rfl

theorem jsonInt_absent (absent : get obj key = none) :
    jsonInt x.toPyFloat obj key = .error (missingKey key) := by
  rw [jsonInt, absent]

theorem jsonObj_object {fields : List (String × Json F)}
    (here : get obj key = some (.object fields)) : jsonObj obj key = .ok fields := by
  rw [jsonObj, here]

theorem jsonList_array {items : List (Json F)} (here : get obj key = some (.array items)) :
    jsonList obj key = .ok items := by
  rw [jsonList, here]

/-- A float that is no number is read as `None`. -/
theorem floatOf_f64 (y : F) :
    floatOf x.toPyFloat key (f64 x.toFloats y) =
      if x.finite y then .ok y else .error (mustBe key "a float, got NoneType") := by
  unfold f64
  split
  · rfl
  · rfl

end Fields

section Progress

variable (u : ProgressUpdate F)

def metricsFields : List (String × Json F) :=
  (buildProgressLine x.toFloats u).metrics.fields x.toFloats

theorem get_kind : get (progressFields x u) "kind" = some (.string "progress") := by
  simp [progressFields, JsonProgressLine.fields, buildProgressLine, get]

theorem get_schema : get (progressFields x u) "schema" = some (.string NDJSON_SCHEMA) := by
  simp [progressFields, JsonProgressLine.fields, buildProgressLine, get]

theorem get_elapsedSeconds : get (progressFields x u) "elapsedSeconds" =
    some (f64 x.toFloats (x.asSecsF64 u.elapsed)) := by
  simp [progressFields, JsonProgressLine.fields, buildProgressLine, get]

theorem get_metrics : get (progressFields x u) "metrics" = some (.object (metricsFields x u)) := by
  simp [progressFields, metricsFields, JsonProgressLine.fields, get]

theorem get_total_requests : get (progressFields x u) "total_requests" = none := by
  simp [progressFields, JsonProgressLine.fields, get]

theorem get_reqPerSecAvg :
    get (metricsFields x u) "reqPerSecAvg" = some (f64 x.toFloats u.metrics.reqPerSecAvg) := by
  simp [metricsFields, JsonProgressMetrics.fields, buildProgressLine, get]

theorem get_bytesReceivedPerSec : get (metricsFields x u) "bytesReceivedPerSec" =
    some (u64 u.metrics.bytesReceivedPerSecNow) := by
  simp [metricsFields, JsonProgressMetrics.fields, buildProgressLine, get]

theorem get_bytesSentPerSec : get (metricsFields x u) "bytesSentPerSec" =
    some (u64 u.metrics.bytesSentPerSecNow) := by
  simp [metricsFields, JsonProgressMetrics.fields, buildProgressLine, get]

theorem isV1_progress : isV1 (progressFields x u) = true := by
  rw [isV1, isString, get_schema]
  rfl

/-- The rates need the average, which is `null` if it is no number. -/
theorem ratesV1_progress :
    ratesV1 x.toPyFloat (progressFields x u) =
      if x.finite u.metrics.reqPerSecAvg then
        .ok ⟨orZero x.toPyFloat (x.asSecsF64 u.elapsed), u.metrics.reqPerSecAvg,
          u.metrics.bytesReceivedPerSecNow.toNat, u.metrics.bytesSentPerSecNow.toNat⟩
      else .error (mustBe "reqPerSecAvg" "a float, got NoneType") := by
  have elapsed : jsonFloat x.toPyFloat (progressFields x u) "elapsedSeconds" =
      .ok (x.asSecsF64 u.elapsed) := by
    rw [jsonFloat, get_elapsedSeconds]
    dsimp only
    rw [floatOf_f64, if_pos (x.finite_asSecsF64 u.elapsed)]
  -- the key is there, so its `null` is an error and not a missing value
  have average : jsonFloatOrNone x.toPyFloat (metricsFields x u) "reqPerSecAvg" =
      if x.finite u.metrics.reqPerSecAvg then .ok (some u.metrics.reqPerSecAvg)
      else .error (mustBe "reqPerSecAvg" "a float, got NoneType") := by
    rw [jsonFloatOrNone, get_reqPerSecAvg]
    dsimp only
    rw [floatOf_f64]
    split <;> rfl
  simp only [ratesV1, elapsed, jsonObj_object (get_metrics x u), average, bind, Except.bind]
  cases x.finite u.metrics.reqPerSecAvg with
  | true =>
    simp only [if_true, pure, Except.pure, jsonInt_u64 x (get_bytesReceivedPerSec x u),
      jsonInt_u64 x (get_bytesSentPerSec x u)]
  | false => simp only [Bool.false_eq_true, if_false]

/-- The reader looks for `total_requests` where the writer has `metrics.totalRequests`. -/
theorem totalsProgress_progress :
    totalsProgress x.toPyFloat (progressFields x u) = .error (missingKey "total_requests") := by
  rw [totalsProgress, jsonInt_absent x (get_total_requests x u)]
  rfl

end Progress

section Summary

variable (run : Run F)

def summaryLine : JsonSummaryLine F :=
  buildSummaryLine x.toFloats run.summary run.violations run.scenarios

def summaryFields : List (String × Json F) := (summaryLine x run).fields x.toFloats

theorem get_kind_summary : get (summaryFields x run) "kind" = some (.string "summary") := by
  simp [summaryFields, summaryLine, JsonSummaryLine.fields, buildSummaryLine, get]

theorem get_schema_summary : get (summaryFields x run) "schema" = some (.string NDJSON_SCHEMA) := by
  simp [summaryFields, summaryLine, JsonSummaryLine.fields, buildSummaryLine, get]

theorem isV1_summary : isV1 (summaryFields x run) = true := by
  rw [isV1, isString, get_schema_summary]
  rfl

theorem get_totals : get (summaryFields x run) "totals" =
    some (.object (jsonTotalsFields (summaryLine x run).totals)) := by
  simp [summaryFields, JsonSummaryLine.fields, get]

theorem get_scenarios : get (summaryFields x run) "scenarios" =
    some (.array ((summaryLine x run).scenarios.map fun s => .object (s.fields x.toFloats))) := by
  simp [summaryFields, JsonSummaryLine.fields, get]

theorem get_requestsTotal (totals : Cli.JsonTotals) :
    get (jsonTotalsFields (F := F) totals) "requestsTotal" = some (u64 totals.requestsTotal) := by
  simp [jsonTotalsFields, get]

theorem get_checksFailedTotal (totals : Cli.JsonTotals) :
    get (jsonTotalsFields (F := F) totals) "checksFailedTotal" =
      some (u64 totals.checksFailedTotal) := by
  simp [jsonTotalsFields, get]

/-- The latencies that the reader takes from the summary. -/
def latency : Option (HistogramSummary F) := run.summary.scenarios.head?.bind ScenarioSummary.latency

def latencyFields (l : HistogramSummary F) : List (String × Json F) :=
  (latencySummarySeconds x.toFloats l).fields x.toFloats

theorem firstLatency_summary :
    firstLatency ((summaryLine x run).scenarios.map fun s => .object (s.fields x.toFloats))
      "latencySeconds" = (latency run).map (latencyFields x) := by
  unfold latency summaryLine buildSummaryLine
  cases run.summary.scenarios with
  | nil => rfl
  | cons s scenarios =>
    cases recorded : s.latency with
    | none => simp [firstLatency, JsonScenarioSummary.fields, get, option, recorded]
    | some l => simp [firstLatency, JsonScenarioSummary.fields, get, option, recorded, latencyFields]

/-- A latency that the reader can take: a number, in seconds. -/
def isNumber (micros : Option F) : Bool := (micros.map x.perMillion).any x.finite

theorem latencyOf_field {fields : List (String × Json F)} {key : String} {micros : Option F}
    (here : get fields key = some (option (f64 x.toFloats) (micros.map x.perMillion))) :
    latencyOf x.toPyFloat (some fields) key =
      if isNumber x micros then .ok (micros.map x.perMillion)
      else .error (mustBe key "a float, got NoneType") := by
  cases fields with
  | nil => cases here
  | cons field fields =>
    rw [latencyOf, jsonFloatOrNone, here]
    dsimp only
    cases micros with
    | none => rfl
    -- a number that is not finite was written as `null`
    | some us =>
      have number : isNumber x (some us) = x.finite (x.perMillion us) := rfl
      rw [Option.map_some, option, floatOf_f64, number]
      split <;> rfl

/-- The latencies that the reader asks for are numbers. -/
def readable (l : HistogramSummary F) : Bool :=
  isNumber x l.mean && isNumber x l.p50 && isNumber x l.p90 && isNumber x l.p99 && isNumber x l.max

section Latency

variable (l : HistogramSummary F)

theorem get_latency :
    get (latencyFields x l) "mean" = some (option (f64 x.toFloats) (l.mean.map x.perMillion)) ∧
      get (latencyFields x l) "p50" = some (option (f64 x.toFloats) (l.p50.map x.perMillion)) ∧
      get (latencyFields x l) "p90" = some (option (f64 x.toFloats) (l.p90.map x.perMillion)) ∧
      get (latencyFields x l) "p99" = some (option (f64 x.toFloats) (l.p99.map x.perMillion)) ∧
      get (latencyFields x l) "max" = some (option (f64 x.toFloats) (l.max.map x.perMillion)) := by
  simp [latencyFields, JsonLatencySummarySeconds.fields, latencySummarySeconds, get]

end Latency

theorem bind_eq_ok {α β : Type} {r : Except Failure α} {f : α → Except Failure β} {b : β} :
    (r >>= f) = .ok b ↔ ∃ a, r = .ok a ∧ f a = .ok b := Except.bind_eq_ok

theorem pure_eq_ok {α : Type} {a b : α} : (pure a : Except Failure α) = .ok b ↔ b = a := by
  rw [eq_comm (a := b)]
  exact Except.ok.injEq a b ▸ Iff.rfl

theorem ite_eq_ok {ε α : Type} {c : Bool} {a b : α} {e : ε} :
    (if c then Except.ok a else Except.error e) = Except.ok b ↔ c = true ∧ a = b := by
  cases c <;> simp

/-- The totals are read if the latencies that are read with them are numbers. -/
theorem totalsV1_eq_ok_iff {read : Totals F} :
    totalsV1 x.toPyFloat (summaryFields x run) = .ok read ↔
      (∀ l ∈ latency run, readable x l = true) ∧
        read =
          let seconds (pick : HistogramSummary F → Option F) :=
            (latency run).bind fun l => (pick l).map x.perMillion
          { totalRequests := (summaryLine x run).totals.requestsTotal.toNat
            checksFailedTotal := (summaryLine x run).totals.checksFailedTotal.toNat
            latencyMeanSeconds := seconds HistogramSummary.mean
            latencyP50Seconds := seconds HistogramSummary.p50
            latencyP90Seconds := seconds HistogramSummary.p90
            latencyP99Seconds := seconds HistogramSummary.p99
            latencyMaxSeconds := seconds HistogramSummary.max } := by
  simp only [totalsV1, bind_eq_ok, jsonObj_object (get_totals x run),
    jsonList_array (get_scenarios x run), Except.ok.injEq, exists_eq_left',
    jsonInt_u64 x (get_requestsTotal _), jsonInt_u64 x (get_checksFailedTotal _),
    firstLatency_summary]
  cases recorded : latency run with
  -- no request, no latencies
  | none => simp [latencyOf, pure_eq_ok]
  | some l =>
    obtain ⟨mean, p50, p90, p99, max⟩ := get_latency x l
    simp only [Option.map_some, latencyOf_field x mean, latencyOf_field x p50,
      latencyOf_field x p90, latencyOf_field x p99, latencyOf_field x max, ite_eq_ok]
    simp [readable, and_assoc, pure_eq_ok]

end Summary

/-! ### What the reader returns -/

theorem diagnosed_eq_ok {α : Type} {stdout stderr : List Char} {r : Except Failure α} {a : α} :
    diagnosed stdout stderr r = .ok a ↔ r = .ok a := by
  unfold diagnosed
  split
  · simp
  · rfl

/-- The lines of a text, one after the other. -/
def found (stdout : List Char) : Found F :=
  (PyText.splitlines stdout).foldl (Found.line x.toPyFloat) ⟨none, none, false⟩

/-- A result comes from the last progress line and, for the totals, from the last summary. -/
theorem tryParse_eq_ok_iff {stdout : List Char} {result : WrkrJsonSummary F} :
    tryParseWrkrJsonSummary x.toPyFloat stdout [] = .ok (some result) ↔
      ∃ rates totals,
        ratesAndTotals x.toPyFloat (found x stdout).lastProgress (found x stdout).lastSummary =
          .ok (rates, totals) ∧
        x.negative rates.rpsAvg = false ∧ result = wrkrJsonSummary rates totals := by
  have lines : PyText.splitlines stdout ++ PyText.splitlines [] = PyText.splitlines stdout :=
    List.append_nil _
  rw [tryParseWrkrJsonSummary, lines]
  change (if (found x stdout).lastProgress.isNone && (found x stdout).lastSummary.isNone then _
    else _) = _ ↔ _
  split
  next nothing =>
    -- neither a progress line nor a summary
    rw [Bool.and_eq_true, Option.isNone_iff_eq_none] at nothing
    rw [nothing.1]
    constructor
    · intro ok
      split at ok <;> cases ok
    · rintro ⟨_, _, ok, -⟩
      cases ok
  next =>
    simp only [bind_eq_ok, pure_eq_ok, parseWrkrJsonSummaryObj, diagnosed_eq_ok, Prod.exists,
      Option.some.injEq, exists_eq_right']
    refine exists_congr fun rates => exists_congr fun totals => and_congr_right fun _ => ?_
    cases x.negative rates.rpsAvg with
    | true => simp
    | false => simp [pure_eq_ok]

/-- Without a summary the reader looks up names that a progress line does not have. -/
theorem ratesAndTotals_alone {u : ProgressUpdate F} {read : Rates F × Totals F} :
    ratesAndTotals x.toPyFloat (some (progressFields x u)) none ≠ .ok read := by
  intro ok
  simp only [ratesAndTotals, isV1_progress, if_true, totalsProgress_progress, bind_eq_ok] at ok
  obtain ⟨rates, -, _, missing, -⟩ := ok
  cases missing

theorem ratesAndTotals_both {run : Run F} {u : ProgressUpdate F} {rates : Rates F}
    {totals : Totals F} :
    ratesAndTotals x.toPyFloat (some (progressFields x u)) (some (summaryFields x run)) =
        .ok (rates, totals) ↔
      ratesV1 x.toPyFloat (progressFields x u) = .ok rates ∧
        totalsV1 x.toPyFloat (summaryFields x run) = .ok totals := by
  simp only [ratesAndTotals, isV1_progress, isV1_summary, if_true, bind_eq_ok, pure_eq_ok,
    Prod.mk.injEq]
  constructor
  · rintro ⟨_, ratesRead, _, totalsRead, rfl, rfl⟩
    exact ⟨ratesRead, totalsRead⟩
  · rintro ⟨ratesRead, totalsRead⟩
    exact ⟨rates, ratesRead, totals, totalsRead, rfl, rfl⟩

/-! ### What is found -/

theorem object_progress (before : Found F) (u : ProgressUpdate F) :
    before.object (progressFields x u) =
      { before with lastProgress := some (progressFields x u), sawJson := true } := by
  simp [Found.object, isString, get_kind]

theorem object_summary (before : Found F) (run : Run F) :
    before.object (summaryFields x run) =
      { before with lastSummary := some (summaryFields x run), sawJson := true } := by
  simp [Found.object, isString, isNone, get_kind_summary]

/-- Of the progress lines the last one is found. -/
theorem foldl_progress (before : Found F) (us : List (ProgressUpdate F)) :
    ((us.map (progressFields x)).foldl Found.object before).lastProgress =
        (us.getLast?.map (progressFields x)).or before.lastProgress ∧
      ((us.map (progressFields x)).foldl Found.object before).lastSummary = before.lastSummary := by
  induction us using List.reverseRecOn with
  | nil => exact ⟨rfl, rfl⟩
  | append_singleton us u ih =>
    rw [List.map_append, List.foldl_append, List.map_singleton, List.foldl_cons, List.foldl_nil,
      object_progress, List.getLast?_concat]
    exact ⟨rfl, ih.2⟩

/-! ### The stream of a run -/

section Stream

variable (run : Run F)

def lines : List (List (String × Json F)) :=
  run.updates.map (progressFields x) ++ [summaryFields x run]

/-- The updates whose lines are whole. -/
def wholeUpdates (us : List (ProgressUpdate F)) : List (ProgressUpdate F) :=
  us.filter fun u => whole (progressFields x u)

/-- What is found in the first `n` lines. -/
theorem found_take (n : Nat) :
    (found x (text x ((lines x run).take n))).lastProgress =
        (wholeUpdates x (run.updates.take n)).getLast?.map (progressFields x) ∧
      (found x (text x ((lines x run).take n))).lastSummary =
        if run.updates.length < n ∧ whole (summaryFields x run) = true then
          some (summaryFields x run)
        else none := by
  have finite : ∀ line ∈ (lines x run).take n, Finite x.toFloats (.object line) := by
    intro line member
    rcases List.mem_append.mp (List.mem_of_mem_take member) with progress | summary
    · obtain ⟨u, -, rfl⟩ := List.mem_map.mp progress
      exact finite_progress _
    · rw [List.mem_singleton] at summary
      exact summary ▸ finite_summary _
  have sameLines := found_lines x finite ⟨none, none, false⟩
  -- the summary is the last line, so a prefix has it only if it has all updates
  have split : (lines x run).take n = (run.updates.take n).map (progressFields x) ++
      [summaryFields x run].take (n - run.updates.length) := by
    rw [lines, List.take_append, List.map_take, List.length_map]
  have progressLines : ((run.updates.take n).map (progressFields x)).filter whole =
      (wholeUpdates x (run.updates.take n)).map (progressFields x) := List.filter_map
  rw [split, List.filter_append, progressLines, List.foldl_append, ← split] at sameLines
  obtain ⟨lastProgress, lastSummary⟩ := foldl_progress x ⟨none, none, false⟩
    (wholeUpdates x (run.updates.take n))
  rw [Option.or_none] at lastProgress
  rw [found, sameLines.1, sameLines.2]
  -- with the last line, or without it
  rcases Nat.lt_or_ge run.updates.length n with more | less
  · obtain ⟨k, extra⟩ := Nat.exists_eq_add_of_lt more
    have one : [summaryFields x run].take (n - run.updates.length) = [summaryFields x run] :=
      List.take_of_length_le (by simp; omega)
    rw [one]
    cases isWhole : whole (summaryFields x run) with
    | true =>
      rw [List.filter_cons_of_pos isWhole, List.filter_nil, List.foldl_cons, List.foldl_nil,
        object_summary]
      simp [more, lastProgress]
    | false =>
      rw [List.filter_cons_of_neg (by simp [isWhole]), List.filter_nil, List.foldl_nil]
      simp [lastProgress, lastSummary]
  · rw [Nat.sub_eq_zero_of_le less]
    simp [lastProgress, lastSummary, Nat.not_lt.mpr less]

/-- The totals that the reader should return for the first `n` lines: those of the summary if it is
among them, and those of the last progress line otherwise. -/
def expected (n : Nat) : UInt64 × UInt64 :=
  if run.updates.length < n then
    ((summaryLine x run).totals.requestsTotal, (summaryLine x run).totals.checksFailedTotal)
  else
    let last := (run.updates.take n).getLastD run.first
    (last.metrics.requestsTotal, last.metrics.checksFailedTotal)

/-- The reader accepts the first `n` lines and returns their totals. -/
def Accepts (n : Nat) : Prop :=
  ∃ result, tryParseWrkrJsonSummary x.toPyFloat (text x ((lines x run).take n)) [] =
      .ok (some result) ∧
    result.totalRequests = (expected x run n).1.toNat ∧
      result.checksFailedTotal = (expected x run n).2.toNat

/-- What the reader needs of the lines of a run. -/
structure Readable : Prop where
  summary : whole (summaryFields x run) = true
  latency : ∀ l ∈ latency run, readable x l = true
  /-- The last whole progress line has a rate. -/
  rate : ∃ u ∈ (wholeUpdates x run.updates).getLast?,
    x.finite u.metrics.reqPerSecAvg = true ∧ x.negative u.metrics.reqPerSecAvg = false

variable {x run} {n : Nat}

/-- An accepted prefix has a whole summary and, before it, a whole progress line. -/
theorem readable_of_accepts (accepts : Accepts x run n) :
    run.updates.length < n ∧ Readable x run := by
  obtain ⟨progress, summary⟩ := found_take x run n
  obtain ⟨result, ok, -⟩ := accepts
  obtain ⟨rates, totals, read, positive, -⟩ := (tryParse_eq_ok_iff x).mp ok
  rw [progress, summary] at read
  cases last : (wholeUpdates x (run.updates.take n)).getLast? with
  | none =>
    rw [last] at read
    cases read
  | some u =>
    rw [last, Option.map_some] at read
    split at read
    next both =>
      obtain ⟨ratesRead, totalsRead⟩ := (ratesAndTotals_both x).mp read
      obtain ⟨latencies, -⟩ := (totalsV1_eq_ok_iff x run).mp totalsRead
      rw [ratesV1_progress, ite_eq_ok] at ratesRead
      obtain ⟨number, rfl⟩ := ratesRead
      rw [List.take_of_length_le both.1.le] at last
      exact ⟨both.1, both.2, latencies, u, last, number, positive⟩
    -- without a summary the totals are looked for under names that the line does not have
    next => exact absurd read (ratesAndTotals_alone x)

theorem accepts_of_readable (complete : run.updates.length < n) (readable : Readable x run) :
    Accepts x run n := by
  obtain ⟨progress, summary⟩ := found_take x run n
  obtain ⟨isWhole, latencies, u, last, number, positive⟩ := readable
  have lastUpdate : (wholeUpdates x run.updates).getLast? = some u := last
  -- all progress lines were read, and the summary behind them
  rw [List.take_of_length_le complete.le, lastUpdate, Option.map_some] at progress
  rw [if_pos ⟨complete, isWhole⟩] at summary
  have ratesRead := ratesV1_progress x u
  rw [if_pos number] at ratesRead
  have totalsRead := (totalsV1_eq_ok_iff x run).mpr ⟨latencies, rfl⟩
  have read := (ratesAndTotals_both x).mpr ⟨ratesRead, totalsRead⟩
  rw [← progress, ← summary] at read
  refine ⟨_, (tryParse_eq_ok_iff x).mpr ⟨_, _, read, positive, rfl⟩, ?_⟩
  rw [expected, if_pos complete]
  exact ⟨rfl, rfl⟩

end Stream

/-- What has been received with at least one progress line is accepted if and only if the summary
has been received and the lines are readable. -/
theorem accepts_iff (run : Run F) (n : Nat) :
    Accepts x run (n + 1) ↔ run.updates.length ≤ n ∧ Readable x run := by
  constructor
  · intro accepts
    obtain ⟨complete, readable⟩ := readable_of_accepts accepts
    exact ⟨Nat.le_of_lt_succ complete, readable⟩
  · rintro ⟨complete, readable⟩
    exact accepts_of_readable (Nat.lt_succ_of_le complete) readable

/-! ### A stream that is cut off -/

/-- Whole numbers, and one value that is none. -/
def wholeNumbers : Exchange (Option Nat) where
  finite := Option.isSome
  text
    | some n => Nat.toDigits 10 n ++ ['.', '0']
    | none => ['N', 'a', 'N']
  read s := if s = ['N', 'a', 'N'] then none
    else some (Nat.ofDigitChars 10 (s.takeWhile Char.isDigit) 0)
  literal
    | some n, _ => ⟨[], Nat.toDigits 10 n, ['.', '0'], [], by simp, .inl rfl,
        Json.isWhole_toDigits n, .inr ⟨['0'], rfl, nofun, by simp⟩, .inl rfl, by simp⟩
  read_text
    | some n, _ => by
      have digits := (Json.isWhole_toDigits n).digits.2
      have read : (Nat.toDigits 10 n ++ ['.', '0']).takeWhile Char.isDigit = Nat.toDigits 10 n :=
        ((Text.takeWhile_eq_iff (p := Char.isDigit)).mpr ⟨rfl, digits, by simp⟩).1
      -- the text of a number ends in a zero
      have other : Nat.toDigits 10 n ++ ['.', '0'] ≠ ['N', 'a', 'N'] := fun same => by
        have last := congrArg List.getLast? same
        simp at last
      rw [if_neg other, read, Nat.ofDigitChars_ten_toDigits]
  asSecsF64 d := some (d.nanos / 10 ^ 9)
  ofU64 n := some n.toNat
  ofBits bits := if bits = 0 then some 0 else none
  perMillion := Option.map (· / 1000000)
  finite_asSecsF64 _ := rfl
  ofInt n := some (if 0 ≤ n then some n.toNat else none)
  whole := Option.map Int.ofNat
  positive y := y.any (0 < ·)
  negative _ := false
  isZero y := y == some 0
  zero := some 0
  div a b := do
    let a ← a
    let b ← b
    if b = 0 then none else some (a / b)
  thousand := some 1000
  million := some 1000000
  repr
    | some n => toString n ++ ".0"
    | none => "nan"

/-- One update after a second with 5 requests, and then the summary of the same requests. -/
def interrupted : Run (Option Nat) where
  scenarios := none
  first :=
    { tick := 1
      interval := .fromSecs 1
      elapsed := .fromSecs 1
      scenario := "Default"
      exec := "Default"
      metrics :=
        { rpsNow := some 5
          bytesReceivedPerSecNow := 500
          bytesSentPerSecNow := 200
          requestsTotal := 5
          bytesReceivedTotal := 500
          bytesSentTotal := 200
          failedRequestsTotal := 0
          checksFailedTotal := 0
          reqPerSecAvg := some 5
          reqPerSecStdev := some 0
          reqPerSecMax := some 5
          reqPerSecStdevPct := some 0
          latencyMean := some 0
          latencyStdev := some 0
          latencyMax := 0
          latencyP50 := 0
          latencyP75 := 0
          latencyP90 := 0
          latencyP99 := 0
          latencyStdevPct := some 0
          iterationsTotal := 5 }
      progress := .constantVus 1 }
  rest := []
  summary :=
    { scenarios :=
        [{ scenario := "Default"
           requestsTotal := 5
           failedRequestsTotal := 0
           bytesReceivedTotal := 500
           bytesSentTotal := 200
           iterationsTotal := 5
           checksFailedTotal := 0
           checksFailed := HashTable.empty
           latency :=
             let zero := some (some 0)
             some ⟨zero, zero, zero, zero, zero, zero, zero, zero, zero, 5⟩ }]
      metrics := [] }
  violations := []

/-- The progress line alone is rejected. -/
theorem interrupted_rejected : ¬Accepts wholeNumbers interrupted 1 := by
  intro accepts
  obtain ⟨complete, -⟩ := readable_of_accepts accepts
  exact absurd complete (by decide)

end Wrkr.Compare
