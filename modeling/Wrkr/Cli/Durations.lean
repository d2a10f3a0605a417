import Mathlib.Data.ENat.Basic
import Wrkr.Cli.ScenarioYaml
import Wrkr.Lib.Text
import Wrkr.Lua.DurationOptions

/-!
# Durations from scripts, documents and the command line

Each of the parsers checks something else: Lua takes every positive number, YAML every positive
finite one, both take every integer of their type, and the command line refuses what does not fit
into the seconds of a `Duration`. None of them looks at what the gate can add, so a duration
starts the gate, or is refused, exactly when what it asks for ends within the clock
(`no_panic_iff`).
-/
namespace Wrkr.Cli

open Wrkr.Core Wrkr.Lib

/-! ### The command line -/

/-- `u64::checked_mul`. -/
def checkedMul (a b : UInt64) : Option UInt64 :=
  if a.toNat * b.toNat < 2 ^ 64 then some (a * b) else none

/-- The names of the units, as the parser lists them. -/
def secondUnits : List String := ["", "s", "sec", "secs", "second", "seconds"]
def millisecondUnits : List String := ["ms", "msec", "msecs", "millisecond", "milliseconds"]
def microsecondUnits : List String :=
  ["us", "\u00b5s", "usec", "usecs", "microsecond", "microseconds"]
def nanosecondUnits : List String := ["ns", "nsec", "nsecs", "nanosecond", "nanoseconds"]
def minuteUnits : List String := ["m", "min", "mins", "minute", "minutes"]
def hourUnits : List String := ["h", "hr", "hrs", "hour", "hours"]

def invalidDuration (s : List Char) : String :=
  "invalid duration '" ++ String.ofList s ++ "' (expected e.g. 10s, 250ms, 1m)"

def tooLarge (s : List Char) : String := "duration '" ++ String.ofList s ++ "' is too large"

/-- `secs.ok_or_else(..)?` and `Duration::from_secs(secs)`. -/
def secondsOr (message : String) : Option UInt64 → Except String Duration
  | some secs => .ok (.fromSecs secs)
  | none => .error message

/-- The `match` on the unit. -/
def inUnit (s : List Char) (value : UInt64) (unit : String) : Except String Duration :=
  if unit ∈ secondUnits then .ok (.fromSecs value)
  else if unit ∈ millisecondUnits then .ok (.fromMillis value)
  else if unit ∈ microsecondUnits then .ok (.fromMicros value)
  else if unit ∈ nanosecondUnits then .ok (.fromNanos value)
  else if unit ∈ minuteUnits then
    secondsOr (tooLarge s) (checkedMul value 60)
  else if unit ∈ hourUnits then
    secondsOr (tooLarge s) ((checkedMul value 60).bind (checkedMul · 60))
  else .error (invalidDuration s)

/-- Digits, then a unit; without a unit the number is one of seconds. -/
def parseDuration (input : String) : Except String Duration :=
  let s := Text.trim input.toList
  if s = [] then .error "duration cannot be empty (expected e.g. 10s, 250ms, 1m)"
  else
    let number := s.takeWhile Char.isDigit
    if number = [] then .error (invalidDuration s)
    else
      match Text.decimalU64 number with
      | none => .error (invalidDuration s)
      | some value =>
        inUnit s value (String.ofList (Text.trim (s.dropWhile Char.isDigit)))

/-! ### Documents -/

namespace YamlDuration

/-- A YAML integer is a number of seconds. -/
def visitU64 (v : UInt64) : Except (Stop String) YamlDuration := .ok ⟨.fromSecs v⟩

def visitI64 (v : Int64) : Except (Stop String) YamlDuration :=
  if v ≤ 0 then .error (.error "duration must be positive") else .ok ⟨.fromSecs v.toUInt64⟩

/-- A YAML float is a number of seconds, rounded as `Duration` does. -/
def visitF64 (v : UInt64) : Except (Stop String) YamlDuration :=
  if !Ieee.isFinite v || Ieee.le v 0 then
    .error (.error "duration must be a positive, finite number")
  else
    match Duration.fromSecsF64 v with
    | some d => .ok ⟨d⟩
    | none => .error .panic

/-- A YAML string goes to the `humantime` crate. -/
def visitStr (humantime : String → Except String Duration) (v : String) :
    Except (Stop String) YamlDuration :=
  match humantime v with
  | .ok d => .ok ⟨d⟩
  | .error e => .error (.error e)

end YamlDuration

/-! ### What is asked for -/

/-- The nanoseconds in a unit of the command line. -/
def nanosOfUnit (unit : String) : Option Nat :=
  if unit ∈ secondUnits then some (10 ^ 9)
  else if unit ∈ millisecondUnits then some (10 ^ 6)
  else if unit ∈ microsecondUnits then some (10 ^ 3)
  else if unit ∈ nanosecondUnits then some 1
  else if unit ∈ minuteUnits then some (60 * 10 ^ 9)
  else if unit ∈ hourUnits then some (3600 * 10 ^ 9)
  else none

/-- Decimal digits and a unit, with whitespace around them and in between. -/
def Written (input : String) (value factor : Nat) : Prop :=
  ∃ digits rest, Text.trim input.toList = digits ++ rest ∧ digits ≠ [] ∧
    (∀ c ∈ digits, c.isDigit = true) ∧ (∀ c ∈ rest.head?, c.isDigit = false) ∧
    Nat.ofDigitChars 10 digits 0 = value ∧
    nanosOfUnit (String.ofList (Text.trim rest)) = some factor

/-- A number of Lua is an integer or a float. -/
inductive LuaNumber
  | integer (i : Int64)
  | number (bits : UInt64)
  deriving DecidableEq, Repr

def LuaNumber.toValue : LuaNumber → Lua.LuaValue
  | .integer i => .integer i
  | .number bits => .number bits

/-- A duration and the place where it is given. -/
inductive Given
  /-- Under `duration`, in the options or a stage of a script. -/
  | luaDuration (n : LuaNumber)
  /-- Under one of several keys, after keys that are missing or unreadable. -/
  | luaAny (before : List (Option Lua.LuaValue)) (n : LuaNumber)
      (rest : List (Option Lua.LuaValue)) (skipped : ∀ r ∈ before, r = none ∨ r = some .nil)
  | yamlUnsigned (v : UInt64)
  | yamlSigned (v : Int64)
  | yamlFloat (bits : UInt64)
  | cli (input : String)

/-- The nanoseconds of a number that is not negative. -/
def nanosOf (bits : UInt64) : ℕ∞ :=
  if Ieee.isFinite bits then (Ieee.scaled bits (10 ^ 9) : ℕ) else ⊤

/-- How many nanoseconds the number stands for, if it stands for a duration at all. -/
def LuaNumber.Asks : LuaNumber → ℕ∞ → Prop
  | .integer i, n => 0 < i ∧ n = (i.toInt.toNat * 10 ^ 9 : ℕ)
  | .number bits, n => Ieee.lt 0 bits = true ∧ n = nanosOf bits

/-- What is given passes the checks of its parser and stands for `n` nanoseconds. -/
def Given.Asks : Given → ℕ∞ → Prop
  | .luaDuration x, n | .luaAny _ x _ _, n => x.Asks n
  | .yamlUnsigned v, n => n = (v.toNat * 10 ^ 9 : ℕ)
  | .yamlSigned v, n => 0 < v ∧ n = (v.toInt.toNat * 10 ^ 9 : ℕ)
  | .yamlFloat bits, n => Ieee.isFinite bits = true ∧ Ieee.lt 0 bits = true ∧ n = nanosOf bits
  | .cli input, n => ∃ value factor : ℕ, Written input value factor ∧ value < 2 ^ 64 ∧
      value * factor < 2 ^ 64 * 10 ^ 9 ∧ n = (value * factor : ℕ)

/-- The parser has ended without a panic, and a gate with its duration starts. -/
def Starts {clock : Clock} (started : clock.Instant) {ε : Type} :
    Except (Stop ε) (Option Duration) → Prop
  | .error .panic => False
  | .error (.error _) | .ok none => True
  | .ok (some d) => ∀ iterations,
      ((IterationGate.new iterations (some d.nanos)).startAt started).isSome = true

section Runner

variable (humantime : String → Except String Duration) (toStringLossy : List UInt8 → String)
  {clock : Clock} (started : clock.Instant)

/-- The runner does not panic over what is given. -/
def Given.NoPanic : Given → Prop
  | .luaDuration x => Starts started (Lua.getDuration humantime toStringLossy (some x.toValue))
  | .luaAny before x rest _ =>
    Starts started (Lua.getDurationAny humantime toStringLossy (before ++ some x.toValue :: rest))
  | .yamlUnsigned v =>
    Starts started ((YamlDuration.visitU64 v).map fun d => some d.intoInner)
  | .yamlSigned v =>
    Starts started ((YamlDuration.visitI64 v).map fun d => some d.intoInner)
  | .yamlFloat bits =>
    Starts started ((YamlDuration.visitF64 bits).map fun d => some d.intoInner)
  | .cli input => Starts started (((parseDuration input).mapError Stop.error).map some)

end Runner

/-! ### The command line in full -/

theorem ok_iff_nanos {d d' : Duration} {ε : Type} :
    (Except.ok d : Except ε Duration) = .ok d' ↔ d'.nanos = d.nanos := by
  obtain ⟨nanos, _⟩ := d
  obtain ⟨nanos', _⟩ := d'
  simp [eq_comm]

theorem checkedMul_eq_some_iff {a b c : UInt64} :
    checkedMul a b = some c ↔ c.toNat = a.toNat * b.toNat := by
  rw [checkedMul]
  split
  next fits =>
    rw [Option.some.injEq, ← UInt64.toNat_inj, UInt64.toNat_mul, Nat.mod_eq_of_lt fits, eq_comm]
  next large =>
    have bound := c.toNat_lt
    exact iff_of_false nofun (by omega)

/-- Minutes and hours make a duration as long as their seconds fit. -/
theorem secondsOr_ok_iff {secs : Option UInt64} {n : Nat}
    (product : ∀ v, secs = some v ↔ v.toNat = n) {message : String} {d : Duration} :
    secondsOr message secs = .ok d ↔ d.nanos = n * 10 ^ 9 := by
  cases secs with
  | some v =>
    rw [secondsOr, ok_iff_nanos, ← (product v).mp rfl]
    rfl
  | none =>
    -- `n` is not a number of 64 bits, and `d` has no more seconds than that
    have large : 2 ^ 64 ≤ n := by
      by_contra small
      have fits := (product (UInt64.ofNat n)).mpr
        (by rw [UInt64.toNat_ofNat', Nat.mod_eq_of_lt (by omega)])
      cases fits
    have bound := d.bounded
    exact iff_of_false nofun (by omega)

/-- Two checked products in a row are one product that fits. -/
theorem checkedMul_bind_eq_some_iff {a b b' v : UInt64} (large : 0 < b'.toNat) :
    (checkedMul a b).bind (checkedMul · b') = some v ↔
      v.toNat = a.toNat * (b.toNat * b'.toNat) := by
  rw [Option.bind_eq_some_iff]
  simp only [checkedMul_eq_some_iff]
  constructor
  · rintro ⟨w, first, second⟩
    rw [second, first, Nat.mul_assoc]
  · intro whole
    -- the first product is at most the second
    have bound := v.toNat_lt
    have first : a.toNat * b.toNat ≤ v.toNat := by
      rw [whole, ← Nat.mul_assoc]
      exact Nat.le_mul_of_pos_right _ large
    have same : (UInt64.ofNat (a.toNat * b.toNat)).toNat = a.toNat * b.toNat := by
      rw [UInt64.toNat_ofNat', Nat.mod_eq_of_lt (by omega)]
    exact ⟨_, same, by rw [same, whole, Nat.mul_assoc]⟩

/-- A number with a known unit is a duration exactly if it fits. -/
theorem inUnit_ok_iff {s : List Char} {value : UInt64} {unit : String} {d : Duration} :
    inUnit s value unit = .ok d ↔
      ∃ factor, nanosOfUnit unit = some factor ∧ d.nanos = value.toNat * factor := by
  unfold inUnit nanosOfUnit
  split_ifs
  · rw [ok_iff_nanos]
    simp [Duration.fromSecs]
  · rw [ok_iff_nanos]
    simp [Duration.fromMillis]
  · rw [ok_iff_nanos]
    simp [Duration.fromMicros]
  · rw [ok_iff_nanos]
    simp [Duration.fromNanos]
  -- minutes and hours are multiplied first, with a check for overflow
  · rw [secondsOr_ok_iff fun v => checkedMul_eq_some_iff]
    simp [Nat.mul_assoc]
  · rw [secondsOr_ok_iff fun v => checkedMul_bind_eq_some_iff (by decide)]
    simp [Nat.mul_assoc]
  · simp

/-- A text is taken when it is digits and a unit, the digits fit into 64 bits and the whole into a
duration. -/
theorem parseDuration_ok_iff {input : String} {d : Duration} :
    parseDuration input = .ok d ↔
      ∃ value factor, Written input value factor ∧ value < 2 ^ 64 ∧ d.nanos = value * factor := by
  have parts (digits rest : List Char) := Text.takeWhile_eq_iff (p := Char.isDigit)
    (s := Text.trim input.toList) (a := digits) (b := rest)
  constructor
  · intro parsed
    simp only [parseDuration] at parsed
    split_ifs at parsed with empty noDigits
    split at parsed
    next => cases parsed
    next value number =>
      obtain ⟨factor, isUnit, nanos⟩ := inUnit_ok_iff.mp parsed
      obtain ⟨whole, digits, stops⟩ := (parts _ _).mp ⟨rfl, rfl⟩
      rw [Text.decimalU64_eq_some_iff noDigits digits] at number
      exact ⟨value.toNat, factor, ⟨_, _, whole, noDigits, digits, stops, number, isUnit⟩,
        value.toNat_lt, nanos⟩
  · rintro ⟨value, factor, ⟨digits, rest, whole, some, all, stops, number, isUnit⟩, small, nanos⟩
    obtain ⟨first, second⟩ := (parts digits rest).mpr ⟨whole, all, stops⟩
    have nonempty : Text.trim input.toList ≠ [] := by
      rw [whole]
      simp [some]
    -- the digits are read into 64 bits, and the unit multiplies beyond that
    have same : (UInt64.ofNat value).toNat = value := by
      rw [UInt64.toNat_ofNat', Nat.mod_eq_of_lt small]
    have parsed : Text.decimalU64 digits = .some (UInt64.ofNat value) := by
      rw [Text.decimalU64_eq_some_iff some all, number, same]
    simp only [parseDuration, if_neg nonempty, first, second, if_neg some, parsed]
    exact inUnit_ok_iff.mpr ⟨factor, isUnit, by rw [same, nanos]⟩

-- a duration that every gate panics over, and one that is refused
example : parseDuration " 18446744073709551615 secs" = .ok (.fromSecs 18446744073709551615) ∧
    parseDuration "5124095576030432h" = .error "duration '5124095576030432h' is too large" := by
  decide

/-! ### From the parsers to the gate -/

/-- A parser returns what it is asked for, or panics over more than a duration can hold. -/
def Delivers {ε : Type} (asks : ℕ∞ → Prop) : Except (Stop ε) (Option Duration) → Prop
  | .error .panic => ∃ n, ((2 ^ 64 * 10 ^ 9 : ℕ) : ℕ∞) ≤ n ∧ asks n
  | .error (.error _) | .ok none => ∀ n, ¬asks n
  | .ok (some d) => ∀ n, asks n ↔ n = d.nanos

/-- What is delivered can be started exactly if the clock can reach its end. -/
theorem Delivers.starts_iff {clock : Clock} {started : clock.Instant} {ε : Type} {asks : ℕ∞ → Prop}
    {result : Except (Stop ε) (Option Duration)} (delivers : Delivers asks result) :
    Starts started result ↔ ∀ n, asks n → (started.nanos : ℕ∞) + n < clock.limit := by
  cases result with
  | error stop =>
    cases stop with
    | panic =>
      obtain ⟨n, large, asked⟩ := delivers
      -- what no duration can hold is beyond every clock
      refine iff_of_false id fun fits => ?_
      have limit : (clock.limit : ℕ∞) ≤ (2 ^ 64 * 10 ^ 9 : ℕ) := by exact_mod_cast clock.bounded
      have below := (fits n asked).trans_le (limit.trans large)
      exact absurd (le_add_self.trans_lt below) (lt_irrefl n)
    | error e => exact iff_of_true trivial fun n asked => absurd asked (delivers n)
  | ok result =>
    cases result with
    | none => exact iff_of_true trivial fun n asked => absurd asked (delivers n)
    | some d =>
      simp only [Starts, IterationGate.startAt_new, forall_const]
      rw [forall_congr' fun n => imp_congr_left (delivers n), forall_eq]
      norm_cast

section Parsers

variable {humantime : String → Except String Duration} {toStringLossy : List UInt8 → String}

theorem nanosOf_representable {bits : UInt64} (fits : Duration.Representable bits) :
    nanosOf bits = (Ieee.scaled bits (10 ^ 9) : ℕ) := if_pos fits.1

/-- What `from_secs_f64` panics over is more than a duration can hold. -/
theorem nanosOf_large {bits : UInt64} (positive : Ieee.lt 0 bits = true)
    (large : ¬Duration.Representable bits) : ((2 ^ 64 * 10 ^ 9 : ℕ) : ℕ∞) ≤ nanosOf bits := by
  have nonneg : Ieee.le 0 bits = true := by
    simp only [Ieee.lt, Ieee.le, Bool.and_eq_true, decide_eq_true_eq] at positive ⊢
    exact ⟨positive.1, positive.2.le⟩
  rw [nanosOf]
  split
  next finite =>
    have beyond : ¬Ieee.truncated bits < 2 ^ 64 := fun below => large ⟨finite, nonneg, below⟩
    rw [← Ieee.scaled_lt_iff finite (c := 10 ^ 9) (by decide)] at beyond
    exact_mod_cast Nat.not_lt.mp beyond
  next => exact le_top

/-- `from_secs_f64` of a positive number. -/
theorem delivers_fromSecsF64 {ε : Type} {bits : UInt64} (positive : Ieee.lt 0 bits = true)
    {asks : ℕ∞ → Prop} (number : ∀ n, asks n ↔ n = nanosOf bits)
    {result : Except (Stop ε) (Option Duration)}
    (made : ∀ d, Duration.fromSecsF64 bits = some d → result = .ok (some d))
    (failed : Duration.fromSecsF64 bits = none → result = .error .panic) :
    Delivers asks result := by
  by_cases fits : Duration.Representable bits
  · obtain ⟨d, isMade⟩ := Option.ne_none_iff_exists'.mp
      (mt Duration.fromSecsF64_eq_none_iff.mp (not_not.mpr fits))
    rw [made d isMade]
    intro n
    rw [number, nanosOf_representable fits, Duration.fromSecsF64_nanos isMade]
  -- too large for a duration: the conversion panics
  · rw [failed (Duration.fromSecsF64_eq_none_iff.mpr fits)]
    exact ⟨nanosOf bits, nanosOf_large positive fits, (number _).mpr rfl⟩

/-- A positive integer of seconds. -/
theorem fromSecs_nanos {i : Int64} (positive : 0 < i) :
    (Duration.fromSecs i.toUInt64).nanos = i.toInt.toNat * 10 ^ 9 :=
  congrArg (· * 10 ^ 9) (Int64.toNat_toUInt64_of_le (Int64.le_of_lt positive))

/-- Scripts deliver the durations that they ask for. -/
theorem delivers_luaNumber (e : Lua.DurationError) (x : LuaNumber) :
    Delivers x.Asks
      ((Lua.durationFromValue humantime toStringLossy e x.toValue).map some) := by
  cases x with
  -- zero and below are refused with the message, so they ask for nothing
  | integer i =>
    by_cases positive : 0 < i
    · simp only [LuaNumber.toValue, Lua.durationFromValue, if_pos positive]
      intro n
      rw [fromSecs_nanos positive]
      exact and_iff_right positive
    · simp only [LuaNumber.toValue, Lua.durationFromValue, if_neg positive]
      exact fun n asked => positive asked.1
  | number bits =>
    by_cases positive : Ieee.lt 0 bits = true
    · simp only [LuaNumber.toValue, Lua.durationFromValue, if_pos positive,
        Lua.secondsFromNumber]
      refine delivers_fromSecsF64 positive (fun n => and_iff_right positive) ?_ ?_
      · intro d made
        rw [made]
        rfl
      · intro failed
        rw [failed]
        rfl
    · simp only [LuaNumber.toValue, Lua.durationFromValue, if_neg positive]
      exact fun n asked => positive asked.1

/-- So do the floats of a YAML file. -/
theorem delivers_yamlFloat (bits : UInt64) :
    Delivers (Given.yamlFloat bits).Asks
      ((YamlDuration.visitF64 bits).map fun d => some d.intoInner) := by
  unfold YamlDuration.visitF64
  split
  -- what is refused is not finite or not positive
  next refused =>
    rintro n ⟨finite, positive, -⟩
    rw [Ieee.lt_iff_le_eq_false rfl (Ieee.isNan_of_isFinite finite)] at positive
    simp [finite, positive] at refused
  next taken =>
    simp only [Bool.or_eq_true, Bool.not_eq_true', not_or, Bool.not_eq_false,
      Bool.not_eq_true] at taken
    have positive : Ieee.lt 0 bits = true :=
      (Ieee.lt_iff_le_eq_false rfl (Ieee.isNan_of_isFinite taken.1)).mpr taken.2
    refine delivers_fromSecsF64 positive (fun n => ?_) ?_ ?_
    · rw [Given.Asks, and_iff_right taken.1, and_iff_right positive]
    · intro d made
      rw [made]
      rfl
    · intro failed
      rw [failed]
      rfl

theorem delivers_yamlSigned (v : Int64) :
    Delivers (Given.yamlSigned v).Asks
      ((YamlDuration.visitI64 v).map fun d => some d.intoInner) := by
  unfold YamlDuration.visitI64
  split
  next refused => exact fun n asked => Int64.not_lt.mpr refused asked.1
  next taken =>
    have positive : 0 < v := Int64.not_le.mp taken
    intro n
    rw [fromSecs_nanos positive]
    exact and_iff_right positive

/-- And so does the command line. -/
theorem delivers_cli (input : String) :
    Delivers (Given.cli input).Asks (((parseDuration input).mapError Stop.error).map some) := by
  cases parsed : parseDuration input with
  -- a text that is not parsed asks for nothing
  | error e =>
    rintro n ⟨value, factor, written, small, fits, -⟩
    rw [parseDuration_ok_iff (d := ⟨value * factor, fits⟩) |>.mpr ⟨value, factor, written, small, rfl⟩]
      at parsed
    cases parsed
  | ok d =>
    obtain ⟨value, factor, written, small, nanos⟩ := parseDuration_ok_iff.mp parsed
    intro n
    constructor
    · -- the text stands for one duration only
      rintro ⟨value', factor', written', small', fits, rfl⟩
      have same := parseDuration_ok_iff (d := ⟨value' * factor', fits⟩) |>.mpr
        ⟨value', factor', written', small', rfl⟩
      rw [parsed] at same
      cases same
      rfl
    · rintro rfl
      exact ⟨value, factor, written, small, nanos ▸ d.bounded, by rw [nanos]⟩

/-- The runner does not panic over a duration exactly when what it asks for, if its parser lets it
pass, ends within the clock. -/
theorem no_panic_iff {clock : Clock} (started : clock.Instant) (given : Given) :
    given.NoPanic humantime toStringLossy started ↔
      ∀ n, given.Asks n → (started.nanos : ℕ∞) + n < clock.limit := by
  cases given with
  | luaDuration x =>
    have value : Lua.getDuration humantime toStringLossy (some x.toValue) =
        (Lua.durationFromValue humantime toStringLossy .invalidDuration x.toValue).map some := by
      cases x <;> rfl
    have delivers : Delivers x.Asks (Lua.getDuration humantime toStringLossy (some x.toValue)) := by
      rw [value]
      exact delivers_luaNumber .invalidDuration x
    exact delivers.starts_iff
  -- the first value that is there is the one that counts
  | luaAny before x rest skipped =>
    have delivers : Delivers x.Asks
        (Lua.getDurationAny humantime toStringLossy (before ++ some x.toValue :: rest)) := by
      rw [Lua.getDurationAny_skip skipped (by cases x <;> exact nofun)]
      exact delivers_luaNumber .invalidTimeUnit x
    exact delivers.starts_iff
  | yamlUnsigned v =>
    have delivers : Delivers (ε := String) (Given.yamlUnsigned v).Asks
        (.ok (some (Duration.fromSecs v))) := fun n => .rfl
    exact delivers.starts_iff
  | yamlSigned v => exact (delivers_yamlSigned v).starts_iff
  | yamlFloat bits => exact (delivers_yamlFloat bits).starts_iff
  | cli input => exact (delivers_cli input).starts_iff

end Parsers

/-- `duration = math.huge` in the options of a script. -/
theorem infinite_duration_panics :
    ¬Given.NoPanic (fun _ => .error "") (fun _ => "") (⟨0, by decide⟩ : Clock.unix.Instant)
      (.luaDuration (.number 0x7FF0000000000000)) := by
  have panics : Lua.getDuration (fun _ => .error "") (fun _ => "")
      (some (.number 0x7FF0000000000000)) = .error .panic := by decide
  rw [Given.NoPanic, LuaNumber.toValue, panics]
  exact id

end Wrkr.Cli
