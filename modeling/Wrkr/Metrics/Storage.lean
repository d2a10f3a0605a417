import Mathlib.Algebra.Group.Nat.Defs
import Mathlib.Data.List.Sort

/-!
# Metric storage

The cells behind the metrics: counters and gauges are atomics, a rate is a pair of them, and a
histogram is guarded by a mutex. The histogram itself is `hdrhistogram::Histogram<u64>`, of which
`HdrHistogram` lists the operations in use and `HdrHistogram.Lawful` the behaviour relied on.
-/
namespace Wrkr.Metrics

inductive MetricKind
  | counter
  | gauge
  | rate
  | histogram
  deriving DecidableEq, Repr

/-- `u64::saturating_add`. -/
def saturatingAdd (a b : UInt64) : UInt64 :=
  if a.toNat + b.toNat < 2 ^ 64 then a + b else UInt64.ofNat (2 ^ 64 - 1)

theorem saturatingAdd_toNat (a b : UInt64) :
    (saturatingAdd a b).toNat = min (a.toNat + b.toNat) (2 ^ 64 - 1) := by
  unfold saturatingAdd
  split
  next fits =>
    rw [UInt64.toNat_add, Nat.mod_eq_of_lt fits]
    omega
  next =>
    rw [UInt64.toNat_ofNat']
    omega

theorem add_toNat {a b : UInt64} (fits : a.toNat + b.toNat < 2 ^ 64) :
    (a + b).toNat = a.toNat + b.toNat := by
  rw [UInt64.toNat_add, Nat.mod_eq_of_lt fits]

/-- The operations on histograms over `1..=3_600_000_000` with three significant digits. `H` is
the type of these histograms and `F` is `f64`. -/
structure HdrHistogram (H F : Type) where
  newDefaultHistogram : H
  /-- `none` is the error for a value out of range, which leaves the histogram as it was. -/
  record : H → UInt64 → Option H
  /-- Merge the second histogram into the first; with equal bounds this cannot fail. -/
  add : H → H → H
  len : H → UInt64
  /-- `value_at_quantile` at a whole percentage. -/
  valueAtPercent : H → Nat → UInt64
  min : H → UInt64
  max : H → UInt64
  mean : H → F
  stdev : H → F
  /-- The cast `v as f64`. -/
  ofU64 : UInt64 → F

namespace HdrHistogram

variable {H F : Type}

/-- `record` takes the value. -/
def accepts (hdr : HdrHistogram H F) (v : UInt64) : Bool :=
  (hdr.record hdr.newDefaultHistogram v).isSome

/-- `record` accepts a value or not whatever was recorded before, accepts everything within the
bounds and counts what it accepts; `add` adds the counts. -/
structure Lawful (hdr : HdrHistogram H F) : Prop where
  len_new : hdr.len hdr.newDefaultHistogram = 0
  record_isSome : ∀ h v, (hdr.record h v).isSome = hdr.accepts v
  accepts_bounds : ∀ v : UInt64, 1 ≤ v.toNat → v.toNat ≤ 3600000000 → hdr.accepts v = true
  len_record : ∀ h h' v, hdr.record h v = some h' → (hdr.len h).toNat + 1 < 2 ^ 64 →
    (hdr.len h').toNat = (hdr.len h).toNat + 1
  len_add : ∀ a b, (hdr.len a).toNat + (hdr.len b).toNat < 2 ^ 64 →
    (hdr.len (hdr.add a b)).toNat = (hdr.len a).toNat + (hdr.len b).toNat

/-- Counts saturate, so a merge with values in it is never empty. -/
def SaturatingAdd (hdr : HdrHistogram H F) : Prop :=
  ∀ a b, hdr.len a ≠ 0 ∨ hdr.len b ≠ 0 → hdr.len (hdr.add a b) ≠ 0

/-- Histograms that keep every value they accept, without the rounding of large values. They refuse
what is above the upper bound; the real ones, which round up to whole buckets, still take the values
from there to 4294967295. -/
def exact : HdrHistogram (List UInt64) Float where
  newDefaultHistogram := []
  record h v := if v.toNat ≤ 3600000000 then some (v :: h) else none
  add a b := b ++ a
  len h := UInt64.ofNat h.length
  valueAtPercent h p :=
    let rank := (p * h.length + 99) / 100
    (h.insertionSort (· ≤ ·))[rank - 1]?.getD 0
  min h := (h.insertionSort (· ≤ ·)).head?.getD 0
  max h := (h.insertionSort (· ≤ ·)).getLast?.getD 0
  mean h := (h.map UInt64.toFloat).sum / h.length.toFloat
  stdev h :=
    let mean := (h.map UInt64.toFloat).sum / h.length.toFloat
    ((h.map fun v => (v.toFloat - mean) * (v.toFloat - mean)).sum / h.length.toFloat).sqrt
  ofU64 := UInt64.toFloat

theorem lawful_exact : exact.Lawful := by
  constructor
  · rfl
  · intro h v
    simp only [accepts, exact]
    split <;> rfl
  · intro v _ high
    simp [accepts, exact, high]
  · intro h h' v recorded fits
    simp only [exact] at recorded fits ⊢
    split at recorded
    · cases recorded
      simp only [List.length_cons, UInt64.toNat_ofNat'] at fits ⊢
      omega
    · simp at recorded
  · intro a b fits
    simp only [exact, List.length_append, UInt64.toNat_ofNat'] at fits ⊢
    omega

end HdrHistogram

structure HistogramSummary (F : Type) where
  p50 : Option F
  p75 : Option F
  p90 : Option F
  p95 : Option F
  p99 : Option F
  min : Option F
  max : Option F
  mean : Option F
  stdev : Option F
  count : UInt64

variable {H F : Type} (hdr : HdrHistogram H F)

def summarizeHistogram (h : H) : HistogramSummary F :=
  let count := hdr.len h
  let whenAny (v : F) : Option F := if count > 0 then some v else none
  { p50 := whenAny (hdr.ofU64 (hdr.valueAtPercent h 50))
    p75 := whenAny (hdr.ofU64 (hdr.valueAtPercent h 75))
    p90 := whenAny (hdr.ofU64 (hdr.valueAtPercent h 90))
    p95 := whenAny (hdr.ofU64 (hdr.valueAtPercent h 95))
    p99 := whenAny (hdr.ofU64 (hdr.valueAtPercent h 99))
    min := whenAny (hdr.ofU64 (hdr.min h))
    max := whenAny (hdr.ofU64 (hdr.max h))
    mean := whenAny (hdr.mean h)
    stdev := whenAny (hdr.stdev h)
    count }

/-- What an `Arc` of a `MetricStorage` points to. -/
inductive Cell (H : Type)
  | counter (v : UInt64)
  | gauge (v : Int64)
  | rate (total hits : UInt64)
  | histogram (h : H)
  deriving DecidableEq, Repr

namespace Cell

/-- `MetricStorage::new`. -/
def new : MetricKind → Cell H
  | .counter => .counter 0
  | .gauge => .gauge 0
  | .rate => .rate 0 0
  | .histogram => .histogram hdr.newDefaultHistogram

/-- `c.fetch_add(value)` on a counter. -/
def fetchAdd (value : UInt64) : Cell H → Cell H
  | .counter v => .counter (v + value)
  | cell => cell

/-- `g.fetch_add(value)` on a gauge. -/
def gaugeAdd (value : Int64) : Cell H → Cell H
  | .gauge v => .gauge (v + value)
  | cell => cell

/-- `g.fetch_sub(value)` on a gauge. -/
def gaugeSub (value : Int64) : Cell H → Cell H
  | .gauge v => .gauge (v - value)
  | cell => cell

/-- A new value for a gauge. -/
def gaugeStore (value : Int64) : Cell H → Cell H
  | .gauge _ => .gauge value
  | cell => cell

/-- `r.hits.fetch_add(hits)` and `r.total.fetch_add(total)` on a rate. -/
def addRate (hits total : UInt64) : Cell H → Cell H
  | .rate t h => .rate (t + total) (h + hits)
  | cell => cell

/-- `let _ = h.lock().record(value)` on a histogram. -/
def record (value : UInt64) : Cell H → Cell H
  | .histogram h => .histogram ((hdr.record h value).getD h)
  | cell => cell

/-- The load of a counter; other variants have none. -/
def counter? : Cell H → Option UInt64
  | .counter v => some v
  | _ => none

def gauge? : Cell H → Option Int64
  | .gauge v => some v
  | _ => none

def histogram? : Cell H → Option H
  | .histogram h => some h
  | _ => none

end Cell

end Wrkr.Metrics
