import Mathlib.Algebra.Group.Nat.Defs
import Mathlib.Algebra.Ring.Int.Defs
import Mathlib.Data.Nat.Log

/-!
# Binary floating point

IEEE 754 numbers, on their bits: conversions between `binary32` and `binary64`, and between
`binary64` and integers, and comparison and rounding of `binary64`. Conversions round to nearest,
ties to even, and casts to integers truncate and saturate. Widening keeps every number
(`narrow_widen`); a NaN keeps the bits of its payload that the narrower format has.
-/
namespace Wrkr.Lib.Ieee

/-- `m / 2 ^ k`, rounded to nearest with ties to even. -/
def roundShift (m k : Nat) : Nat :=
  let rest := m % 2 ^ k
  if 2 * rest < 2 ^ k ∨ 2 * rest = 2 ^ k ∧ m / 2 ^ k % 2 = 0 then m / 2 ^ k else m / 2 ^ k + 1

/-! ### Between the formats -/

/-- The `binary64` magnitude of a `binary32` exponent and fraction. -/
def widenMagnitude (exponent fraction : Nat) : Nat :=
  if exponent = 255 then 2047 * 2 ^ 52 + fraction * 2 ^ 29
  else if exponent = 0 then
    -- a subnormal number gets an exponent of its own
    if fraction = 0 then 0
    else
      let k := fraction.log2
      (k + 874) * 2 ^ 52 + (fraction - 2 ^ k) * 2 ^ (52 - k)
  else (exponent + 896) * 2 ^ 52 + fraction * 2 ^ 29

/-- From `binary32` to `binary64`, which loses nothing. -/
def widen (x : UInt32) : UInt64 :=
  let n := x.toNat
  UInt64.ofNat (n / 2 ^ 31 * 2 ^ 63 + widenMagnitude (n / 2 ^ 23 % 2 ^ 8) (n % 2 ^ 23))

/-- To the nearest, ties to even; what is too large becomes infinite, and a NaN stays one. -/
def narrowMagnitude (exponent fraction : Nat) : Nat :=
  if exponent = 2047 then
    if fraction = 0 then 255 * 2 ^ 23
    else 255 * 2 ^ 23 + (if fraction / 2 ^ 29 = 0 then 2 ^ 22 else fraction / 2 ^ 29)
  else
    let significand := if exponent = 0 then fraction else 2 ^ 52 + fraction
    let e := max exponent 1
    -- below the smallest normal exponent the shift grows and the result is subnormal
    let rounded := roundShift significand (29 + (897 - e))
    min ((e - 897) * 2 ^ 23 + rounded) (255 * 2 ^ 23)

/-- From `binary64` to `binary32`. -/
def narrow (x : UInt64) : UInt32 :=
  let n := x.toNat
  UInt32.ofNat (n / 2 ^ 63 * 2 ^ 31 + narrowMagnitude (n / 2 ^ 52 % 2 ^ 11) (n % 2 ^ 52))

/-! ### Integers -/

/-- The nearest double to a natural number. -/
def ofNatMagnitude (n : Nat) : Nat :=
  let k := n.log2
  if n = 0 then 0
  else if k ≤ 52 then (k + 1023) * 2 ^ 52 + (n - 2 ^ k) * 2 ^ (52 - k)
  else (k + 1022) * 2 ^ 52 + roundShift n (k - 52)

def ofU64 (n : UInt64) : UInt64 := UInt64.ofNat (ofNatMagnitude n.toNat)

def ofI64 (i : Int64) : UInt64 :=
  UInt64.ofNat ((if i.toInt < 0 then 2 ^ 63 else 0) + ofNatMagnitude i.toInt.natAbs)

/-- The integral part of the absolute value; infinity counts as a number beyond every integer. -/
def truncated (x : UInt64) : Nat :=
  let exponent := x.toNat / 2 ^ 52 % 2 ^ 11
  let fraction := x.toNat % 2 ^ 52
  if exponent = 2047 then if fraction = 0 then 2 ^ 64 else 0
  else if exponent = 0 then 0
  else if exponent ≤ 1075 then (2 ^ 52 + fraction) / 2 ^ (1075 - exponent)
  else (2 ^ 52 + fraction) * 2 ^ (exponent - 1075)

/-- A cast to `u64`: towards zero, and saturating. -/
def toU64 (x : UInt64) : UInt64 :=
  if 2 ^ 63 ≤ x.toNat then 0 else UInt64.ofNat (min (truncated x) (2 ^ 64 - 1))

/-- A cast to `i64`: towards zero, and saturating. -/
def toI64 (x : UInt64) : Int64 :=
  if 2 ^ 63 ≤ x.toNat then Int64.ofInt (-(min (truncated x) (2 ^ 63) : Nat))
  else Int64.ofNat (min (truncated x) (2 ^ 63 - 1))

/-! ### Comparison and rounding of `binary64` -/

def isNan (x : UInt64) : Bool := 2047 * 2 ^ 52 < x.toNat % 2 ^ 63

def isFinite (x : UInt64) : Bool := x.toNat / 2 ^ 52 % 2 ^ 11 ≠ 2047

/-- The place of a number in the order; both zeros have place 0. -/
def place (x : UInt64) : Int :=
  let magnitude : Nat := x.toNat % 2 ^ 63
  if 2 ^ 63 ≤ x.toNat then -magnitude else magnitude

/-- `x < y`, which holds of no NaN. -/
def lt (x y : UInt64) : Bool := !isNan x && !isNan y && place x < place y

/-- `x <= y`. -/
def le (x y : UInt64) : Bool := !isNan x && !isNan y && place x ≤ place y

/-- `x == y`. -/
def eq (x y : UInt64) : Bool := !isNan x && !isNan y && place x = place y

/-- `x.fract() == 0.0` for a finite number. -/
def isIntegral (x : UInt64) : Bool :=
  let exponent := x.toNat / 2 ^ 52 % 2 ^ 11
  let fraction := x.toNat % 2 ^ 52
  if exponent = 0 then fraction = 0
  else if exponent ≤ 1075 then (2 ^ 52 + fraction) % 2 ^ (1075 - exponent) = 0
  else true

/-- The integral part of a finite number. -/
def integralPart (x : UInt64) : Int := if 2 ^ 63 ≤ x.toNat then -truncated x else truncated x

/-- To the nearest integer, ties away from zero. -/
def round (x : UInt64) : UInt64 :=
  let exponent := x.toNat / 2 ^ 52 % 2 ^ 11
  let fraction := x.toNat % 2 ^ 52
  -- from 2 ^ 52 on there are no fractional parts; infinity and NaN stay what they are
  if 1075 ≤ exponent then x
  else
    let k := 1075 - exponent
    let nearest := if exponent = 0 then 0 else (2 ^ 52 + fraction + 2 ^ (k - 1)) / 2 ^ k
    UInt64.ofNat (x.toNat / 2 ^ 63 * 2 ^ 63 + ofNatMagnitude nearest)

-- 2.5, -2.5 and 0.49999999999999994
example : [0x4004000000000000, 0xC004000000000000, 0x3FDFFFFFFFFFFFFF].map round =
    [0x4008000000000000, 0xC008000000000000, 0] := by decide

/-- The absolute value of a finite number, `c` times, to the nearest integer with ties to even. -/
def scaled (x : UInt64) (c : Nat) : Nat :=
  let exponent := x.toNat / 2 ^ 52 % 2 ^ 11
  let fraction := x.toNat % 2 ^ 52
  let significand := if exponent = 0 then fraction else 2 ^ 52 + fraction
  if 1075 ≤ exponent then significand * 2 ^ (exponent - 1075) * c
  else roundShift (significand * c) (1075 - max exponent 1)

-- 1.5 and 2.5 are ties, 0.1 is not exact
example : scaled 0x3FF8000000000000 1 = 2 ∧ scaled 0x4004000000000000 1 = 2 ∧
    scaled 0x3FB999999999999A (10 ^ 9) = 10 ^ 8 := by decide

theorem toU64_toNat (x : UInt64) :
    (toU64 x).toNat = min (integralPart x).toNat (2 ^ 64 - 1) := by
  rw [toU64, integralPart]
  split
  · simp
  · rw [UInt64.toNat_ofNat', Nat.mod_eq_of_lt (by omega), Int.toNat_natCast]

theorem toI64_toInt (x : UInt64) :
    (toI64 x).toInt = max (-2 ^ 63) (min (integralPart x) (2 ^ 63 - 1)) := by
  rw [toI64, integralPart]
  split
  · rw [Int64.toInt_ofInt_of_le (by omega) (by omega)]
    omega
  · rw [Int64.toInt_ofNat_of_lt (by omega)]
    omega

/-! ### Comparison -/

theorem isNan_of_isFinite {x : UInt64} (finite : isFinite x = true) : isNan x = false := by
  have notTop : x.toNat / 2 ^ 52 % 2 ^ 11 ≠ 2047 := by simpa [isFinite] using finite
  simp only [isNan, decide_eq_false_iff_not]
  omega

theorem lt_iff_le_eq_false {x y : UInt64} (number : isNan x = false) (number' : isNan y = false) :
    lt x y = true ↔ le y x = false := by
  simp [lt, le, number, number']

/-! ### Products -/

theorem roundShift_le (m k : Nat) : roundShift m k ≤ m / 2 ^ k + 1 := by
  simp only [roundShift]
  split <;> omega

/-- A product stays below a bound on the number when the bound is an integer beyond its precision. -/
theorem scaled_lt_iff {x : UInt64} (finite : isFinite x = true) {c : Nat} (positive : 0 < c) :
    scaled x c < 2 ^ 64 * c ↔ truncated x < 2 ^ 64 := by
  have notTop : x.toNat / 2 ^ 52 % 2 ^ 11 ≠ 2047 := by simpa [isFinite] using finite
  have fraction : x.toNat % 2 ^ 52 < 2 ^ 52 := Nat.mod_lt _ (Nat.two_pow_pos 52)
  simp only [scaled, truncated, notTop, if_false]
  generalize x.toNat / 2 ^ 52 % 2 ^ 11 = e at *
  generalize x.toNat % 2 ^ 52 = f at *
  -- from this exponent on the number is an integer and nothing is cut
  by_cases large : 1075 ≤ e
  · have normal : e ≠ 0 := by omega
    rw [if_pos large, if_neg normal, if_neg normal, Nat.mul_lt_mul_right positive]
    split
    next least =>
      have same : e = 1075 := by omega
      simp [same]
    next => rfl
  · -- below 2 ^ 53 both sides hold
    rw [if_neg large]
    have whole : (if e = 0 then 0
        else if e ≤ 1075 then (2 ^ 52 + f) / 2 ^ (1075 - e)
        else (2 ^ 52 + f) * 2 ^ (e - 1075)) < 2 ^ 64 := by
      split
      · exact Nat.two_pow_pos 64
      · rw [if_pos (by omega)]
        exact lt_of_le_of_lt (Nat.div_le_self ..) (by omega)
    refine iff_of_true ?_ whole
    have significand : (if e = 0 then f else 2 ^ 52 + f) < 2 ^ 53 := by split <;> omega
    have product := (Nat.mul_lt_mul_right positive).mpr significand
    have rounded := roundShift_le ((if e = 0 then f else 2 ^ 52 + f) * c) (1075 - max e 1)
    have quotient := Nat.div_le_self ((if e = 0 then f else 2 ^ 52 + f) * c) (2 ^ (1075 - max e 1))
    omega

/-! ### Widening loses nothing -/

theorem roundShift_mul (m k : Nat) : roundShift (m * 2 ^ k) k = m := by
  have power : 0 < 2 ^ k := Nat.two_pow_pos k
  simp [roundShift, Nat.mul_div_cancel m power]

theorem roundShift_zero (k : Nat) : roundShift 0 k = 0 := by
  simpa using roundShift_mul 0 k

/-- What was widened from a subnormal number comes back. -/
theorem narrow_subnormal {fraction : Nat} (some : fraction ≠ 0) (low : fraction < 2 ^ 23) :
    let k := fraction.log2
    k + 874 < 2 ^ 11 ∧ (fraction - 2 ^ k) * 2 ^ (52 - k) < 2 ^ 52 ∧
      narrowMagnitude (k + 874) ((fraction - 2 ^ k) * 2 ^ (52 - k)) = fraction := by
  intro k
  have above : 2 ^ k ≤ fraction := Nat.log2_self_le some
  have below : fraction < 2 ^ (k + 1) := Nat.lt_log2_self
  have small : k < 23 := (Nat.log2_lt some).mpr low
  have power : 2 ^ k * 2 ^ (52 - k) = 2 ^ 52 := by
    rw [← Nat.pow_add]
    congr 1
    omega
  -- the shift back takes away exactly the zeros that the widening has added
  have significand : 2 ^ 52 + (fraction - 2 ^ k) * 2 ^ (52 - k) = fraction * 2 ^ (52 - k) := by
    rw [Nat.sub_mul, power]
    have part : 2 ^ 52 ≤ fraction * 2 ^ (52 - k) := power ▸ Nat.mul_le_mul_right _ above
    omega
  refine ⟨by omega, ?_, ?_⟩
  · have rest : fraction - 2 ^ k < 2 ^ k := by
      rw [Nat.pow_succ] at below
      omega
    exact power ▸ Nat.mul_lt_mul_of_pos_right rest (Nat.two_pow_pos _)
  · have shift : 29 + (897 - max (k + 874) 1) = 52 - k := by omega
    have normal : max (k + 874) 1 - 897 = 0 := by omega
    have notTop : k + 874 ≠ 2047 := by omega
    have notZero : k + 874 ≠ 0 := by omega
    simp only [narrowMagnitude, notTop, notZero, ↓reduceIte, significand, shift, normal,
      roundShift_mul]
    omega

theorem narrow_normal {exponent fraction : Nat} (some : exponent ≠ 0) (finite : exponent < 255)
    (low : fraction < 2 ^ 23) :
    narrowMagnitude (exponent + 896) (fraction * 2 ^ 29) = exponent * 2 ^ 23 + fraction := by
  have significand : 2 ^ 52 + fraction * 2 ^ 29 = (2 ^ 23 + fraction) * 2 ^ 29 := by omega
  have shift : 29 + (897 - max (exponent + 896) 1) = 29 := by omega
  have normal : max (exponent + 896) 1 - 897 = exponent - 1 := by omega
  have notTop : exponent + 896 ≠ 2047 := by omega
  have notZero : exponent + 896 ≠ 0 := by omega
  simp only [narrowMagnitude, notTop, notZero, ↓reduceIte, significand, shift, normal,
    roundShift_mul]
  omega

/-- The widened magnitude has an exponent and a fraction that narrow to the original. -/
theorem widenMagnitude_spec (exponent fraction : Nat) (top : exponent < 2 ^ 8)
    (low : fraction < 2 ^ 23) :
    ∃ exponent' fraction', widenMagnitude exponent fraction = exponent' * 2 ^ 52 + fraction' ∧
      exponent' < 2 ^ 11 ∧ fraction' < 2 ^ 52 ∧
      narrowMagnitude exponent' fraction' = exponent * 2 ^ 23 + fraction := by
  unfold widenMagnitude
  split
  -- infinities and NaNs keep their payload
  next special =>
    refine ⟨2047, fraction * 2 ^ 29, rfl, by decide, by omega, ?_⟩
    subst special
    by_cases infinite : fraction = 0
    · simp [narrowMagnitude, infinite]
    · have payload : fraction * 2 ^ 29 / 2 ^ 29 = fraction := by omega
      have some : fraction * 2 ^ 29 ≠ 0 := by omega
      simp only [narrowMagnitude, ↓reduceIte, some, payload, infinite]
  next notTop =>
    split
    -- a subnormal number of the small format is a normal one of the large format
    next zero =>
      subst zero
      split
      next none =>
        subst none
        exact ⟨0, 0, rfl, by decide, by decide, by simp [narrowMagnitude, roundShift_zero]⟩
      next some =>
        obtain ⟨small, below, back⟩ := narrow_subnormal some low
        exact ⟨_, _, rfl, small, below, by simpa using back⟩
    next some =>
      exact ⟨_, _, rfl, by omega, by omega, narrow_normal some (by omega) low⟩

/-- Widening loses nothing. -/
theorem narrow_widen (x : UInt32) : narrow (widen x) = x := by
  have bound := x.toNat_lt
  obtain ⟨exponent, fraction, isWide, top, low, back⟩ :=
    widenMagnitude_spec (x.toNat / 2 ^ 23 % 2 ^ 8) (x.toNat % 2 ^ 23)
      (Nat.mod_lt _ (by decide)) (Nat.mod_lt _ (by decide))
  have wide : (widen x).toNat = x.toNat / 2 ^ 31 * 2 ^ 63 + (exponent * 2 ^ 52 + fraction) := by
    rw [widen, isWide, UInt64.toNat_ofNat']
    omega
  have sign : (widen x).toNat / 2 ^ 63 = x.toNat / 2 ^ 31 := by omega
  have isExponent : (widen x).toNat / 2 ^ 52 % 2 ^ 11 = exponent := by omega
  have isFraction : (widen x).toNat % 2 ^ 52 = fraction := by omega
  apply UInt32.toNat_inj.mp
  rw [narrow, sign, isExponent, isFraction, back, UInt32.toNat_ofNat']
  omega

/-! ### Casts of integers keep their order of magnitude -/

/-- Rounding keeps the order. -/
theorem roundShift_mono {m m' : Nat} (le : m ≤ m') (k : Nat) : roundShift m k ≤ roundShift m' k := by
  have quotients : m / 2 ^ k ≤ m' / 2 ^ k := Nat.div_le_div_right le
  simp only [roundShift]
  rcases Nat.lt_or_eq_of_le quotients with lt | same
  · split <;> split <;> omega
  · -- in the same interval the larger rest rounds up when the smaller does
    have rest : m % 2 ^ k ≤ m' % 2 ^ k := by
      have left := Nat.div_add_mod m (2 ^ k)
      have right := Nat.div_add_mod m' (2 ^ k)
      rw [same] at left
      omega
    rw [same]
    split <;> split <;> omega

theorem roundShift_bounds {m k e : Nat} (low : 2 ^ (k + e) ≤ m) (high : m < 2 ^ (k + e + 1)) :
    2 ^ e ≤ roundShift m k ∧ roundShift m k ≤ 2 ^ (e + 1) := by
  have below := roundShift_mono low k
  have above := roundShift_mono (Nat.le_of_lt high) k
  have lower : 2 ^ (k + e) = 2 ^ e * 2 ^ k := by rw [Nat.add_comm, Nat.pow_add]
  have upper : 2 ^ (k + e + 1) = 2 ^ (e + 1) * 2 ^ k := by
    rw [Nat.add_assoc, Nat.add_comm, Nat.pow_add]
  rw [lower, roundShift_mul] at below
  rw [upper, roundShift_mul] at above
  exact ⟨below, above⟩

/-- The magnitude of an integer is between those of the powers of two around it. -/
theorem ofNatMagnitude_bounds {n : Nat} (some : n ≠ 0) :
    (n.log2 + 1023) * 2 ^ 52 ≤ ofNatMagnitude n ∧
      ofNatMagnitude n ≤ (n.log2 + 1024) * 2 ^ 52 := by
  have low : 2 ^ n.log2 ≤ n := Nat.log2_self_le some
  have high : n < 2 ^ (n.log2 + 1) := Nat.lt_log2_self
  simp only [ofNatMagnitude, some, if_false]
  split
  next small =>
    have fraction : (n - 2 ^ n.log2) * 2 ^ (52 - n.log2) ≤ 2 ^ 52 := by
      have power : 2 ^ n.log2 * 2 ^ (52 - n.log2) = 2 ^ 52 := by
        rw [← Nat.pow_add]
        congr 1
        omega
      rw [← power]
      apply Nat.mul_le_mul_right
      rw [Nat.pow_succ] at high
      omega
    omega
  -- more than 53 bits are rounded, to the next power of two at most
  next large =>
    have split : n.log2 = (n.log2 - 52) + 52 := by omega
    obtain ⟨below, above⟩ := roundShift_bounds (m := n) (k := n.log2 - 52) (e := 52)
      (by rw [← split]; exact low) (by rw [← split]; exact high)
    omega

theorem roundShift_double (m k : Nat) : roundShift (2 * m) (k + 1) = roundShift m k := by
  have power : 2 ^ (k + 1) = 2 * 2 ^ k := by rw [Nat.pow_succ, Nat.mul_comm]
  have quotient : 2 * m / (2 * 2 ^ k) = m / 2 ^ k := Nat.mul_div_mul_left _ _ (by decide)
  have rest : 2 * m % (2 * 2 ^ k) = 2 * (m % 2 ^ k) := Nat.mul_mod_mul_left _ _ _
  simp only [roundShift, power, quotient, rest]
  split <;> split <;> omega

/-- A number of at least twice the size has a larger magnitude, however both are rounded. -/
theorem ofNatMagnitude_lt_double {n m : Nat} (some : n ≠ 0) (le : n ≤ m) :
    ofNatMagnitude n < ofNatMagnitude (2 * m) := by
  have some' : m ≠ 0 := by omega
  have double : (2 * m).log2 = m.log2 + 1 := Nat.log2_two_mul some'
  obtain ⟨-, above⟩ := ofNatMagnitude_bounds some
  obtain ⟨below, -⟩ := ofNatMagnitude_bounds (n := 2 * m) (by omega)
  rw [double] at below
  have logs : n.log2 ≤ m.log2 := by
    rw [Nat.le_log2 some']
    exact Nat.le_trans (Nat.log2_self_le some) le
  -- a whole power of two between them is more than rounding can bridge
  rcases Nat.lt_or_eq_of_le logs with lt | same
  · omega
  · by_cases small : n.log2 ≤ 52
    · -- without rounding the magnitude stays below that of the next power of two
      have high : n < 2 ^ (n.log2 + 1) := Nat.lt_log2_self
      have fraction : (n - 2 ^ n.log2) * 2 ^ (52 - n.log2) < 2 ^ 52 := by
        have power : 2 ^ n.log2 * 2 ^ (52 - n.log2) = 2 ^ 52 := by
          rw [← Nat.pow_add]
          congr 1
          omega
        have rest : n - 2 ^ n.log2 < 2 ^ n.log2 := by
          rw [Nat.pow_succ] at high
          omega
        exact power ▸ Nat.mul_lt_mul_of_pos_right rest (Nat.two_pow_pos _)
      have isLinear : ofNatMagnitude n =
          (n.log2 + 1023) * 2 ^ 52 + (n - 2 ^ n.log2) * 2 ^ (52 - n.log2) := by
        simp only [ofNatMagnitude, some, small, if_true, if_false]
      omega
    -- beyond 53 bits both are rounded at the same place, and rounding is monotone
    · have rounded := roundShift_mono le (n.log2 - 52)
      have shift : m.log2 + 1 - 52 = (n.log2 - 52) + 1 := by omega
      have large : ¬m.log2 + 1 ≤ 52 := by omega
      have some'' : 2 * m ≠ 0 := by omega
      simp only [ofNatMagnitude, some, some'', small, large, if_false, double, shift,
        roundShift_double]
      omega

/-- A number and one at least twice as large are different doubles. -/
theorem ofU64_ne_double {n m : UInt64} (some : n ≠ 0) (twice : 2 * n.toNat ≤ m.toNat)
    (even : m.toNat % 2 = 0) : ofU64 m ≠ ofU64 n := by
  have small (v : UInt64) : ofNatMagnitude v.toNat < 2 ^ 64 := by
    by_cases zero : v.toNat = 0
    · rw [zero]
      decide
    · obtain ⟨-, above⟩ := ofNatMagnitude_bounds zero
      have log : v.toNat.log2 < 64 := (Nat.log2_lt zero).mpr v.toNat_lt
      omega
  intro same
  have positive : n.toNat ≠ 0 := fun zero => some (UInt64.toNat_inj.mp zero)
  have numbers := congrArg UInt64.toNat same
  rw [ofU64, ofU64, UInt64.toNat_ofNat', UInt64.toNat_ofNat', Nat.mod_eq_of_lt (small m),
    Nat.mod_eq_of_lt (small n)] at numbers
  have half : m.toNat = 2 * (m.toNat / 2) := by omega
  -- twice as large a number has a larger exponent
  have larger := ofNatMagnitude_lt_double positive (m := m.toNat / 2) (by omega)
  rw [← half] at larger
  omega

end Wrkr.Lib.Ieee
