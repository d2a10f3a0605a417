import Mathlib.Order.Compare
import Wrkr.Core.RunScenarios
import Wrkr.Core.Scenarios
import Wrkr.Lib.BinarySearch
import Wrkr.Lib.Saturating

/-!
# Ramping schedules

`RampingU64Schedule` interpolates linearly between the targets of its stages. The stage of a
time is found by a binary search over the cumulative ends, which repeat where a stage has no
length. Indexing panics out of bounds, which is `none` here.
-/
namespace Wrkr.Core

open Wrkr.Lib

/-- The loop of `RampingU64Schedule::new`. -/
def cumulativeEndsFrom (acc : Duration) : List Stage → List Duration
  | [] => []
  | s :: stages =>
    let acc := acc.saturatingAdd s.duration
    acc :: cumulativeEndsFrom acc stages

/-- The fields are private, and `new` is the only constructor. -/
structure RampingU64Schedule where
  start : UInt64
  stages : List Stage
  cumulativeEnds : List Duration
  cumulative : cumulativeEnds = cumulativeEndsFrom .zero stages

/-- What is read of the stage that a time lies in. -/
structure CurrentStage where
  stageStart : Duration
  stageEnd : Duration
  startTarget : UInt64
  endTarget : UInt64
  deriving DecidableEq, Repr

namespace CurrentStage

variable (stage : CurrentStage)

def stageDuration : Duration := stage.stageEnd.saturatingSub stage.stageStart

def stageElapsed (elapsed : Duration) : Duration := elapsed.saturatingSub stage.stageStart

/-- Linear interpolation across the stage, in `i128`. -/
def interpolate (elapsed : Duration) : UInt64 :=
  if stage.stageDuration.isZero then stage.endTarget
  else
    let startI : Int := stage.startTarget.toNat
    let endI : Int := stage.endTarget.toNat
    let delta := endI - startI
    let num : Int := (stage.stageElapsed elapsed).nanos
    let den : Int := stage.stageDuration.nanos
    let cur := startI + proportion 128 delta num (max den 1)
    UInt64.ofNat (max 0 (min cur (2 ^ 64 - 1))).toNat

def defaultSleep : Duration := .fromMillis 50

/-- How long a VU sleeps that finds `curTarget` at `elapsed`. -/
def recheckIn (elapsed : Duration) (vuIndex curTarget : UInt64) : Duration :=
  if vuIndex ≤ curTarget then .fromMillis 1
  -- a falling target does not reach the VU in this stage
  else if stage.endTarget ≤ stage.startTarget then
    (stage.stageEnd.saturatingSub elapsed).min defaultSleep
  else
    let startI : Int := stage.startTarget.toNat
    let endI : Int := stage.endTarget.toNat
    let want : Int := vuIndex.toNat
    let delta := endI - startI
    if delta ≤ 0 then defaultSleep
    else if want ≤ startI then .fromMillis 0
    else if endI < want then (stage.stageEnd.saturatingSub elapsed).min defaultSleep
    else
      let stageNs : Int := stage.stageDuration.nanos
      let elapsedNs : Int := (stage.stageElapsed elapsed).nanos
      let neededNs := max (proportion 128 (want - startI) stageNs delta) 0
      let waitNs := max (saturate 128 (neededNs - elapsedNs)) 0
      let wait := Duration.fromNanos (UInt64.ofNat (min waitNs (2 ^ 64 - 1)).toNat)
      wait.min defaultSleep

end CurrentStage

namespace RampingU64Schedule

/-- The ends are precomputed, one for each stage, so that a lookup is a binary search. -/
def new (start : UInt64) (stages : List Stage) : RampingU64Schedule :=
  ⟨start, stages, cumulativeEndsFrom .zero stages, rfl⟩

variable (search : BinarySearch Duration) (s : RampingU64Schedule)

/-- The end of the last stage, nothing without stages. -/
def totalDuration : Duration := s.cumulativeEnds.getLast?.getD .zero

def isDone (elapsed : Duration) : Bool := s.totalDuration.nanos ≤ elapsed.nanos

/-- The stage that ends at this time or as the first one after it. -/
def stageIndex (elapsed : Duration) : Nat :=
  search.index (fun stageEnd => compare stageEnd.nanos elapsed.nanos) s.cumulativeEnds

/-- The stage with the end and the target of the one before it, as they are read for an
interpolation. -/
def stageAt (idx : Nat) : Option CurrentStage := do
  let stageEnd ← s.cumulativeEnds[idx]?
  let stageStart ← if idx = 0 then some .zero else s.cumulativeEnds[idx - 1]?
  let stage ← s.stages[idx]?
  let startTarget ← if idx = 0 then some s.start else s.stages[idx - 1]?.map Stage.target
  some ⟨stageStart, stageEnd, startTarget, stage.target⟩

/-- The two shortcuts, the time after the end, and else the interpolation in the stage of that
time. -/
def targetAt (elapsed : Duration) : Option UInt64 :=
  if s.stages = [] then some s.start
  else if elapsed = .zero then some s.start
  else if s.totalDuration.nanos ≤ elapsed.nanos then
    some ((s.stages.getLast?.map Stage.target).getD s.start)
  else do
    let stage ← s.stageAt (s.stageIndex search elapsed)
    some (stage.interpolate elapsed)

/-- How long a VU above the target may sleep: until its stage could have come up to it. -/
def nextRecheckIn (elapsed : Duration) (vuIndex : UInt64) : Option Duration :=
  if s.stages = [] then some CurrentStage.defaultSleep
  else if s.totalDuration.nanos ≤ elapsed.nanos then some .zero
  else do
    let stage ← s.stageAt (s.stageIndex search elapsed)
    let curTarget ← s.targetAt search elapsed
    some (stage.recheckIn elapsed vuIndex curTarget)

end RampingU64Schedule

/-! ### The cumulative ends -/

/-- When the first `n` stages are over: the saturating sum of their durations. -/
def endOf (stages : List Stage) (n : Nat) : Nat :=
  min ((stages.take n).map (·.duration.nanos)).sum Duration.max.nanos

/-- The target at the end of the first `n` stages. -/
def targetAfter (start : UInt64) (stages : List Stage) (n : Nat) : UInt64 :=
  (start :: stages.map Stage.target).getD n start

theorem Duration.nanos_inj {a b : Duration} : a.nanos = b.nanos ↔ a = b := by
  cases a
  cases b
  simp

theorem Duration.nanos_pos_iff {d : Duration} : 0 < d.nanos ↔ d ≠ .zero := by
  rw [Nat.pos_iff_ne_zero, ne_eq, ne_eq, ← Duration.nanos_inj]
  rfl

@[simp] theorem Duration.saturatingAdd_nanos (a b : Duration) :
    (a.saturatingAdd b).nanos = min (a.nanos + b.nanos) Duration.max.nanos := by
  rw [Duration.saturatingAdd]
  split_ifs with bounded
  · exact (min_eq_left (Nat.le_sub_one_of_lt bounded)).symm
  · exact (min_eq_right ((Nat.sub_le _ 1).trans (Nat.le_of_not_lt bounded))).symm

@[simp] theorem Duration.saturatingSub_nanos (a b : Duration) :
    (a.saturatingSub b).nanos = a.nanos - b.nanos := rfl

@[simp] theorem Duration.min_nanos (a b : Duration) :
    (a.min b).nanos = min a.nanos b.nanos := by
  rw [Duration.min, apply_ite Duration.nanos]
  rfl

theorem length_cumulativeEndsFrom (acc : Duration) (stages : List Stage) :
    (cumulativeEndsFrom acc stages).length = stages.length := by
  induction stages generalizing acc with
  | nil => rfl
  | cons stage stages ih => rw [cumulativeEndsFrom, List.length_cons, ih, List.length_cons]

/-- The ends are the sums of the durations so far, capped at the largest duration. -/
theorem cumulativeEndsFrom_nanos (acc : Duration) (stages : List Stage) (i : Nat) (stageEnd : Duration)
    (here : (cumulativeEndsFrom acc stages)[i]? = some stageEnd) :
    stageEnd.nanos =
      min (acc.nanos + ((stages.take (i + 1)).map (·.duration.nanos)).sum) Duration.max.nanos := by
  induction stages generalizing acc i with
  | nil => simp [cumulativeEndsFrom] at here
  | cons stage stages ih =>
    cases i with
    | zero =>
      cases here
      simp
    | succ i =>
      rw [ih (acc.saturatingAdd stage.duration) i here]
      simp only [Duration.saturatingAdd_nanos, List.take_succ_cons, List.map_cons, List.sum_cons]
      -- what is beyond the largest duration stays there
      omega

theorem endOf_mono (stages : List Stage) {m n : Nat} (le : m ≤ n) :
    endOf stages m ≤ endOf stages n := by
  have sums : ((stages.take m).map (·.duration.nanos)).sum ≤
      ((stages.take n).map (·.duration.nanos)).sum :=
    ((List.take_sublist_take_left le).map _).sum_le_sum fun _ _ => Nat.zero_le _
  exact min_le_min sums le_rfl

@[simp] theorem endOf_zero (stages : List Stage) : endOf stages 0 = 0 := by simp [endOf]

namespace RampingU64Schedule

variable (s : RampingU64Schedule)

theorem length_cumulativeEnds : s.cumulativeEnds.length = s.stages.length := by
  rw [s.cumulative, length_cumulativeEndsFrom]

theorem cumulativeEnds_nanos {i : Nat} {stageEnd : Duration}
    (here : s.cumulativeEnds[i]? = some stageEnd) :
    stageEnd.nanos = endOf s.stages (i + 1) := by
  rw [s.cumulative] at here
  rw [cumulativeEndsFrom_nanos _ _ _ _ here, endOf]
  simp [Duration.zero]

theorem exists_cumulativeEnd {i : Nat} (inside : i < s.stages.length) :
    ∃ stageEnd, s.cumulativeEnds[i]? = some stageEnd ∧ stageEnd.nanos = endOf s.stages (i + 1) := by
  have here : s.cumulativeEnds[i]? = some _ :=
    List.getElem?_eq_getElem (s.length_cumulativeEnds ▸ inside)
  exact ⟨_, here, s.cumulativeEnds_nanos here⟩

theorem totalDuration_nanos : s.totalDuration.nanos = endOf s.stages s.stages.length := by
  rw [totalDuration, List.getLast?_eq_getElem?, s.length_cumulativeEnds]
  rcases Nat.eq_zero_or_pos s.stages.length with none | some
  · have empty : s.cumulativeEnds = [] :=
      List.length_eq_zero_iff.mp (s.length_cumulativeEnds.trans none)
    rw [none, empty, endOf_zero]
    rfl
  · obtain ⟨stageEnd, here, nanos⟩ := s.exists_cumulativeEnd (Nat.sub_lt some Nat.one_pos)
    rw [here, Option.getD_some, nanos, Nat.sub_add_cancel some]

/-- The ends never fall, so every time divides them. -/
theorem divided (elapsed : Duration) :
    Divided (fun stageEnd : Duration => compare stageEnd.nanos elapsed.nanos) s.cumulativeEnds := by
  refine List.pairwise_iff_getElem.mpr fun i j hi hj before => ?_
  have le : s.cumulativeEnds[i].nanos ≤ s.cumulativeEnds[j].nanos := by
    rw [s.cumulativeEnds_nanos (List.getElem?_eq_getElem hi),
      s.cumulativeEnds_nanos (List.getElem?_eq_getElem hj)]
    exact endOf_mono s.stages (by omega)
  simp only [compare_lt_iff_lt, compare_gt_iff_gt]
  omega

/-! ### The stage of a time -/

/-- A stage runs from the end of the one before, and from its target to its own. -/
theorem stageAt_spec {i : Nat} (inside : i < s.stages.length) :
    ∃ stage, s.stageAt i = some stage ∧ stage.stageStart.nanos = endOf s.stages i ∧
      stage.stageEnd.nanos = endOf s.stages (i + 1) ∧
      stage.startTarget = targetAfter s.start s.stages i ∧
      stage.endTarget = targetAfter s.start s.stages (i + 1) := by
  obtain ⟨stageEnd, here, ends⟩ := s.exists_cumulativeEnd inside
  have stage : s.stages[i]? = some s.stages[i] := List.getElem?_eq_getElem inside
  cases i with
  -- the first stage has the start of the schedule before it
  | zero =>
    refine ⟨⟨.zero, stageEnd, s.start, s.stages[0].target⟩, ?_, (endOf_zero _).symm, ends, rfl, ?_⟩
    · simp [stageAt, here, stage]
    · simp [targetAfter, stage]
  | succ i =>
    obtain ⟨stageStart, before, starts⟩ := s.exists_cumulativeEnd (Nat.lt_of_succ_lt inside)
    have previous : s.stages[i]? = some s.stages[i] :=
      List.getElem?_eq_getElem (Nat.lt_of_succ_lt inside)
    refine ⟨⟨stageStart, stageEnd, s.stages[i].target, s.stages[i + 1].target⟩, ?_, starts, ends,
      ?_, ?_⟩
    · simp [stageAt, here, stage, before, previous]
    · simp [targetAfter, previous]
    · simp [targetAfter, stage]

section StageIndex

variable (search : BinarySearch Duration)

/-- The stages before the one that is found are over, the later ones are not. -/
theorem stageIndex_sides (elapsed : Duration) :
    s.stageIndex search elapsed ≤ s.stages.length ∧ ∀ j < s.stages.length,
      (j < s.stageIndex search elapsed → endOf s.stages (j + 1) ≤ elapsed.nanos) ∧
        (s.stageIndex search elapsed ≤ j → elapsed.nanos ≤ endOf s.stages (j + 1)) := by
  obtain ⟨within, sides⟩ := search.index_spec (s.divided elapsed)
  rw [s.length_cumulativeEnds] at within
  refine ⟨within, fun j inside => ?_⟩
  obtain ⟨stageEnd, here, ends⟩ := s.exists_cumulativeEnd inside
  have side := sides j stageEnd here
  rwa [compare_le_iff_le, compare_ge_iff_ge, ends] at side

/-- Where a stage before the one that is found ends at this very time, so does the one found. -/
theorem stageIndex_exact (elapsed : Duration) :
    endOf s.stages (s.stageIndex search elapsed + 1) = elapsed.nanos ∨
      ∀ j < s.stages.length, j < s.stageIndex search elapsed →
        endOf s.stages (j + 1) < elapsed.nanos := by
  rcases search.index_cases (s.divided elapsed) with ⟨stageEnd, here, eq⟩ | ⟨-, sides⟩
  · left
    rw [compare_eq_iff_eq, s.cumulativeEnds_nanos here] at eq
    exact eq
  · right
    intro j inside before
    obtain ⟨stageEnd, here, ends⟩ := s.exists_cumulativeEnd inside
    rw [← ends]
    exact compare_lt_iff_lt.mp ((sides j stageEnd here).1 before)

/-- The stage that is found contains the time, and starts at it only where it also ends at it. -/
theorem stageIndex_spec {elapsed : Duration} (early : elapsed.nanos < s.totalDuration.nanos) :
    s.stageIndex search elapsed < s.stages.length ∧
      endOf s.stages (s.stageIndex search elapsed) ≤ elapsed.nanos ∧
      elapsed.nanos ≤ endOf s.stages (s.stageIndex search elapsed + 1) ∧
      (endOf s.stages (s.stageIndex search elapsed + 1) = elapsed.nanos ∨
        s.stageIndex search elapsed = 0 ∨
        endOf s.stages (s.stageIndex search elapsed) < elapsed.nanos) := by
  rw [s.totalDuration_nanos] at early
  obtain ⟨within, sides⟩ := s.stageIndex_sides search elapsed
  have exactly := s.stageIndex_exact search elapsed
  generalize s.stageIndex search elapsed = i at within sides exactly
  -- behind the last stage there is no time before the total duration
  have inside : i < s.stages.length := by
    rcases Nat.lt_or_eq_of_le within with inside | rfl
    · exact inside
    · exfalso
      rcases Nat.eq_zero_or_pos s.stages.length with none | some
      · rw [none, endOf_zero] at early
        omega
      · have last := (sides (s.stages.length - 1) (by omega)).1 (by omega)
        rw [Nat.sub_add_cancel some] at last
        omega
  refine ⟨inside, ?_, (sides i inside).2 le_rfl, ?_⟩
  · cases i with
    | zero =>
      rw [endOf_zero]
      exact Nat.zero_le _
    | succ i => exact (sides i (by omega)).1 (Nat.lt_succ_self i)
  · rcases exactly with ends | before
    · exact .inl ends
    · cases i with
      | zero => exact .inr (.inl rfl)
      | succ i => exact .inr (.inr (before i (by omega) (Nat.lt_succ_self i)))

/-- Strictly inside a stage the search finds that stage. -/
theorem stageIndex_eq {i : Nat} (inside : i < s.stages.length) {elapsed : Duration}
    (started : i = 0 ∨ endOf s.stages i < elapsed.nanos)
    (running : elapsed.nanos < endOf s.stages (i + 1)) : s.stageIndex search elapsed = i := by
  obtain ⟨-, sides⟩ := s.stageIndex_sides search elapsed
  apply le_antisymm
  · by_contra later
    exact absurd ((sides i inside).1 (Nat.lt_of_not_le later)) (Nat.not_le.mpr running)
  · by_contra earlier
    rcases started with rfl | after
    · exact earlier (Nat.zero_le _)
    · cases i with
      | zero => exact earlier (Nat.zero_le _)
      | succ i => exact absurd ((sides i (by omega)).2 (by omega)) (Nat.not_le.mpr after)

end StageIndex

end RampingU64Schedule

/-! ### Interpolation -/

namespace CurrentStage

variable {stage : CurrentStage} {elapsed : Duration}

/-- The change of the target over the stage, which is negative on the way down. -/
def delta (stage : CurrentStage) : Int := stage.endTarget.toNat - stage.startTarget.toNat

/-- How far the target has moved since the start of the stage. -/
def moved (stage : CurrentStage) (elapsed : Duration) : Int :=
  proportion 128 stage.delta (stage.stageElapsed elapsed).nanos stage.stageDuration.nanos

theorem moved_bounds (positive : 0 < stage.stageDuration.nanos)
    (running : elapsed.nanos ≤ stage.stageEnd.nanos) :
    min 0 stage.delta ≤ stage.moved elapsed ∧ stage.moved elapsed ≤ max 0 stage.delta := by
  have part : (stage.stageElapsed elapsed).nanos ≤ stage.stageDuration.nanos :=
    Nat.sub_le_sub_right running _
  exact proportion_bounds (by omega) (by omega) (by omega)

theorem interpolate_of_isZero (zero : stage.stageDuration.nanos = 0) :
    stage.interpolate elapsed = stage.endTarget := by
  rw [interpolate, if_pos (by simp [Duration.isZero, zero])]

/-- The sum lies between the two targets, so neither `i128` nor the clamping changes it. -/
theorem interpolate_toNat (positive : 0 < stage.stageDuration.nanos)
    (running : elapsed.nanos ≤ stage.stageEnd.nanos) :
    ((stage.interpolate elapsed).toNat : Int) = stage.startTarget.toNat + stage.moved elapsed := by
  obtain ⟨low, high⟩ := moved_bounds positive running
  have start := stage.startTarget.toNat_lt
  have target := stage.endTarget.toNat_lt
  have nonzero : ¬stage.stageDuration.isZero := by
    simp only [Duration.isZero, beq_iff_eq]
    omega
  have den : max (stage.stageDuration.nanos : Int) 1 = stage.stageDuration.nanos :=
    max_eq_left (by omega)
  rw [interpolate, if_neg nonzero]
  simp only [den]
  change ((UInt64.ofNat (max 0 (min (_ + stage.moved elapsed) _)).toNat).toNat : Int) = _
  rw [delta] at low high
  -- what is moved stays between the targets, so the clamping does nothing
  have clamped : max 0 (min (stage.startTarget.toNat + stage.moved elapsed) (2 ^ 64 - 1)) =
      stage.startTarget.toNat + stage.moved elapsed := by omega
  rw [clamped, UInt64.toNat_ofNat_of_lt' (by rw [UInt64.size]; omega),
    Int.toNat_of_nonneg (by omega)]

/-- Every target of a stage lies between the two it ramps between. -/
theorem interpolate_bounds (running : elapsed.nanos ≤ stage.stageEnd.nanos) :
    min stage.startTarget.toNat stage.endTarget.toNat ≤ (stage.interpolate elapsed).toNat ∧
      (stage.interpolate elapsed).toNat ≤ max stage.startTarget.toNat stage.endTarget.toNat := by
  rcases Nat.eq_zero_or_pos stage.stageDuration.nanos with zero | positive
  · rw [interpolate_of_isZero zero]
    omega
  · have exactly := interpolate_toNat positive running
    obtain ⟨low, high⟩ := moved_bounds positive running
    rw [delta] at low high
    omega

/-- At its start a stage has the target it starts from. -/
theorem interpolate_start (positive : 0 < stage.stageDuration.nanos)
    (start : elapsed.nanos = stage.stageStart.nanos) :
    stage.interpolate elapsed = stage.startTarget := by
  have running : elapsed.nanos ≤ stage.stageEnd.nanos := by
    rw [stageDuration, Duration.saturatingSub_nanos] at positive
    omega
  have exactly := interpolate_toNat positive running
  have none : stage.moved elapsed = 0 := by
    rw [moved, stageElapsed, Duration.saturatingSub_nanos, start, Nat.sub_self]
    exact proportion_zero
  rw [none] at exactly
  exact UInt64.toNat_inj.mp (by omega)

/-- Without saturation the target is the linear one, truncated towards the start. -/
theorem interpolate_eq (positive : 0 < stage.stageDuration.nanos)
    (running : elapsed.nanos ≤ stage.stageEnd.nanos)
    (low : -2 ^ 127 ≤ stage.delta * (stage.stageElapsed elapsed).nanos)
    (high : stage.delta * (stage.stageElapsed elapsed).nanos < 2 ^ 127) :
    ((stage.interpolate elapsed).toNat : Int) = stage.startTarget.toNat +
      (stage.delta * (stage.stageElapsed elapsed).nanos).tdiv stage.stageDuration.nanos := by
  rw [interpolate_toNat positive running, moved, proportion, saturate_eq low high]

/-- A stage that does not rise never has a higher target later. -/
theorem interpolate_anti (falls : stage.endTarget ≤ stage.startTarget) {later : Duration}
    (le : elapsed.nanos ≤ later.nanos) (running : later.nanos ≤ stage.stageEnd.nanos) :
    stage.interpolate later ≤ stage.interpolate elapsed := by
  rcases Nat.eq_zero_or_pos stage.stageDuration.nanos with zero | positive
  · rw [interpolate_of_isZero zero, interpolate_of_isZero zero]
    exact UInt64.le_refl _
  · have down : stage.delta ≤ 0 := by
      have := UInt64.le_iff_toNat_le.mp falls
      rw [delta]
      omega
    -- with a negative difference more time means a smaller move
    have moves : stage.moved later ≤ stage.moved elapsed :=
      proportion_anti down (by omega) (by
        have := Nat.sub_le_sub_right le stage.stageStart.nanos
        exact Int.ofNat_le.mpr this)
    have at_later := interpolate_toNat positive running
    have at_elapsed := interpolate_toNat positive (le.trans running)
    exact UInt64.le_iff_toNat_le.mpr (by omega)

/-! ### Rechecks -/

variable {vuIndex curTarget : UInt64}

/-- No sleep is longer than 50 ms. -/
theorem recheckIn_le_default :
    (stage.recheckIn elapsed vuIndex curTarget).nanos ≤ 50 * 10 ^ 6 := by
  have capped (wait : Duration) : (wait.min defaultSleep).nanos ≤ 50 * 10 ^ 6 := by
    rw [Duration.min_nanos]
    exact min_le_right _ _
  simp only [recheckIn]
  split_ifs
  · change 1 * 10 ^ 6 ≤ _
    omega
  · exact capped _
  · exact le_rfl
  · exact Nat.zero_le _
  · exact capped _
  · exact capped _

variable (stage elapsed)

/-- How long into the stage a rising target takes to reach the VU. -/
def needed (stage : CurrentStage) (vuIndex : UInt64) : Int :=
  proportion 128 (vuIndex.toNat - stage.startTarget.toNat) stage.stageDuration.nanos stage.delta

/-- An inactive VU sleeps through a stage whose target does not come up to it, and otherwise at
most until its target does. -/
theorem recheckIn_cases (inactive : ¬vuIndex ≤ curTarget) :
    (stage.endTarget ≤ stage.startTarget ∨
          stage.startTarget < vuIndex ∧ stage.endTarget < vuIndex) ∧
        (stage.recheckIn elapsed vuIndex curTarget).nanos ≤ stage.stageEnd.nanos - elapsed.nanos ∨
      (stage.startTarget < vuIndex ∧ vuIndex ≤ stage.endTarget ∧
        (stage.recheckIn elapsed vuIndex curTarget).nanos ≤
          (stage.needed vuIndex - (stage.stageElapsed elapsed).nanos).toNat) ∨
      (stage.recheckIn elapsed vuIndex curTarget).nanos = 0 := by
  have rest : ((stage.stageEnd.saturatingSub elapsed).min defaultSleep).nanos ≤
      stage.stageEnd.nanos - elapsed.nanos := by
    rw [Duration.min_nanos]
    exact min_le_left _ _
  simp only [recheckIn, if_neg inactive]
  split_ifs with falls flat below above
  · exact .inl ⟨.inl falls, rest⟩
  -- the target rises, or the branch before would have been taken
  · rw [UInt64.le_iff_toNat_le] at falls
    omega
  · exact .inr (.inr rfl)
  · exact .inl ⟨.inr ⟨UInt64.lt_iff_toNat_lt.mpr (by omega),
      UInt64.lt_iff_toNat_lt.mpr (by omega)⟩, rest⟩
  · refine .inr (.inl ⟨UInt64.lt_iff_toNat_lt.mpr (by omega),
      UInt64.le_iff_toNat_le.mpr (by omega), ?_⟩)
    change (Duration.min (.fromNanos (UInt64.ofNat (min (max (saturate 128
      (max (stage.needed vuIndex) 0 - (stage.stageElapsed elapsed).nanos)) 0) _).toNat)) _).nanos ≤ _
    generalize stage.needed vuIndex = needed
    rw [Duration.min_nanos]
    refine (min_le_left _ _).trans ((Nat.mod_le _ _).trans ?_)
    have shrinks : saturate 128 (max needed 0 - (stage.stageElapsed elapsed).nanos) ≤
        max 0 (max needed 0 - (stage.stageElapsed elapsed).nanos) := by
      rcases le_total 0 (max needed 0 - (stage.stageElapsed elapsed).nanos : Int) with pos | neg
      · exact le_max_of_le_right (saturate_le pos)
      · exact le_max_of_le_left (saturate_nonpos neg)
    omega

/-- A target that comes up to the VU does so before the stage ends. -/
theorem needed_le (above : stage.startTarget < vuIndex) (within : vuIndex ≤ stage.endTarget) :
    stage.needed vuIndex ≤ stage.stageDuration.nanos := by
  rw [UInt64.lt_iff_toNat_lt] at above
  rw [UInt64.le_iff_toNat_le] at within
  rw [needed, proportion_comm]
  exact (proportion_up (by omega) (by rw [delta]; omega) (by omega) (by rw [delta]; omega)).2

/-- The sleep ends with the stage at the latest. -/
theorem recheckIn_le_end (inactive : ¬vuIndex ≤ curTarget)
    (started : stage.stageStart.nanos ≤ elapsed.nanos)
    (running : elapsed.nanos ≤ stage.stageEnd.nanos) :
    elapsed.nanos + (stage.recheckIn elapsed vuIndex curTarget).nanos ≤ stage.stageEnd.nanos := by
  rcases recheckIn_cases stage elapsed inactive with ⟨-, rest⟩ | ⟨above, within, rising⟩ | zero
  · omega
  · have whole := needed_le stage above within
    rw [stageDuration, Duration.saturatingSub_nanos] at whole
    rw [stageElapsed, Duration.saturatingSub_nanos] at rising
    omega
  · omega

/-- Until the sleep is over, or the stage, the VU stays inactive. -/
theorem recheckIn_sound (inactive : ¬vuIndex ≤ stage.interpolate elapsed) {later : Duration}
    (started : stage.stageStart.nanos ≤ elapsed.nanos) (le : elapsed.nanos ≤ later.nanos)
    (asleep : later.nanos <
      elapsed.nanos + (stage.recheckIn elapsed vuIndex (stage.interpolate elapsed)).nanos)
    (running : later.nanos ≤ stage.stageEnd.nanos) : ¬vuIndex ≤ stage.interpolate later := by
  rw [UInt64.not_le]
  -- falling, too low throughout, rising towards the VU, or no sleep at all
  rcases recheckIn_cases stage elapsed inactive with
    ⟨falls | ⟨start, target⟩, -⟩ | ⟨above, within, rising⟩ | zero
  · exact UInt64.lt_of_le_of_lt (interpolate_anti falls le running) (UInt64.not_le.mp inactive)
  · have high := (interpolate_bounds running).2
    rw [UInt64.lt_iff_toNat_lt] at start target ⊢
    omega
  · have whole := needed_le stage above within
    -- before the time that the VU needs
    have early : (stage.stageElapsed later).nanos < stage.needed vuIndex := by
      rw [stageElapsed, Duration.saturatingSub_nanos] at rising ⊢
      omega
    rw [UInt64.lt_iff_toNat_lt] at above ⊢
    rw [UInt64.le_iff_toNat_le] at within
    have positive : 0 < stage.stageDuration.nanos := by omega
    have below : stage.moved later < vuIndex.toNat - stage.startTarget.toNat :=
      proportion_lt_of_lt_proportion (by rw [delta]; omega) (by omega) (by omega) early (by omega)
    have exactly := interpolate_toNat positive running
    omega
  · omega

end CurrentStage

/-! ### What the schedule computes -/

instance lawfulOrderLeftLeaningMax : Std.LawfulOrderLeftLeaningMax UInt64 where
  max_eq_left a b le := by
    change (if a ≤ b then b else a) = a
    split_ifs with ge
    · exact UInt64.le_antisymm le ge
    · rfl
  max_eq_right a b not_le := by
    change (if a ≤ b then b else a) = b
    exact if_pos (UInt64.le_of_lt (UInt64.not_le.mp not_le))

namespace RampingU64Schedule

variable (search : BinarySearch Duration) (s : RampingU64Schedule)

/-- Inside a stage the target is that stage's. -/
theorem targetAt_inside {i : Nat} (inside : i < s.stages.length) {stage : CurrentStage}
    (here : s.stageAt i = some stage) {elapsed : Duration}
    (started : i = 0 ∨ endOf s.stages i < elapsed.nanos)
    (running : elapsed.nanos < endOf s.stages (i + 1)) :
    s.targetAt search elapsed = some (stage.interpolate elapsed) := by
  have some_stage : s.stages ≠ [] := by
    rintro none
    rw [none] at inside
    exact Nat.not_lt_zero _ inside
  have total : elapsed.nanos < s.totalDuration.nanos := by
    rw [s.totalDuration_nanos]
    exact running.trans_le (endOf_mono _ inside)
  rw [targetAt, if_neg some_stage, if_neg (Nat.not_le.mpr total)]
  split_ifs with zero
  · subst zero
    -- nothing has started before the first stage
    have first : i = 0 := started.resolve_right (Nat.not_lt_zero _)
    subst first
    obtain ⟨same, at_i, starts, ends, target, -⟩ := s.stageAt_spec inside
    cases Option.some.inj (here.symm.trans at_i)
    have positive : 0 < stage.stageDuration.nanos := by
      rw [CurrentStage.stageDuration, Duration.saturatingSub_nanos, starts, ends, endOf_zero]
      exact Nat.sub_pos_of_lt running
    rw [CurrentStage.interpolate_start positive (starts.trans (endOf_zero _)).symm, target]
    rfl
  · rw [s.stageIndex_eq search inside started running, here]
    rfl

/-- Before the total duration the target is that of the stage that the search finds. -/
theorem targetAt_of_early {elapsed : Duration} (started : 0 < elapsed.nanos)
    (early : elapsed.nanos < s.totalDuration.nanos) {stage : CurrentStage}
    (here : s.stageAt (s.stageIndex search elapsed) = some stage) :
    s.targetAt search elapsed = some (stage.interpolate elapsed) := by
  have some_stage : s.stages ≠ [] := by
    intro none
    rw [s.totalDuration_nanos, none] at early
    simp at early
  rw [targetAt, if_neg some_stage, if_neg (Duration.nanos_pos_iff.mp started),
    if_neg (Nat.not_le.mpr early), here]
  rfl

theorem targetAt_zero : s.targetAt search .zero = some s.start := by
  rw [targetAt, if_pos rfl, ite_self]

/-- From the total duration on the target is that of the last stage. -/
theorem targetAt_late (some_stage : s.stages ≠ []) {elapsed : Duration}
    (started : 0 < elapsed.nanos) (late : s.totalDuration.nanos ≤ elapsed.nanos) :
    s.targetAt search elapsed = some (s.stages.getLast some_stage).target := by
  rw [targetAt, if_neg some_stage, if_neg (Duration.nanos_pos_iff.mp started), if_pos late,
    List.getLast?_eq_some_getLast some_stage]
  rfl

/-- The start and the targets of the stages. -/
def levels : List UInt64 := s.start :: s.stages.map Stage.target

theorem targetAfter_mem {n : Nat} (le : n ≤ s.stages.length) :
    targetAfter s.start s.stages n ∈ s.levels := by
  have inside : n < s.levels.length := by simpa [levels] using Nat.lt_succ_of_le le
  rw [targetAfter, ← levels, List.getD_eq_getElem _ _ inside]
  exact List.getElem_mem inside

/-- At every time there is a target, between two of the levels. -/
theorem targetAt_bounds (elapsed : Duration) :
    ∃ target, s.targetAt search elapsed = some target ∧
      ∃ low ∈ s.levels, ∃ high ∈ s.levels, low ≤ target ∧ target ≤ high := by
  have level {target : UInt64} (member : target ∈ s.levels) (is : s.targetAt search elapsed =
      some target) : ∃ target, s.targetAt search elapsed = some target ∧
        ∃ low ∈ s.levels, ∃ high ∈ s.levels, low ≤ target ∧ target ≤ high :=
    ⟨target, is, target, member, target, member, UInt64.le_refl _, UInt64.le_refl _⟩
  -- without stages, and at zero, the target is the start
  by_cases none : s.stages = []
  · exact level List.mem_cons_self (by rw [targetAt, if_pos none])
  by_cases zero : elapsed = .zero
  · exact level List.mem_cons_self (zero ▸ s.targetAt_zero search)
  have started : 0 < elapsed.nanos := Duration.nanos_pos_iff.mpr zero
  by_cases late : s.totalDuration.nanos ≤ elapsed.nanos
  · exact level (List.mem_cons_of_mem _ (List.mem_map_of_mem (List.getLast_mem none)))
      (s.targetAt_late search none started late)
  · obtain ⟨inside, starts, ends, -⟩ := s.stageIndex_spec search (Nat.lt_of_not_le late)
    obtain ⟨stage, here, -, stageEnd, start, target⟩ := s.stageAt_spec inside
    have running : elapsed.nanos ≤ stage.stageEnd.nanos := ends.trans_eq stageEnd.symm
    obtain ⟨low, high⟩ := CurrentStage.interpolate_bounds running
    have start_level := s.targetAfter_mem inside.le
    have target_level := s.targetAfter_mem inside
    rw [← start] at start_level
    rw [← target] at target_level
    refine ⟨_, s.targetAt_of_early search started (Nat.lt_of_not_le late) here, ?_⟩
    simp only [UInt64.le_iff_toNat_le]
    -- up or down, the ends of the stage are the bounds
    rcases le_total stage.startTarget.toNat stage.endTarget.toNat with up | down
    · exact ⟨_, start_level, _, target_level, by omega, by omega⟩
    · exact ⟨_, target_level, _, start_level, by omega, by omega⟩

/-- The spawned VUs of the scenario are at least as many as any of its levels. -/
theorem level_le_scenarioMaxVus {start : UInt64} {stages : List Stage} {c : ScenarioConfig}
    (ramps : c.executor = .rampingVus start stages) {level : UInt64}
    (member : level ∈ (new start stages).levels) : level ≤ scenarioMaxVus c := by
  rw [scenarioMaxVus, ramps]
  change level ∈ start :: stages.map Stage.target at member
  change level ≤ max ((stages.map Stage.target).max?.getD 0) start
  -- the start and the largest target are both below the maximum
  rcases List.mem_cons.mp member with rfl | target
  · exact Std.right_le_max
  · cases most : (stages.map Stage.target).max? with
    | none =>
      rw [List.max?_eq_none_iff.mp most] at target
      cases target
    | some m =>
      rw [Option.getD_some]
      exact UInt64.le_trans ((List.max?_eq_some_iff.mp most).2 level target) Std.left_le_max

/-- What the interpolation multiplies in the stage after the first `i`. -/
def rampProduct (start : UInt64) (stages : List Stage) (elapsed : Duration) (i : Nat) : Int :=
  ((targetAfter start stages (i + 1)).toNat - (targetAfter start stages i).toNat) *
    (elapsed.nanos - endOf stages i)

/-- The linear target in that stage, in nanoseconds and truncated. -/
def rampTarget (start : UInt64) (stages : List Stage) (elapsed : Duration) (i : Nat) : Int :=
  (targetAfter start stages i).toNat +
    (rampProduct start stages elapsed i).tdiv (endOf stages (i + 1) - endOf stages i)

/-- The target over time: the start, then linear in each stage as long as the product fits an
`i128`, then the last target; and always between the levels, so that the spawned VUs suffice. -/
theorem targetAt_ramps (search : BinarySearch Duration) (start : UInt64) (stages : List Stage)
    (some_stage : stages ≠ []) (elapsed : Duration) :
    (elapsed = .zero → (new start stages).targetAt search elapsed = some start) ∧
    (0 < elapsed.nanos → (new start stages).totalDuration.nanos ≤ elapsed.nanos →
      (new start stages).targetAt search elapsed = some (stages.getLast some_stage).target) ∧
    (0 < elapsed.nanos → elapsed.nanos < (new start stages).totalDuration.nanos →
      ∃ i target, i < stages.length ∧ (new start stages).targetAt search elapsed = some target ∧
        endOf stages i ≤ elapsed.nanos ∧ elapsed.nanos ≤ endOf stages (i + 1) ∧
        (endOf stages (i + 1) = endOf stages i → target = targetAfter start stages (i + 1)) ∧
        (endOf stages i < endOf stages (i + 1) →
          -2 ^ 127 ≤ rampProduct start stages elapsed i →
          rampProduct start stages elapsed i < 2 ^ 127 →
          (target.toNat : Int) = rampTarget start stages elapsed i)) ∧
    ∃ target, (new start stages).targetAt search elapsed = some target ∧
      (∃ low ∈ start :: stages.map Stage.target, low ≤ target) ∧
      (∃ high ∈ start :: stages.map Stage.target, target ≤ high) ∧
      ∀ c : ScenarioConfig, c.executor = .rampingVus start stages → target ≤ scenarioMaxVus c := by
  refine ⟨?_, ?_, ?_, ?_⟩
  · rintro rfl
    exact targetAt_zero search _
  · exact targetAt_late search (new start stages) some_stage
  · intro started early
    obtain ⟨inside, starts, ends, -⟩ := (new start stages).stageIndex_spec search early
    obtain ⟨stage, here, stageStart, stageEnd, from_target, to_target⟩ :=
      (new start stages).stageAt_spec inside
    have running : elapsed.nanos ≤ stage.stageEnd.nanos := ends.trans_eq stageEnd.symm
    have length : stage.stageDuration.nanos = endOf stages
        ((new start stages).stageIndex search elapsed + 1) -
          endOf stages ((new start stages).stageIndex search elapsed) := by
      rw [CurrentStage.stageDuration, Duration.saturatingSub_nanos, stageEnd, stageStart]
      rfl
    refine ⟨_, _, inside, targetAt_of_early search _ started early here, starts, ends, ?_, ?_⟩
    -- a stage without a duration jumps to its target
    · intro repeated
      rw [CurrentStage.interpolate_of_isZero (by omega), to_target]
      rfl
    · intro positive low high
      -- what the code multiplies is the product of the statement, so it has room in an `i128`
      have product : stage.delta * (stage.stageElapsed elapsed).nanos =
          rampProduct start stages elapsed ((new start stages).stageIndex search elapsed) := by
        rw [rampProduct, CurrentStage.delta, from_target, to_target, CurrentStage.stageElapsed,
          Duration.saturatingSub_nanos, stageStart, Nat.cast_sub starts]
        rfl
      rw [← product] at low high
      rw [CurrentStage.interpolate_eq (by omega) running low high, product, length, from_target,
        Nat.cast_sub positive.le]
      rfl
  · obtain ⟨target, is, low, low_level, high, high_level, above, below⟩ :=
      (new start stages).targetAt_bounds search elapsed
    exact ⟨target, is, ⟨low, low_level, above⟩, ⟨high, high_level, below⟩, fun c ramps =>
      UInt64.le_trans below (level_le_scenarioMaxVus ramps high_level)⟩

/-- Up to 10 in ten seconds, then down to 4 in six: two seconds into the second stage it is 8. -/
def upAndDown : List Stage := [⟨.fromSecs 10, 10⟩, ⟨.fromSecs 6, 4⟩]

/-- The second stage goes from 10 down to 4 in six seconds: two seconds after its start the target
is 8. -/
theorem targetAt_ramps_up :
    ∃ target, (new 0 upAndDown).targetAt .std (.fromSecs 12) = some target ∧
      target.toNat = 8 ∧ (∃ low ∈ [0, 10, 4], low ≤ target) ∧ ∃ high ∈ [0, 10, 4], target ≤ high := by
  obtain ⟨-, -, inside, target, is, low, high, -⟩ :=
    targetAt_ramps .std 0 upAndDown (by decide) (.fromSecs 12)
  obtain ⟨i, linear, within, is', starts, ends, -, interpolated⟩ := inside (by decide) (by decide)
  obtain rfl := Option.some.inj (is'.symm.trans is)
  -- twelve seconds are past the first stage
  have second : i = 1 := by
    rcases i with - | - | i
    · exact absurd ends (by decide)
    · rfl
    · exact absurd within (by simp [upAndDown])
  subst second
  refine ⟨linear, is, ?_, low, high⟩
  have value := interpolated (by decide) (by decide) (by decide)
  exact Int.ofNat.inj (value.trans (by decide))

/-- A ramp down multiplies to less than the `i128` minimum, far below `2 ^ 127`, and saturates:
the target one nanosecond before the end is not the linear one. -/
theorem targetAt_saturates :
    ¬∃ i target, i < [(⟨.max, 0⟩ : Stage)].length ∧
      (new (2 ^ 64 - 1) [⟨.max, 0⟩]).targetAt .std ⟨2 ^ 64 * 10 ^ 9 - 2, by decide⟩ = some target ∧
      endOf [⟨.max, 0⟩] i ≤ 2 ^ 64 * 10 ^ 9 - 2 ∧ 2 ^ 64 * 10 ^ 9 - 2 ≤ endOf [⟨.max, 0⟩] (i + 1) ∧
      (endOf [⟨.max, 0⟩] (i + 1) = endOf [⟨.max, 0⟩] i →
        target = targetAfter (2 ^ 64 - 1) [⟨.max, 0⟩] (i + 1)) ∧
      (endOf [⟨.max, 0⟩] i < endOf [⟨.max, 0⟩] (i + 1) →
        rampProduct (2 ^ 64 - 1) [⟨.max, 0⟩] ⟨2 ^ 64 * 10 ^ 9 - 2, by decide⟩ i < 2 ^ 127 →
        (target.toNat : Int) =
          rampTarget (2 ^ 64 - 1) [⟨.max, 0⟩] ⟨2 ^ 64 * 10 ^ 9 - 2, by decide⟩ i) := by
  rintro ⟨i, target, inside, is, -, -, -, linear⟩
  obtain rfl : i = 0 := Nat.lt_one_iff.mp inside
  have here : (new (2 ^ 64 - 1) [⟨.max, 0⟩]).stageAt 0 = some ⟨.zero, .max, 2 ^ 64 - 1, 0⟩ := by
    decide +kernel
  have saturated := targetAt_inside .std _ (by decide) here (.inl rfl)
    (show (⟨2 ^ 64 * 10 ^ 9 - 2, by decide⟩ : Duration).nanos < endOf [⟨.max, 0⟩] 1 by
      decide +kernel)
  rw [Option.some.inj (is.symm.trans saturated)] at linear
  exact absurd (linear (by decide +kernel) (by decide +kernel)) (by decide +kernel)

/-- A VU that is above the target stays above it for as long as it is told to sleep, and the
sleep is short and within the stage. -/
theorem nextRecheckIn_sound (search : BinarySearch Duration) (s : RampingU64Schedule)
    (elapsed : Duration) (vuIndex target : UInt64)
    (early : elapsed.nanos < s.totalDuration.nanos)
    (now : s.targetAt search elapsed = some target) (inactive : target < vuIndex) :
    ∃ wait stageEnd, s.nextRecheckIn search elapsed vuIndex = some wait ∧
      (∀ later : Duration, elapsed.nanos ≤ later.nanos →
        later.nanos < elapsed.nanos + wait.nanos →
        ∃ laterTarget, s.targetAt search later = some laterTarget ∧ laterTarget < vuIndex) ∧
      wait.nanos ≤ 50 * 10 ^ 6 ∧
      s.cumulativeEnds[s.stageIndex search elapsed]? = some stageEnd ∧
      elapsed.nanos + wait.nanos ≤ stageEnd.nanos := by
  obtain ⟨inside, starts, ends, started⟩ := s.stageIndex_spec search early
  obtain ⟨stage, here, stageStart, stageEnd, -⟩ := s.stageAt_spec inside
  obtain ⟨lastEnd, at_index, lastEnd_nanos⟩ := s.exists_cumulativeEnd inside
  have some_stage : s.stages ≠ [] := by
    intro none
    rw [none] at inside
    exact Nat.not_lt_zero _ inside
  have awake : ¬vuIndex ≤ target := UInt64.not_le.mpr inactive
  have within := stage.recheckIn_le_end elapsed awake (stageStart.trans_le starts)
    (ends.trans_eq stageEnd.symm)
  refine ⟨stage.recheckIn elapsed vuIndex target, lastEnd, ?_, ?_, stage.recheckIn_le_default,
    at_index, ?_⟩
  · rw [nextRecheckIn, if_neg some_stage, if_neg (Nat.not_le.mpr early), here, now]
    rfl
  · intro later le asleep
    -- a VU that sleeps at all does so before the end of the stage
    have running : elapsed.nanos < endOf s.stages (s.stageIndex search elapsed + 1) := by omega
    have after : s.stageIndex search elapsed = 0 ∨
        endOf s.stages (s.stageIndex search elapsed) < elapsed.nanos :=
      started.resolve_left running.ne'
    have same := s.targetAt_inside search inside here after running
    cases Option.some.inj (now.symm.trans same)
    refine ⟨_, s.targetAt_inside search inside here (after.imp_right (·.trans_le le))
      (asleep.trans_le (within.trans_eq stageEnd)), ?_⟩
    exact UInt64.not_le.mp (stage.recheckIn_sound elapsed awake (stageStart.trans_le starts) le
      asleep (asleep.le.trans within))
  · rw [lastEnd_nanos, ← stageEnd]
    exact within

/-- In the middle of the first stage VU 7 sleeps: at any moment of its sleep the target is below 7. -/
theorem nextRecheckIn_sound_midway :
    ∃ wait, (new 0 upAndDown).nextRecheckIn .std (.fromSecs 5) 7 = some wait ∧ 0 < wait.nanos ∧
      wait.nanos ≤ 50 * 10 ^ 6 ∧
      ∃ target, (new 0 upAndDown).targetAt .std (.fromMillis 5040) = some target ∧ target < 7 := by
  obtain ⟨wait, -, is, asleep, short, -⟩ := nextRecheckIn_sound .std (new 0 upAndDown)
    (.fromSecs 5) 7 5 (by decide) (by decide +kernel) (by decide)
  -- the next VU is far off, so the sleep is the longest one
  have long : wait.nanos = 50 * 10 ^ 6 := by
    have computed : (new 0 upAndDown).nextRecheckIn .std (.fromSecs 5) 7 =
        some ⟨50 * 10 ^ 6, by decide⟩ := by decide +kernel
    rw [computed] at is
    cases is
    rfl
  refine ⟨wait, is, by omega, short, asleep (.fromMillis 5040) (by decide) ?_⟩
  rw [long]
  decide

end RampingU64Schedule

end Wrkr.Core
