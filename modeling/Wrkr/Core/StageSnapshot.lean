import Wrkr.Core.Schedule

/-!
# Stage progress

`stage_snapshot_at` says which stage a running scenario is in. It looks the stage up by itself and
takes the target from `target_at`, which answers at time zero without a look at the stages.
-/
namespace Wrkr.Core

open Wrkr.Lib

/-- What is shown of the stage that is running. -/
structure StageSnapshot where
  index : Nat
  count : Nat
  stageElapsed : Duration
  stageRemaining : Duration
  startTarget : UInt64
  endTarget : UInt64
  currentTarget : UInt64
  deriving DecidableEq, Repr

namespace RampingU64Schedule

variable (search : BinarySearch Duration) (s : RampingU64Schedule)

/-- The stage of a snapshot; from the total duration on it is the last one. -/
def snapshotIndex (clamped : Duration) : Nat :=
  if s.totalDuration.nanos ≤ clamped.nanos then s.stages.length - 1
  else s.stageIndex search clamped

/-- The outer `none` is a panic, the inner one the `None` of a schedule without stages. -/
def stageSnapshotAt (elapsed : Duration) : Option (Option StageSnapshot) :=
  if s.stages = [] then some none
  else do
    let clamped := elapsed.min s.totalDuration
    let idx := s.snapshotIndex search clamped
    let stage ← s.stageAt idx
    let stageElapsed := stage.stageElapsed clamped
    let currentTarget ← s.targetAt search clamped
    some (some
      { index := idx
        count := s.stages.length
        stageElapsed
        stageRemaining := stage.stageDuration.saturatingSub stageElapsed
        startTarget := stage.startTarget
        endTarget := stage.endTarget
        currentTarget })

/-- What a display of the progress relies on. -/
def Coherent (snapshot : StageSnapshot) : Prop :=
  snapshot.index < snapshot.count ∧ snapshot.count = s.stages.length ∧
    (s.stages[snapshot.index]?.map (·.duration.nanos) =
      some (snapshot.stageElapsed.nanos + snapshot.stageRemaining.nanos)) ∧
    min snapshot.startTarget.toNat snapshot.endTarget.toNat ≤ snapshot.currentTarget.toNat ∧
    snapshot.currentTarget.toNat ≤ max snapshot.startTarget.toNat snapshot.endTarget.toNat

variable {search s}

theorem clamped_le (elapsed : Duration) :
    (elapsed.min s.totalDuration).nanos ≤ s.totalDuration.nanos := by
  rw [Duration.min_nanos]
  exact min_le_right _ _

theorem clamped_eq_zero_iff (positive : 0 < s.totalDuration.nanos) {elapsed : Duration} :
    elapsed.min s.totalDuration = .zero ↔ elapsed = .zero := by
  rw [Duration.min]
  split_ifs with le
  · exact Iff.rfl
  · constructor
    · intro total
      rw [total] at positive
      exact absurd positive (Nat.lt_irrefl 0)
    · rintro rfl
      exact absurd (Nat.zero_le _) le

theorem length_pos (positive : 0 < s.totalDuration.nanos) : 0 < s.stages.length := by
  rw [s.totalDuration_nanos] at positive
  refine Nat.pos_of_ne_zero fun none => ?_
  rw [none, endOf_zero] at positive
  exact Nat.lt_irrefl 0 positive

variable (search) in
/-- The stage of the snapshot contains the clamped time. -/
theorem snapshotIndex_spec (positive : 0 < s.totalDuration.nanos) {clamped : Duration}
    (within : clamped.nanos ≤ s.totalDuration.nanos) :
    s.snapshotIndex search clamped < s.stages.length ∧
      endOf s.stages (s.snapshotIndex search clamped) ≤ clamped.nanos ∧
      clamped.nanos ≤ endOf s.stages (s.snapshotIndex search clamped + 1) := by
  have some_stage := length_pos positive
  rw [snapshotIndex]
  split_ifs with late
  · have last : s.stages.length - 1 + 1 = s.stages.length := Nat.sub_add_cancel some_stage
    rw [s.totalDuration_nanos] at late within
    rw [last]
    exact ⟨Nat.sub_lt some_stage Nat.one_pos, (endOf_mono _ (Nat.sub_le _ _)).trans late, within⟩
  · obtain ⟨inside, starts, ends, -⟩ := s.stageIndex_spec search (Nat.lt_of_not_le late)
    exact ⟨inside, starts, ends⟩

/-- Later times are in the same stage or a later one. -/
theorem snapshotIndex_mono (positive : 0 < s.totalDuration.nanos) {earlier later : Duration}
    (le : earlier.nanos ≤ later.nanos) (within : later.nanos ≤ s.totalDuration.nanos) :
    s.snapshotIndex search earlier ≤ s.snapshotIndex search later := by
  obtain ⟨inside, -, -⟩ := snapshotIndex_spec search positive (le.trans within)
  by_cases late : s.totalDuration.nanos ≤ later.nanos
  · rw [snapshotIndex.eq_1 search s later, if_pos late]
    exact Nat.le_sub_one_of_lt inside
  · have early : ¬s.totalDuration.nanos ≤ earlier.nanos := fun reached => late (reached.trans le)
    rw [snapshotIndex, snapshotIndex, if_neg late, if_neg early]
    rcases Nat.eq_or_lt_of_le le with same | before
    · rw [Duration.nanos_inj.mp same]
    · obtain ⟨index, -, ends, -⟩ := s.stageIndex_spec search (Nat.lt_of_not_le late)
      -- a stage that the earlier time has behind it is over before the later time
      by_contra fewer
      have passed := ((s.stageIndex_sides search earlier).2 _ index).1 (Nat.lt_of_not_le fewer)
      omega

theorem targetAfter_length (start : UInt64) {stages : List Stage} (some_stage : stages ≠ []) :
    targetAfter start stages stages.length = (stages.getLast some_stage).target := by
  cases stages using List.reverseRecOn with
  | nil => exact absurd rfl some_stage
  | append_singleton stages last => simp [targetAfter]

/-- At time zero the target is the start, which the first stage ramps from; a later stage that is
found there need not be near it. -/
theorem targetAt_between (positive : 0 < s.totalDuration.nanos) {clamped : Duration}
    (within : clamped.nanos ≤ s.totalDuration.nanos) {stage : CurrentStage}
    (here : s.stageAt (s.snapshotIndex search clamped) = some stage) :
    ∃ target, s.targetAt search clamped = some target ∧
      ((clamped = .zero → s.snapshotIndex search clamped = 0) →
        min stage.startTarget.toNat stage.endTarget.toNat ≤ target.toNat ∧
          target.toNat ≤ max stage.startTarget.toNat stage.endTarget.toNat) := by
  obtain ⟨inside, -, ends⟩ := snapshotIndex_spec search positive within
  obtain ⟨same, at_index, -, stageEnd, start, target⟩ := s.stageAt_spec inside
  cases Option.some.inj (here.symm.trans at_index)
  by_cases zero : clamped = .zero
  · subst zero
    refine ⟨s.start, s.targetAt_zero search, fun first => ?_⟩
    have from_start : stage.startTarget = s.start := by
      rw [start, first rfl]
      rfl
    rw [from_start]
    omega
  have started : 0 < clamped.nanos := Duration.nanos_pos_iff.mpr zero
  by_cases late : s.totalDuration.nanos ≤ clamped.nanos
  · have some_stage : s.stages ≠ [] := List.ne_nil_of_length_pos (length_pos positive)
    refine ⟨_, s.targetAt_late search some_stage started late, fun _ => ?_⟩
    rw [snapshotIndex, if_pos late, Nat.sub_add_cancel (length_pos positive),
      targetAfter_length s.start some_stage] at target
    rw [← target]
    omega
  -- strictly before the end `target_at` searches for the same stage
  · have found : s.snapshotIndex search clamped = s.stageIndex search clamped := if_neg late
    rw [found] at here
    exact ⟨_, targetAt_of_early search s started (Nat.lt_of_not_le late) here, fun _ =>
      CurrentStage.interpolate_bounds (ends.trans_eq stageEnd.symm)⟩

/-- What is left of a stage where the cumulative ends saturate. -/
def keptDuration (stages : List Stage) (i : Nat) : Nat :=
  endOf stages (i + 1) - endOf stages i

/-- A stage keeps its duration as far as the largest duration reaches. -/
theorem keptDuration_eq {stages : List Stage} {i : Nat} {stage : Stage}
    (here : stages[i]? = some stage) :
    keptDuration stages i = min stage.duration.nanos
      (Duration.max.nanos - ((stages.take i).map (·.duration.nanos)).sum) := by
  have longer : stages.take (i + 1) = stages.take i ++ [stage] := by
    rw [List.take_add_one, here]
    rfl
  rw [keptDuration, endOf, endOf, longer, List.map_append, List.sum_append, List.map_singleton,
    List.sum_singleton]
  omega

variable (search) in
/-- A snapshot is of the stage at the clamped time; what has elapsed and what remains make up its
duration. -/
theorem stageSnapshotAt_spec (positive : 0 < s.totalDuration.nanos) (elapsed : Duration) :
    ∃ snapshot, s.stageSnapshotAt search elapsed = some (some snapshot) ∧
      snapshot.index = s.snapshotIndex search (elapsed.min s.totalDuration) ∧
      snapshot.index < s.stages.length ∧ snapshot.count = s.stages.length ∧
      snapshot.stageElapsed.nanos + snapshot.stageRemaining.nanos =
        keptDuration s.stages snapshot.index ∧
      ((elapsed = .zero → snapshot.index = 0) →
        min snapshot.startTarget.toNat snapshot.endTarget.toNat ≤ snapshot.currentTarget.toNat ∧
          snapshot.currentTarget.toNat ≤
            max snapshot.startTarget.toNat snapshot.endTarget.toNat) := by
  have within := s.clamped_le elapsed
  obtain ⟨inside, starts, ends⟩ := snapshotIndex_spec search positive within
  obtain ⟨stage, here, stageStart, stageEnd, -⟩ := s.stageAt_spec inside
  obtain ⟨target, now, between⟩ := targetAt_between positive within here
  have some_stage : s.stages ≠ [] := List.ne_nil_of_length_pos (length_pos positive)
  refine ⟨⟨s.snapshotIndex search (elapsed.min s.totalDuration), s.stages.length,
    stage.stageElapsed (elapsed.min s.totalDuration),
    stage.stageDuration.saturatingSub (stage.stageElapsed (elapsed.min s.totalDuration)),
    stage.startTarget, stage.endTarget, target⟩, ?_, rfl, inside, rfl, ?_, ?_⟩
  · rw [stageSnapshotAt, if_neg some_stage]
    simp only [here, now, Option.bind_eq_bind, Option.bind_some]
  · simp only [CurrentStage.stageElapsed, CurrentStage.stageDuration,
      Duration.saturatingSub_nanos, stageStart, stageEnd, keptDuration]
    omega
  · intro first
    exact between fun zero => first ((clamped_eq_zero_iff positive).mp zero)

/-- The stage, its progress and its bounds on the target belong together. Where the cumulative
ends saturate a stage is cut off, and at time zero only the first stage bounds the target. -/
theorem stageSnapshotAt_coherent (search : BinarySearch Duration) (s : RampingU64Schedule)
    (positive : 0 < s.totalDuration.nanos) :
    (∀ elapsed, ∃ snapshot stage, s.stageSnapshotAt search elapsed = some (some snapshot) ∧
      snapshot.index < snapshot.count ∧ snapshot.count = s.stages.length ∧
      s.stages[snapshot.index]? = some stage ∧
      snapshot.stageElapsed.nanos + snapshot.stageRemaining.nanos =
        min stage.duration.nanos (Duration.max.nanos -
          ((s.stages.take snapshot.index).map (·.duration.nanos)).sum) ∧
      ((elapsed = .zero → snapshot.index = 0) →
        min snapshot.startTarget.toNat snapshot.endTarget.toNat ≤ snapshot.currentTarget.toNat ∧
          snapshot.currentTarget.toNat ≤
            max snapshot.startTarget.toNat snapshot.endTarget.toNat)) ∧
    ∀ earlier later before after, earlier.nanos ≤ later.nanos →
      s.stageSnapshotAt search earlier = some (some before) →
      s.stageSnapshotAt search later = some (some after) → before.index ≤ after.index := by
  refine ⟨fun elapsed => ?_, fun earlier later before after le at_earlier at_later => ?_⟩
  · obtain ⟨snapshot, is, -, inside, count, lasts, between⟩ :=
      stageSnapshotAt_spec search positive elapsed
    have stage : s.stages[snapshot.index]? = some s.stages[snapshot.index] :=
      List.getElem?_eq_getElem inside
    exact ⟨snapshot, _, is, count ▸ inside, count, stage, lasts.trans (keptDuration_eq stage),
      between⟩
  · obtain ⟨first, is_first, index_first, -⟩ :=
      stageSnapshotAt_spec search positive earlier
    obtain ⟨second, is_second, index_second, -⟩ :=
      stageSnapshotAt_spec search positive later
    cases Option.some.inj (Option.some.inj (at_earlier.symm.trans is_first))
    cases Option.some.inj (Option.some.inj (at_later.symm.trans is_second))
    -- both indices are of the clamped time, which keeps the order
    rw [index_first, index_second]
    refine snapshotIndex_mono positive ?_ (s.clamped_le later)
    rw [Duration.min_nanos, Duration.min_nanos]
    exact min_le_min_right _ le

theorem stageSnapshotAt_coherent_ramp :
    ∃ snapshot, (new 0 [⟨.fromSecs 10, 10⟩]).stageSnapshotAt .std (.fromSecs 5) =
        some (some snapshot) ∧
      snapshot.stageElapsed.nanos + snapshot.stageRemaining.nanos = 10 * 10 ^ 9 := by
  obtain ⟨snapshot, stage, is, inside, count, here, lasts, -⟩ :=
    (stageSnapshotAt_coherent .std (new 0 [⟨.fromSecs 10, 10⟩]) (by decide)).1 (.fromSecs 5)
  have only : snapshot.index = 0 := Nat.lt_one_iff.mp (inside.trans_eq count)
  rw [only] at here lasts
  cases here
  exact ⟨snapshot, is, lasts⟩

/-- Behind a stage of the largest duration the last stage has no time left; and after two stages
without a length the search finds the second one at time zero, whose targets are both below the
start. -/
theorem stageSnapshotAt_incoherent :
    (0 < (new 0 [⟨.max, 1⟩, ⟨.fromSecs 1, 2⟩]).totalDuration.nanos ∧
      ¬∃ snapshot, (new 0 [⟨.max, 1⟩, ⟨.fromSecs 1, 2⟩]).stageSnapshotAt .std .max =
        some (some snapshot) ∧ (new 0 [⟨.max, 1⟩, ⟨.fromSecs 1, 2⟩]).Coherent snapshot) ∧
    0 < (new 100 [⟨.zero, 5⟩, ⟨.zero, 7⟩, ⟨.fromSecs 10, 10⟩]).totalDuration.nanos ∧
      ¬∃ snapshot, (new 100 [⟨.zero, 5⟩, ⟨.zero, 7⟩, ⟨.fromSecs 10, 10⟩]).stageSnapshotAt .std
        .zero = some (some snapshot) ∧
        (new 100 [⟨.zero, 5⟩, ⟨.zero, 7⟩, ⟨.fromSecs 10, 10⟩]).Coherent snapshot := by
  refine ⟨⟨by decide, ?_⟩, by decide, ?_⟩
  · rintro ⟨snapshot, is, -, -, lasts, -⟩
    have last : (new 0 [⟨.max, 1⟩, ⟨.fromSecs 1, 2⟩]).stageSnapshotAt .std .max =
        some (some ⟨1, 2, .zero, .zero, 1, 2, 2⟩) := by decide +kernel
    cases Option.some.inj (Option.some.inj (is.symm.trans last))
    exact absurd lasts (by decide)
  · rintro ⟨snapshot, is, -, -, -, -, high⟩
    have second : (new 100 [⟨.zero, 5⟩, ⟨.zero, 7⟩, ⟨.fromSecs 10, 10⟩]).stageSnapshotAt .std
        .zero = some (some ⟨1, 3, .zero, .zero, 5, 7, 100⟩) := by decide +kernel
    cases Option.some.inj (Option.some.inj (is.symm.trans second))
    exact absurd high (by decide)

end RampingU64Schedule

end Wrkr.Core
