import Wrkr.Lib.Machine
import Wrkr.Lib.Tasks

/-!
# High-water marks

Tasks enter and leave; a shared level counts those inside, and a shared peak is to be the highest
level ever. A task that has entered knows the level it made and raises the peak to it by a
compare-exchange that is retried when it fails, spuriously or not. `peak_eq_highest` says that
the peak is exact whenever no task is in the middle of this.
-/
namespace Wrkr.Lib.HighWater

inductive Pc
  | outside
  /-- The task has made the level `n`. -/
  | counted (n : Int)
  /-- It has last seen the peak at `cur`. -/
  | comparing (n cur : Int)
  | inside
  deriving DecidableEq, Repr

/-- The level that the task has still to publish. -/
def Pc.publishing : Pc → Option Int
  | .counted n | .comparing n _ => some n
  | .outside | .inside => none

variable {ι : Type}

structure State (ι : Type) where
  level : Int
  peak : Int
  /-- Ghost: the highest level so far. -/
  highest : Int
  pc : ι → Pc

variable [DecidableEq ι]

/-- A step of task `i`; `spurious` makes a compare-exchange fail. -/
def step (s : State ι) : ι × Bool → Option (State ι)
  | (i, spurious) =>
    let goto (pc : Pc) : ι → Pc := Function.update s.pc i pc
    match s.pc i with
    | .outside =>
      let n := s.level + 1
      some ⟨n, s.peak, max s.highest n, goto (.counted n)⟩
    | .counted n => some { s with pc := goto (.comparing n s.peak) }
    | .comparing n cur =>
      if n ≤ cur then some { s with pc := goto .inside }
      else if s.peak = cur ∧ ¬spurious then some { s with peak := n, pc := goto .inside }
      else some { s with pc := goto (.comparing n s.peak) }
    | .inside => some { s with level := s.level - 1, pc := goto .outside }

def machine (ι : Type) [DecidableEq ι] : Machine (State ι) (ι × Bool) where
  init s := s = ⟨0, 0, 0, fun _ => .outside⟩
  step := step

section Step

variable {s : State ι} {i : ι} {spurious : Bool}

theorem step_outside (outside : s.pc i = .outside) : step s (i, spurious) =
    some ⟨s.level + 1, s.peak, max s.highest (s.level + 1),
      Function.update s.pc i (.counted (s.level + 1))⟩ := by
  simp [step, outside]

theorem step_counted {n : Int} (counted : s.pc i = .counted n) : step s (i, spurious) =
    some { s with pc := Function.update s.pc i (.comparing n s.peak) } := by
  simp [step, counted]

theorem step_comparing {n cur : Int} (comparing : s.pc i = .comparing n cur) :
    step s (i, spurious) =
      if n ≤ cur then some { s with pc := Function.update s.pc i .inside }
      else if s.peak = cur ∧ ¬spurious then
        some { s with peak := n, pc := Function.update s.pc i .inside }
      else some { s with pc := Function.update s.pc i (.comparing n s.peak) } := by
  simp [step, comparing]

theorem step_inside (inside : s.pc i = .inside) : step s (i, spurious) =
    some { s with level := s.level - 1, pc := Function.update s.pc i .outside } := by
  simp [step, inside]

end Step

/-- What a task has seen: no level is above the highest, and the peak never falls. -/
def Pc.Ok (highest peak : Int) : Pc → Prop
  | .counted n => n ≤ highest
  | .comparing n cur => n ≤ highest ∧ cur ≤ peak
  | .outside | .inside => True

theorem Pc.Ok.mono {highest highest' peak peak' : Int} {pc : Pc} (ok : pc.Ok highest peak)
    (higher : highest ≤ highest') (rises : peak ≤ peak') : pc.Ok highest' peak' := by
  cases pc with
  | outside => trivial
  | counted n => exact le_trans ok higher
  | comparing n cur => exact ⟨ok.1.trans higher, ok.2.trans rises⟩
  | inside => trivial

/-- The other tasks still know what they knew. -/
theorem ok_update {highest highest' peak peak' : Int} {pc : ι → Pc}
    (ok : ∀ j, (pc j).Ok highest peak) (higher : highest ≤ highest') (rises : peak ≤ peak') (i : ι)
    {pc' : Pc} (new : pc'.Ok highest' peak') (j : ι) :
    (Function.update pc i pc' j).Ok highest' peak' := by
  by_cases same : j = i
  · rw [same, Function.update_self]
    exact new
  · rw [Function.update_of_ne same]
    exact (ok j).mono higher rises

/-- The peak is up to date, or the highest level is still being published. -/
def Covered (highest peak : Int) (pc : ι → Pc) : Prop :=
  highest ≤ peak ∨ ∃ i, (pc i).publishing = some highest

/-- A task goes on with the level it publishes, or that level is no higher than the peak. -/
theorem Covered.update {highest peak peak' : Int} {pc : ι → Pc} (covered : Covered highest peak pc)
    (rises : peak ≤ peak') {i : ι} {pc' : Pc}
    (keeps : ∀ n, (pc i).publishing = some n → pc'.publishing = some n ∨ n ≤ peak') :
    Covered highest peak' (Function.update pc i pc') := by
  rcases covered with le | ⟨j, publishes⟩
  · exact .inl (le.trans rises)
  by_cases same : j = i
  · subst same
    rcases keeps highest publishes with goes_on | le
    · exact .inr ⟨j, by rw [Function.update_self]; exact goes_on⟩
    · exact .inl le
  · exact .inr ⟨j, by rw [Function.update_of_ne same]; exact publishes⟩

variable [Fintype ι]

def entered (pc : ι → Pc) : Nat := tally (· ≠ .outside) pc

structure Inv (s : State ι) : Prop where
  level : s.level = entered s.pc
  level_le : s.level ≤ s.highest
  peak_le : s.peak ≤ s.highest
  covered : Covered s.highest s.peak s.pc
  ok : ∀ i, (s.pc i).Ok s.highest s.peak

theorem entered_update_inside {pc : ι → Pc} {i : ι} {pc' : Pc} (before : pc i ≠ .outside)
    (after : pc' ≠ .outside) : entered (Function.update pc i pc') = entered pc :=
  tally_update_of_iff (iff_of_true after before)

theorem entered_enter {pc : ι → Pc} {i : ι} {pc' : Pc} (before : pc i = .outside)
    (after : pc' ≠ .outside) : entered (Function.update pc i pc') = entered pc + 1 := by
  rw [entered, tally_update (by simp [before]), if_pos after, entered]

theorem entered_leave {pc : ι → Pc} {i : ι} (before : pc i ≠ .outside) :
    entered (Function.update pc i .outside) + 1 = entered pc := by
  have moved := sum_moved_task (fun _ pc => if pc ≠ Pc.outside then 1 else 0) pc i .outside
  simpa [entered, tally, before] using moved

/-- The task has entered and leaves the level alone. -/
theorem Inv.goto {s : State ι} (inv : Inv s) {i : ι} {pc' : Pc} {peak : Int}
    (before : s.pc i ≠ .outside) (after : pc' ≠ .outside) (rises : s.peak ≤ peak)
    (peak_le : peak ≤ s.highest)
    (keeps : ∀ n, (s.pc i).publishing = some n → pc'.publishing = some n ∨ n ≤ peak)
    (ok : pc'.Ok s.highest peak) :
    Inv ⟨s.level, peak, s.highest, Function.update s.pc i pc'⟩ where
  level := by rw [entered_update_inside before after]; exact inv.level
  level_le := inv.level_le
  peak_le := peak_le
  covered := inv.covered.update rises keeps
  ok := ok_update inv.ok le_rfl rises i ok

theorem inv_step {s s' : State ι} {a : ι × Bool} (inv : Inv s) (taken : step s a = some s') :
    Inv s' := by
  obtain ⟨i, spurious⟩ := a
  have here := inv.ok i
  simp only [step] at taken
  split at taken
  next outside =>
    cases taken
    refine ⟨?_, le_max_right _ _, inv.peak_le.trans (le_max_left _ _), ?_,
      ok_update inv.ok (le_max_left _ _) le_rfl i (le_max_right _ _)⟩
    · rw [entered_enter outside (by simp), inv.level]
      push_cast
      rfl
    -- a new highest level is published by the task that has made it
    · rcases le_total (s.level + 1) s.highest with old | new
      · rw [max_eq_left old]
        exact inv.covered.update le_rfl (by simp [outside, Pc.publishing])
      · rw [max_eq_right new]
        exact .inr ⟨i, by simp [Pc.publishing]⟩
  next n counted =>
    cases taken
    rw [counted] at here
    exact inv.goto (by simp [counted]) (by simp) le_rfl inv.peak_le
      (by simp [counted, Pc.publishing]) ⟨here, le_rfl⟩
  next n cur comparing =>
    rw [comparing] at here
    split_ifs at taken with reached swapped
    · cases taken
      refine inv.goto (by simp [comparing]) (by simp) le_rfl inv.peak_le ?_ trivial
      simp only [comparing, Pc.publishing, Option.some.injEq]
      rintro m rfl
      exact .inr (reached.trans here.2)
    · cases taken
      refine inv.goto (by simp [comparing]) (by simp) (by omega) here.1 ?_ trivial
      simp only [comparing, Pc.publishing, Option.some.injEq]
      rintro m rfl
      exact .inr le_rfl
    · cases taken
      exact inv.goto (by simp [comparing]) (by simp) le_rfl inv.peak_le
        (by simp [comparing, Pc.publishing]) ⟨here.1, le_rfl⟩
  next inside =>
    cases taken
    have below : s.level - 1 ≤ s.highest := by have := inv.level_le; omega
    refine ⟨?_, below, inv.peak_le, inv.covered.update le_rfl (by simp [inside, Pc.publishing]),
      ok_update inv.ok le_rfl le_rfl i trivial⟩
    have left : entered (Function.update s.pc i .outside) + 1 = entered s.pc :=
      entered_leave (by simp [inside])
    have level := inv.level
    change s.level - 1 = entered (Function.update s.pc i .outside)
    omega

theorem inv_reachable {s : State ι} (run : (machine ι).Reachable s) : Inv s := by
  refine run.invariant Inv ?_ fun s a s' inv taken => inv_step inv taken
  rintro s rfl
  refine ⟨?_, le_rfl, le_rfl, .inl le_rfl, fun _ => trivial⟩
  simp [entered, tally]

/-- The level is the number of tasks that have entered and not left. -/
theorem level_eq_entered {s : State ι} (run : (machine ι).Reachable s) :
    s.level = entered s.pc :=
  (inv_reachable run).level

/-- Between publications the peak is the highest level ever. -/
theorem peak_eq_highest {s : State ι} (run : (machine ι).Reachable s)
    (idle : ∀ i, (s.pc i).publishing = none) : s.peak = s.highest := by
  have inv := inv_reachable run
  refine le_antisymm inv.peak_le (inv.covered.resolve_right ?_)
  rintro ⟨i, publishes⟩
  rw [idle i] at publishes
  cases publishes

/-- A task outside leaves room below the number of tasks. -/
theorem level_lt_card {s : State ι} (run : (machine ι).Reachable s) {i : ι}
    (outside : s.pc i = .outside) : s.level < Fintype.card ι := by
  have room : entered s.pc < Fintype.card ι := tally_lt_card (i := i) (by simp [outside])
  have level := level_eq_entered run
  omega

end Wrkr.Lib.HighWater
