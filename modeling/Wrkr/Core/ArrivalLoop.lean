import Mathlib.Data.Fintype.Basic
import Wrkr.Core.Pacer

/-!
# The arrival-rate loop of a VU

`run_scenarios` spawns one pacer task, which calls `update_due` while the schedule lasts and
`mark_done` once its clock reading has reached the total duration, and the VUs of the scenario,
which run the `RampingArrivalRate` loop of `run_vu`. Both `claim_next` and `wait_for_update`
test their condition first and create the `Notified` future afterwards, so a VU can park after
the last broadcast. There are two ways into such a state, and `no_lost_wakeup` shows that there
are no others:

* the broadcast of `mark_done` finds a VU that has made its checks and is about to park;
* after it, a VU in `claim_next` sees an unclaimed token when it checks `done`, and by its second
  look another VU has taken the last one.
-/
namespace Wrkr.Core

open Wrkr.Lib

namespace ArrivalLoop

/-- The loop of `run_vu` for `VuWork::RampingArrivalRate`. -/
inductive VuPc
  | loopTop
  | isDone
  | activeVus
  | waitForUpdate
  | waiting (future : Notified)
  | claiming (pc : ClaimPc)
  | iterating
  | stopped
  deriving DecidableEq, Repr

/-- `clock` is the time since the start instant, which runner and VUs share. -/
structure State (ι : Type) where
  pacer : ArrivalPacer
  producer : ProducerPc
  vu : ι → VuPc
  clock : Nat

/-- Who moves: the clock, the producer, or a VU. -/
inductive Action (ι : Type)
  | tick
  | updateDue (addDue : Nat)
  | markDone
  | producer
  | vu (i : ι) (lucky : Bool)
  | failIteration (i : ι)
  deriving DecidableEq, Repr

/-- The scenario: total duration of its schedule, VU pool, and the one-based number of each VU
in it. -/
structure Scenario (ι : Type) where
  totalDuration : Nat
  preAllocatedVus : Nat
  maxVus : Nat
  scenarioVu : ι → Nat

variable {ι : Type} [DecidableEq ι]

/-- A step of a VU in the loop of `run_vu`, which reads clock, pacer and notification one after the
other. -/
def vuStep (c : Scenario ι) (s : State ι) (i : ι) (lucky : Bool) : Option (State ι) :=
  let goto (pc : VuPc) : State ι := { s with vu := Function.update s.vu i pc }
  match s.vu i with
  | .loopTop =>
    -- `schedule.is_done(elapsed) && pacer.is_done()`, the flag being read only if needed
    some (goto (if s.clock ≥ c.totalDuration then .isDone else .activeVus))
  | .isDone => some (goto (if s.pacer.done then .claiming .checkDone else .activeVus))
  | .activeVus =>
    some (goto (if c.scenarioVu i > s.pacer.activeVus then .waitForUpdate
      else .claiming .checkDone))
  | .waitForUpdate => some (goto (.waiting s.pacer.notify.notified))
  | .waiting future => if s.pacer.notify.Woken future then some (goto .loopTop) else none
  | .claiming pc =>
    match s.pacer.claimStep lucky pc with
    | some (pacer, .inl pc') =>
      some { s with pacer, vu := Function.update s.vu i (.claiming pc') }
    | some (pacer, .inr granted) =>
      some { s with pacer, vu := Function.update s.vu i (if granted then .iterating else .stopped) }
    | none => none
  | .iterating => some (goto .loopTop)
  | .stopped => none

/-- The producer goes on with its update. -/
def producerStep (s : State ι) : Option (State ι) :=
  match s.pacer.producerStep s.producer with
  | some (pacer, producer) => some { s with pacer, producer }
  | none => none

/-- An iteration that fails ends its VU through `?`. -/
def machine (c : Scenario ι) : Machine (State ι) (Action ι) where
  init s := s = ⟨.new c.preAllocatedVus c.maxVus, .idle, fun _ => .loopTop, 0⟩
  step s
    | .tick => some { s with clock := s.clock + 1 }
    | .updateDue addDue =>
      if s.producer = .idle ∧ s.clock < c.totalDuration then
        some { s with producer := ArrivalPacer.updateDue addDue }
      else none
    | .markDone =>
      if s.producer = .idle ∧ s.clock ≥ c.totalDuration then
        some { s with pacer := s.pacer.storeDone, producer := .broadcastDone }
      else none
    | .producer => producerStep s
    | .vu i lucky => vuStep c s i lucky
    | .failIteration i =>
      if s.vu i = .iterating then some { s with vu := Function.update s.vu i .stopped } else none

/-- The VU is parked in this future, in `wait_for_update` or in `claim_next`. -/
def ParkedIn (future : Notified) (pc : VuPc) : Prop :=
  pc = .waiting future ∨ pc = .claiming (.parked future)

/-- `mark_done` has returned, so no broadcast will follow, and a VU is parked in a future that
no past broadcast has woken. -/
def LostWakeup (s : State ι) : Prop :=
  s.producer = .finished ∧
    ∃ i future, ParkedIn future (s.vu i) ∧ ¬ s.pacer.notify.Woken future

/-- From this position VU `i` parks without looking at `done` again, whatever the others do. -/
def AboutToPark (c : Scenario ι) (p : ArrivalPacer) (i : ι) : VuPc → Prop
  | .activeVus => c.scenarioVu i > p.activeVus
  | .waitForUpdate => True
  | .claiming .createNotified => True
  | .claiming (.loadScheduled claimed) => p.scheduledTotal ≤ claimed
  | _ => False

/-- The steps that lead to no lost wake-up: the last broadcast is made while no VU is about to
park, and after it a VU that re-reads `claimed_total` in `claim_next` still finds a token. -/
def Prompt (c : Scenario ι) (s : State ι) : Action ι → Prop
  | .producer => s.producer = .broadcastDone → ∀ i, ¬ AboutToPark c s.pacer i (s.vu i)
  | .vu i _ => s.producer = .finished → s.vu i = .claiming .loadClaimed →
      s.pacer.claimedTotal < s.pacer.scheduledTotal
  | _ => True

instance (c : Scenario ι) (p : ArrivalPacer) (i : ι) : (pc : VuPc) → Decidable (AboutToPark c p i pc)
  | .activeVus => inferInstanceAs (Decidable (_ > _))
  | .waitForUpdate => .isTrue trivial
  | .claiming .createNotified => .isTrue trivial
  | .claiming (.loadScheduled _) => inferInstanceAs (Decidable (_ ≤ _))
  | .claiming .checkDone | .claiming .doneLoadClaimed | .claiming (.doneLoadScheduled _)
  | .claiming .loadClaimed | .claiming (.compareExchange _) | .claiming (.parked _)
  | .loopTop | .isDone | .waiting _ | .iterating | .stopped => .isFalse id

instance [Fintype ι] (c : Scenario ι) (s : State ι) : (a : Action ι) → Decidable (Prompt c s a)
  | .producer => inferInstanceAs (Decidable (_ → _))
  | .vu _ _ => inferInstanceAs (Decidable (_ → _ → _))
  | .tick | .updateDue _ | .markDone | .failIteration _ => .isTrue trivial

/-! ### Invariant -/

/-- A position that is harmless once `mark_done` has returned. -/
def Settled (c : Scenario ι) (p : ArrivalPacer) (i : ι) (pc : VuPc) : Prop :=
  ¬ AboutToPark c p i pc ∧ ∀ future, ParkedIn future pc → p.notify.Woken future

/-- After `mark_done` the flag is set and the schedule is over, and every VU is settled. -/
structure Inv (c : Scenario ι) (s : State ι) : Prop where
  issued : ∀ i future, ParkedIn future (s.vu i) → s.pacer.notify.Issued future
  done : s.producer = .broadcastDone ∨ s.producer = .finished →
    s.pacer.done = true ∧ s.clock ≥ c.totalDuration
  settled : s.producer = .finished → ∀ i, Settled c s.pacer i (s.vu i)

variable {c : Scenario ι} {s s' : State ι}

theorem inv_init (start : (machine c).init s) : Inv c s := by
  subst start
  constructor <;> simp [ParkedIn]

omit [DecidableEq ι] in
/-- Whether a position is settled does not depend on `claimed_total`. -/
theorem Settled.claimed {p : ArrivalPacer} {i : ι} {pc : VuPc} (settled : Settled c p i pc)
    (claimed : Nat) : Settled c { p with claimedTotal := claimed } i pc := by
  refine ⟨?_, settled.2⟩
  have moving := settled.1
  cases pc with
  | claiming q => cases q <;> exact moving
  | _ => exact moving

/-- Moving one VU, and perhaps `claimed_total` with it, keeps the invariant when the new
position satisfies the clauses. -/
theorem Inv.goto (inv : Inv c s) (i : ι) (pc : VuPc) (claimed : Nat)
    (issued : ∀ future, ParkedIn future pc → s.pacer.notify.Issued future)
    (settled : s.producer = .finished → Settled c s.pacer i pc) :
    Inv c { s with
      pacer := { s.pacer with claimedTotal := claimed }
      vu := Function.update s.vu i pc } := by
  refine ⟨?_, inv.done, ?_⟩
  -- only the VU that moves can be in a new future
  · intro j future parked
    by_cases same : j = i
    · subst same
      exact issued future (by simpa using parked)
    · exact inv.issued j future (by simpa [same] using parked)
  · intro finished j
    by_cases same : j = i
    · subst same
      simpa using (settled finished).claimed claimed
    · simpa [same] using (inv.settled finished j).claimed claimed

omit [DecidableEq ι] in
/-- A position that is neither parked nor about to park. -/
theorem settled_of_active {p : ArrivalPacer} {i : ι} {pc : VuPc}
    (moving : ¬ AboutToPark c p i pc) (awake : ∀ future, ¬ ParkedIn future pc) :
    Settled c p i pc :=
  ⟨moving, fun future parked => absurd parked (awake future)⟩

omit [DecidableEq ι] in
/-- Inside `claim_next` a settled call stays settled: `done` is set, and the one read that could
send it to sleep is excluded by `Prompt`. -/
theorem settled_claimStep {p p' : ArrivalPacer} {i : ι} {pc pc' : ClaimPc} {lucky : Bool}
    (settled : Settled c p i (.claiming pc))
    (token : pc = .loadClaimed → p.claimedTotal < p.scheduledTotal)
    (taken : p.claimStep lucky pc = some (p', .inl pc')) : Settled c p i (.claiming pc') := by
  cases pc with
  | checkDone =>
    cases taken
    refine settled_of_active ?_ ?_ <;> split <;> simp [AboutToPark, ParkedIn]
  | doneLoadClaimed =>
    cases taken
    exact settled_of_active (by simp [AboutToPark]) (by simp [ParkedIn])
  | doneLoadScheduled claimed =>
    simp only [ArrivalPacer.claimStep] at taken
    split at taken
    · simp at taken
    · cases taken
      exact settled_of_active (by simp [AboutToPark]) (by simp [ParkedIn])
  | loadClaimed =>
    cases taken
    -- the value just read is below `scheduled_total`, which no longer changes
    have behind := token rfl
    refine settled_of_active ?_ (by simp [ParkedIn])
    simp only [AboutToPark]
    omega
  | loadScheduled claimed =>
    have behind : ¬ p.scheduledTotal ≤ claimed := settled.1
    cases taken
    rw [if_pos (by omega)]
    exact settled_of_active (by simp [AboutToPark]) (by simp [ParkedIn])
  -- a lost race starts over and reads `done` first
  | compareExchange claimed =>
    simp only [ArrivalPacer.claimStep] at taken
    split at taken
    · simp at taken
    · cases taken
      exact settled_of_active (by simp [AboutToPark]) (by simp [ParkedIn])
  -- excluded: a settled call does not stand here
  | createNotified => exact absurd trivial settled.1
  | parked future =>
    simp only [ArrivalPacer.claimStep] at taken
    split at taken
    · cases taken
      exact settled_of_active (by simp [AboutToPark]) (by simp [ParkedIn])
    · simp at taken

/-- The only future a step of `claim_next` can leave a call parked in is a fresh one. -/
theorem issued_claimStep {p p' : ArrivalPacer} {pc pc' : ClaimPc} {lucky : Bool}
    (taken : p.claimStep lucky pc = some (p', .inl pc')) (future : Notified)
    (parked : pc' = .parked future) : p.notify.Issued future := by
  subst parked
  cases pc with
  | createNotified => cases taken; exact Notify.issued_notified _
  | checkDone => simp only [ArrivalPacer.claimStep] at taken; split at taken <;> simp at taken
  | doneLoadClaimed => simp [ArrivalPacer.claimStep] at taken
  | doneLoadScheduled claimed =>
    simp only [ArrivalPacer.claimStep] at taken
    split at taken <;> simp at taken
  | loadClaimed => simp [ArrivalPacer.claimStep] at taken
  | loadScheduled claimed =>
    simp only [ArrivalPacer.claimStep] at taken
    split at taken <;> simp at taken
  | compareExchange claimed =>
    simp only [ArrivalPacer.claimStep] at taken
    split at taken <;> simp at taken
  | parked future' =>
    simp only [ArrivalPacer.claimStep] at taken
    split at taken <;> simp at taken

/-- Every prompt step of a VU keeps the invariant: a VU that parks has its future before the last
broadcast. -/
theorem inv_vuStep (inv : Inv c s) {i : ι} {lucky : Bool} (prompt : Prompt c s (.vu i lucky))
    (taken : vuStep c s i lucky = some s') : Inv c s' := by
  unfold vuStep at taken
  dsimp only at taken
  split at taken
  next =>
    cases taken
    refine inv.goto i _ _ (by split <;> simp [ParkedIn]) fun finished => ?_
    -- the clock has reached the total, so the VU goes on to read `done`
    rw [if_pos (inv.done (.inr finished)).2]
    exact settled_of_active (by simp [AboutToPark]) (by simp [ParkedIn])
  next =>
    cases taken
    refine inv.goto i _ _ (by split <;> simp [ParkedIn]) fun finished => ?_
    rw [if_pos (inv.done (.inr finished)).1]
    exact settled_of_active (by simp [AboutToPark]) (by simp [ParkedIn])
  next pc =>
    cases taken
    refine inv.goto i _ _ (by split <;> simp [ParkedIn]) fun finished => ?_
    -- `Settled` says that the VU is within the active count, which no longer changes
    have few : ¬ c.scenarioVu i > s.pacer.activeVus := by
      have settled := (inv.settled finished i).1
      rwa [pc] at settled
    rw [if_neg few]
    exact settled_of_active (by simp [AboutToPark]) (by simp [ParkedIn])
  next pc =>
    cases taken
    refine inv.goto i _ _ (by simp [ParkedIn]) fun finished => ?_
    have settled := (inv.settled finished i).1
    rw [pc] at settled
    exact absurd trivial settled
  next =>
    split at taken
    · cases taken
      exact inv.goto i _ _ (by simp [ParkedIn]) fun _ =>
        settled_of_active (by simp [AboutToPark]) (by simp [ParkedIn])
    · simp at taken
  next pc claiming =>
    split at taken
    next pacer pc' stepped =>
      cases taken
      rw [ArrivalPacer.claimStep_frame stepped]
      refine inv.goto i _ _ ?_ fun finished => ?_
      · intro future parked
        refine issued_claimStep stepped future ?_
        simpa [ParkedIn] using parked
      · have settled := inv.settled finished i
        rw [claiming] at settled
        -- `Prompt` is about the one read that could find nothing
        refine settled_claimStep settled (fun loading => prompt finished ?_) stepped
        rw [claiming, loading]
    next pacer granted stepped =>
      cases taken
      rw [ArrivalPacer.claimStep_frame stepped]
      refine inv.goto i _ _ (by cases granted <;> simp [ParkedIn]) fun _ => ?_
      cases granted <;> exact settled_of_active (by simp [AboutToPark]) (by simp [ParkedIn])
    next => simp at taken
  next =>
    cases taken
    exact inv.goto i _ _ (by simp [ParkedIn]) fun _ =>
      settled_of_active (by simp [AboutToPark]) (by simp [ParkedIn])
  next => simp at taken

omit [DecidableEq ι] in
/-- So does every step of the producer. -/
theorem inv_producerStep (inv : Inv c s) (prompt : Prompt c s .producer)
    (taken : producerStep s = some s') : Inv c s' := by
  unfold producerStep at taken
  split at taken
  next pacer producer stepped =>
    cases taken
    have frame := ArrivalPacer.producerStep_frame stepped
    have issued : ∀ i future, ParkedIn future (s.vu i) → pacer.notify.Issued future := by
      intro i future parked
      have before := inv.issued i future parked
      rcases frame.notify with same | broadcast
      · rw [same]; exact before
      -- a broadcast wakes futures and issues none
      · rw [broadcast]; exact before.notifyWaiters
    refine ⟨issued, ?_, ?_⟩
    · rintro (pc | pc)
      · exact absurd pc frame.later
      · rw [frame.done]
        exact inv.done (.inl (frame.finishes pc))
    · -- the broadcast of `mark_done`: every future issued so far is woken
      intro finished i
      have last := frame.finishes finished
      have moving := prompt last i
      rw [last] at stepped
      cases stepped
      refine ⟨?_, fun future parked => (inv.issued i future parked).woken⟩
      cases pc : s.vu i with
      | claiming q => rw [pc] at moving; cases q <;> exact moving
      | _ => rw [pc] at moving; exact moving
  next => simp at taken

/-- The invariant holds in every run of prompt steps. -/
theorem inv_of_reachableBy (run : (machine c).ReachableBy (Prompt c) s) : Inv c s := by
  refine run.invariant (Inv c) (fun s start => inv_init start) fun s a s' inv prompt taken => ?_
  cases a with
  | tick =>
    cases taken
    refine ⟨inv.issued, fun ended => ?_, inv.settled⟩
    exact ⟨(inv.done ended).1, Nat.le_succ_of_le (inv.done ended).2⟩
  | updateDue addDue =>
    simp only [machine] at taken
    split at taken
    · cases taken
      refine ⟨inv.issued, ?_, ?_⟩ <;> simp only [ArrivalPacer.updateDue] <;> split <;> simp
    · simp at taken
  | markDone =>
    simp only [machine] at taken
    split at taken
    next ready =>
      cases taken
      exact ⟨inv.issued, fun _ => ⟨rfl, ready.2⟩, by simp⟩
    next => simp at taken
  | producer => exact inv_producerStep inv prompt taken
  | vu i lucky => exact inv_vuStep inv prompt taken
  -- a VU whose iteration fails leaves the loop, and does not park
  | failIteration i =>
    simp only [machine] at taken
    split at taken
    · cases taken
      exact inv.goto i .stopped s.pacer.claimedTotal (by simp [ParkedIn]) fun _ =>
        settled_of_active (by simp [AboutToPark]) (by simp [ParkedIn])
    · simp at taken

/-! ### Lost wake-ups -/

/-- In every interleaving of prompt steps no VU is left parked after `mark_done`. -/
theorem no_lost_wakeup (run : (machine c).ReachableBy (Prompt c) s) : ¬ LostWakeup s := by
  rintro ⟨finished, i, future, parked, asleep⟩
  exact asleep (((inv_of_reachableBy run).settled finished i).2 future parked)

/-- One VU, one unit of time, nothing due. -/
def soloScenario : Scenario (Fin 1) := ⟨1, 1, 1, fun _ => 1⟩

/-- The VU is parked before `mark_done` broadcasts, and is woken by it. -/
theorem no_lost_wakeup_parked_in_time :
    ∃ s, (machine soloScenario).ReachableBy (Prompt soloScenario) s ∧
      (s.producer = .finished ∧ s.vu 0 = .claiming (.parked ⟨0⟩)) ∧ ¬ LostWakeup s := by
  obtain ⟨s, run, parked⟩ := Machine.exists_reachableBy_of_exec
    (machine soloScenario) (Prompt soloScenario)
    (fun s => s.producer = .finished ∧ s.vu 0 = .claiming (.parked ⟨0⟩))
    ([.vu 0 true, .vu 0 true, .vu 0 true, .vu 0 true, .vu 0 true, .vu 0 true, .tick,
      .markDone, .producer]) rfl (by decide)
  exact ⟨s, run, parked, no_lost_wakeup run⟩

/-- The VU finds `done` unset and nothing to claim, `mark_done` stores and broadcasts, and only
then the VU creates the future nobody will wake. -/
theorem lost_wakeup_reachable :
    ∃ s, (machine soloScenario).Reachable s ∧ LostWakeup s := by
  obtain ⟨s, run, finished, parked, calls⟩ := Machine.exists_reachableBy_of_exec
    (machine soloScenario) (fun _ _ => True)
    (fun s => s.producer = .finished ∧ s.vu 0 = .claiming (.parked ⟨1⟩) ∧
      s.pacer.notify = ⟨1⟩)
    ([.vu 0 true, .vu 0 true, .vu 0 true, .vu 0 true, .vu 0 true, .tick, .markDone,
      .producer, .vu 0 true]) rfl (by decide)
  exact ⟨s, run, finished, 0, ⟨1⟩, .inr parked, by rw [calls]; decide⟩

/-- Once `mark_done` has returned, a VU that is about to park does, and is lost. -/
theorem lost_of_aboutToPark (run : (machine c).Reachable s) (finished : s.producer = .finished)
    {i : ι} (about : AboutToPark c s.pacer i (s.vu i)) :
    ∃ s', (machine c).Reachable s' ∧ LostWakeup s' := by
  -- from the two positions that create the future, one step parks the VU
  have park {s : State ι} (run : (machine c).Reachable s) (finished : s.producer = .finished)
      (creating : s.vu i = .waitForUpdate ∨ s.vu i = .claiming .createNotified) :
      ∃ s', (machine c).Reachable s' ∧ LostWakeup s' := by
    rcases creating with pc | pc
    · have taken : (machine c).step s (.vu i true) = some { s with
          vu := Function.update s.vu i (.waiting s.pacer.notify.notified) } := by
        simp [machine, vuStep, pc]
      exact ⟨_, .step run trivial taken, finished, i, _, .inl (by simp),
        Notify.not_woken_notified _⟩
    · have taken : (machine c).step s (.vu i true) = some { s with
          vu := Function.update s.vu i (.claiming (.parked s.pacer.notify.notified)) } := by
        simp [machine, vuStep, pc, ArrivalPacer.claimStep]
      exact ⟨_, .step run trivial taken, finished, i, _, .inr (by simp),
        Notify.not_woken_notified _⟩
  cases pc : s.vu i with
  | activeVus =>
    rw [pc] at about
    have many : c.scenarioVu i > s.pacer.activeVus := about
    have taken : (machine c).step s (.vu i true) = some { s with
        vu := Function.update s.vu i .waitForUpdate } := by
      simp [machine, vuStep, pc, many]
    exact park (.step run trivial taken) finished (.inl (by simp))
  | waitForUpdate => exact park run finished (.inl pc)
  | claiming q =>
    rw [pc] at about
    cases q with
    | createNotified => exact park run finished (.inr pc)
    | loadScheduled claimed =>
      -- the read of `scheduled_total` sends the call to `notified()`
      have drained : ¬ claimed < s.pacer.scheduledTotal := Nat.not_lt.mpr about
      have taken : (machine c).step s (.vu i true) = some { s with
          vu := Function.update s.vu i (.claiming .createNotified) } := by
        simp [machine, vuStep, pc, ArrivalPacer.claimStep, drained]
      exact park (.step run trivial taken) finished (.inr (by simp))
    | _ => exact absurd about id
  | _ => rw [pc] at about; exact absurd about id

/-- The condition is exact: whenever a step that is not prompt can be taken, a lost wake-up can
follow it. -/
theorem lost_of_not_prompt (run : (machine c).Reachable s) {a : Action ι}
    (late : ¬ Prompt c s a) : ∃ s', (machine c).Reachable s' ∧ LostWakeup s' := by
  cases a with
  | producer =>
    simp only [Prompt, not_forall, not_not] at late
    obtain ⟨last, i, about⟩ := late
    -- the broadcast comes first and the VU parks after it
    have broadcast : (machine c).step s .producer = some { s with
        pacer := { s.pacer with notify := s.pacer.notify.notifyWaiters }
        producer := .finished } := by
      simp [machine, producerStep, last, ArrivalPacer.producerStep]
    refine lost_of_aboutToPark (.step run trivial broadcast) rfl (i := i) ?_
    cases pc : s.vu i with
    | claiming q => rw [pc] at about; cases q <;> exact about
    | _ => rw [pc] at about; exact about
  | vu i lucky =>
    simp only [Prompt, not_forall, not_lt] at late
    obtain ⟨finished, loading, drained⟩ := late
    have load : (machine c).step s (.vu i lucky) = some { s with
        vu := Function.update s.vu i (.claiming (.loadScheduled s.pacer.claimedTotal)) } := by
      simp [machine, vuStep, loading, ArrivalPacer.claimStep]
    refine lost_of_aboutToPark (.step run trivial load) finished (i := i) ?_
    simpa [AboutToPark] using drained
  | _ => exact absurd trivial late

end ArrivalLoop

end Wrkr.Core
