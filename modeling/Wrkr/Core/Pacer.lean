import Mathlib.Algebra.Group.Nat.Defs
import Wrkr.Lib.Machine
import Wrkr.Lib.Sync
import Mathlib.Data.List.Basic

/-!
# The arrival pacer

One producer schedules tokens (`update_due`, finally `mark_done`), any number of consumers claim
them (`claim_next`). The three counters are read and written by separate atomic operations, so
the producer works with a `claimed_total` that may be stale and a consumer with a
`scheduled_total` that may be; the compare-exchange may fail for no reason. What makes the
bounds survive is that every counter only grows, and that a stale value is a lower bound.
-/
namespace Wrkr.Core

open Wrkr.Lib

/-- The fields of `ArrivalPacer`, each an atomic. -/
structure ArrivalPacer where
  scheduledTotal : Nat
  claimedTotal : Nat
  droppedTotal : Nat
  activeVus : Nat
  preAllocatedVus : Nat
  maxVus : Nat
  done : Bool
  notify : Notify
  deriving DecidableEq, Repr

/-- `fetch_add` on an `AtomicU64`. -/
def fetchAdd (total n : Nat) : Nat := (total + n) % 2 ^ 64

/-- `saturating_add` on `u64`. -/
def saturatingAdd (a b : Nat) : Nat := min (a + b) (2 ^ 64 - 1)

/-- `Ord::clamp`, which panics (`none`) on an empty range. -/
def clamp (x lo hi : Nat) : Option Nat :=
  if lo ≤ hi then some (max lo (min x hi)) else none

namespace ArrivalPacer

/-- Nothing is scheduled, and the pre-allocated VUs are active. -/
def new (preAllocatedVus maxVus : Nat) : ArrivalPacer where
  scheduledTotal := 0
  claimedTotal := 0
  droppedTotal := 0
  activeVus := preAllocatedVus
  preAllocatedVus := preAllocatedVus
  maxVus := maxVus
  done := false
  notify := Notify.new

/-- The part of `add_due` that `update_due` schedules, given the totals it has read. -/
def toAdd (p : ArrivalPacer) (addDue claimed scheduled : Nat) : Nat :=
  -- `saturating_sub` twice, of the backlog and of the room that it leaves
  min addDue (max p.maxVus 1 - (scheduled - claimed))

/-- The policy of `update_active_vus`. -/
def desiredVus (p : ArrivalPacer) (claimed scheduled : Nat) : Option Nat :=
  let backlog := scheduled - claimed
  let desired :=
    if backlog = 0 then p.preAllocatedVus else max p.preAllocatedVus (saturatingAdd backlog 1)
  -- `clamp(1, max_vus)` panics for a pool without VUs
  clamp desired 1 p.maxVus

end ArrivalPacer

/-- The atomic steps of the producer's calls. `due` in the steps of `update_active_vus` says
whether `update_due` will broadcast afterwards: it does not when nothing was due. -/
inductive ProducerPc
  | idle
  | dueLoadClaimed (addDue : Nat)
  | dueLoadScheduled (addDue claimed : Nat)
  | addScheduled (toAdd dropped : Nat)
  | addDropped (dropped : Nat)
  | activeLoadClaimed (due : Bool)
  | activeLoadScheduled (due : Bool) (claimed : Nat)
  | storeActive (due : Bool) (desired : Nat)
  | broadcastDue
  | broadcastDone
  | finished
  | panicked
  deriving DecidableEq, Repr

namespace ArrivalPacer

/-- The first step of `update_due(add_due)`. -/
def updateDue (addDue : Nat) : ProducerPc :=
  if addDue = 0 then .activeLoadClaimed false else .dueLoadClaimed addDue

/-- A step inside one of the producer's calls. -/
def producerStep (p : ArrivalPacer) : ProducerPc → Option (ArrivalPacer × ProducerPc)
  | .dueLoadClaimed addDue => some (p, .dueLoadScheduled addDue p.claimedTotal)
  | .dueLoadScheduled addDue claimed =>
    let toAdd := p.toAdd addDue claimed p.scheduledTotal
    some (p, .addScheduled toAdd (addDue - toAdd))
  | .addScheduled toAdd dropped =>
    some (if toAdd ≠ 0 then { p with scheduledTotal := fetchAdd p.scheduledTotal toAdd } else p,
      .addDropped dropped)
  | .addDropped dropped =>
    some (if dropped ≠ 0 then { p with droppedTotal := fetchAdd p.droppedTotal dropped } else p,
      .activeLoadClaimed true)
  | .activeLoadClaimed due => some (p, .activeLoadScheduled due p.claimedTotal)
  | .activeLoadScheduled due claimed =>
    match p.desiredVus claimed p.scheduledTotal with
    | some desired => some (p, .storeActive due desired)
    | none => some (p, .panicked)
  -- `update_due(0)` returns after the count
  | .storeActive due desired =>
    some ({ p with activeVus := desired }, if due then .broadcastDue else .idle)
  | .broadcastDue => some ({ p with notify := p.notify.notifyWaiters }, .idle)
  | .broadcastDone => some ({ p with notify := p.notify.notifyWaiters }, .finished)
  | .idle => none
  | .finished => none
  | .panicked => none

/-- `mark_done` up to its store; the broadcast is a step of its own. -/
def storeDone (p : ArrivalPacer) : ArrivalPacer := { p with done := true }

end ArrivalPacer

/-- The atomic steps of `claim_next`. -/
inductive ClaimPc
  | checkDone
  | doneLoadClaimed
  | doneLoadScheduled (claimed : Nat)
  | loadClaimed
  | loadScheduled (claimed : Nat)
  | compareExchange (claimed : Nat)
  | createNotified
  | parked (future : Notified)
  deriving DecidableEq, Repr

/-- One step of `claim_next`: the next position, or the value returned. `lucky` is false when
`compare_exchange_weak` fails spuriously. A parked call moves once its future is woken. -/
def ArrivalPacer.claimStep (p : ArrivalPacer) (lucky : Bool) :
    ClaimPc → Option (ArrivalPacer × (ClaimPc ⊕ Bool))
  | .checkDone => some (p, .inl (if p.done then .doneLoadClaimed else .loadClaimed))
  | .doneLoadClaimed => some (p, .inl (.doneLoadScheduled p.claimedTotal))
  -- done and drained: the call gives up
  | .doneLoadScheduled claimed =>
    some (p, if claimed ≥ p.scheduledTotal then .inr false else .inl .loadClaimed)
  | .loadClaimed => some (p, .inl (.loadScheduled p.claimedTotal))
  | .loadScheduled claimed =>
    some (p, .inl (if claimed < p.scheduledTotal then .compareExchange claimed
      else .createNotified))
  | .compareExchange claimed =>
    if p.claimedTotal = claimed ∧ lucky then
      some ({ p with claimedTotal := saturatingAdd claimed 1 }, .inr true)
    else some (p, .inl .checkDone)
  -- a broadcast between the last look and this line is missed
  | .createNotified => some (p, .inl (.parked p.notify.notified))
  | .parked future => if p.notify.Woken future then some (p, .inl .checkDone) else none

/-! ### What one step does to the counters -/

namespace ArrivalPacer

/-- The backlog is bounded by the number of VUs. -/
structure Bounded (p : ArrivalPacer) : Prop where
  claimed : p.claimedTotal ≤ p.scheduledTotal
  scheduled : p.scheduledTotal ≤ p.claimedTotal + p.maxVus

/-- What the producer knows at each step: the share of `due` it has not booked yet, and that
the totals it has read are lower bounds. -/
def ProducerOk (p : ArrivalPacer) (due : Nat) : ProducerPc → Prop
  | .dueLoadClaimed addDue => p.scheduledTotal + p.droppedTotal + addDue = due
  | .dueLoadScheduled addDue claimed =>
    p.scheduledTotal + p.droppedTotal + addDue = due ∧
      claimed ≤ p.claimedTotal ∧ p.scheduledTotal ≤ claimed + p.maxVus
  | .addScheduled toAdd dropped =>
    p.scheduledTotal + p.droppedTotal + (toAdd + dropped) = due ∧
      p.scheduledTotal + toAdd ≤ p.claimedTotal + p.maxVus
  | .addDropped dropped => p.scheduledTotal + p.droppedTotal + dropped = due
  | _ => p.scheduledTotal + p.droppedTotal = due

/-- What a consumer knows at each step of `claim_next`. -/
def ClaimOk (p : ArrivalPacer) : ClaimPc → Prop
  | .doneLoadClaimed => p.done = true
  | .doneLoadScheduled claimed => p.done = true ∧ claimed ≤ p.claimedTotal
  | .loadScheduled claimed => claimed ≤ p.claimedTotal
  | .compareExchange claimed => claimed < p.scheduledTotal
  | _ => True

/-- The counters only grow, and `done` stays set. -/
structure Grows (p p' : ArrivalPacer) : Prop where
  scheduled : p.scheduledTotal ≤ p'.scheduledTotal
  claimed : p.claimedTotal ≤ p'.claimedTotal
  done : p.done = true → p'.done = true

theorem Grows.of_eq {p p' : ArrivalPacer} (scheduled : p'.scheduledTotal = p.scheduledTotal)
    (claimed : p'.claimedTotal = p.claimedTotal) (done : p'.done = p.done) : Grows p p' :=
  ⟨scheduled.ge, claimed.ge, fun set => done.trans set⟩

/-- What a claim has read stays a lower bound. -/
theorem ClaimOk.grows {p p' : ArrivalPacer} {pc : ClaimPc} (ok : p.ClaimOk pc)
    (grows : Grows p p') : p'.ClaimOk pc := by
  have scheduled := grows.scheduled
  have claimed := grows.claimed
  cases pc with
  | doneLoadClaimed => exact grows.done ok
  | doneLoadScheduled c => exact ⟨grows.done ok.1, ok.2.trans claimed⟩
  | loadScheduled c => exact Nat.le_trans ok claimed
  | compareExchange c => exact Nat.lt_of_lt_of_le ok scheduled
  | _ => trivial

/-- A claim moves `claimed_total` only, and only upwards, which the producer does not mind. -/
theorem ProducerOk.claimed {p : ArrivalPacer} {due claimed : Nat} {pc : ProducerPc}
    (ok : p.ProducerOk due pc) (more : p.claimedTotal ≤ claimed) :
    ProducerOk { p with claimedTotal := claimed } due pc := by
  cases pc with
  | dueLoadScheduled addDue c => exact ⟨ok.1, ok.2.1.trans more, ok.2.2⟩
  -- a claim makes more room, never less
  | addScheduled toAdd dropped =>
    refine ⟨ok.1, ?_⟩
    have room := ok.2
    change p.scheduledTotal + toAdd ≤ claimed + p.maxVus
    omega
  | _ => exact ok

/-- The producer books `add_due` exactly: what it does not schedule it drops, and it never
schedules more than the stale backlog allows. -/
theorem producerStep_spec {p p' : ArrivalPacer} {due : Nat} {pc pc' : ProducerPc}
    (bounded : p.Bounded) (ok : p.ProducerOk due pc) (vus : 1 ≤ p.maxVus) (fits : due < 2 ^ 64)
    (taken : p.producerStep pc = some (p', pc')) :
    p'.Bounded ∧ p'.ProducerOk due pc' ∧ Grows p p' ∧ p'.claimedTotal = p.claimedTotal := by
  obtain ⟨claimedLe, scheduledLe⟩ := bounded
  cases pc with
  | dueLoadClaimed addDue =>
    cases taken
    exact ⟨⟨claimedLe, scheduledLe⟩, ⟨ok, Nat.le_refl _, scheduledLe⟩,
      .of_eq rfl rfl rfl, rfl⟩
  | dueLoadScheduled addDue claimed =>
    cases taken
    -- the backlog was computed with a `claimed` that may be too small, so it is too large
    obtain ⟨booked, stale, room⟩ := ok
    refine ⟨⟨claimedLe, scheduledLe⟩, ⟨?_, ?_⟩, .of_eq rfl rfl rfl, rfl⟩
    · simp only [toAdd]; omega
    · simp only [toAdd]; omega
  | addScheduled toAdd dropped =>
    obtain ⟨booked, room⟩ := ok
    -- nothing wraps while the tokens due fit
    have exact : fetchAdd p.scheduledTotal toAdd = p.scheduledTotal + toAdd :=
      Nat.mod_eq_of_lt (by omega)
    by_cases zero : toAdd = 0
    · subst zero
      cases taken
      refine ⟨⟨claimedLe, scheduledLe⟩, ?_, .of_eq rfl rfl rfl, rfl⟩
      simp only [ProducerOk, ne_eq, not_true, if_false]
      omega
    · simp only [producerStep, ne_eq, zero, not_false_eq_true, if_true, exact] at taken
      cases taken
      refine ⟨⟨?_, room⟩, ?_, ⟨Nat.le_add_right _ _, Nat.le_refl _, id⟩, rfl⟩
      · exact Nat.le_add_right_of_le claimedLe
      · simp only [ProducerOk]; omega
  | addDropped dropped =>
    have booked : p.scheduledTotal + p.droppedTotal + dropped = due := ok
    -- the same for the tokens dropped
    have exact : fetchAdd p.droppedTotal dropped = p.droppedTotal + dropped :=
      Nat.mod_eq_of_lt (by omega)
    by_cases zero : dropped = 0
    · subst zero
      cases taken
      exact ⟨⟨claimedLe, scheduledLe⟩, ok, .of_eq rfl rfl rfl, rfl⟩
    · simp only [producerStep, ne_eq, zero, not_false_eq_true, if_true, exact] at taken
      cases taken
      refine ⟨⟨claimedLe, scheduledLe⟩, ?_, .of_eq rfl rfl rfl, rfl⟩
      simp only [ProducerOk]; omega
  | activeLoadClaimed due' =>
    cases taken
    exact ⟨⟨claimedLe, scheduledLe⟩, ok, .of_eq rfl rfl rfl, rfl⟩
  | activeLoadScheduled due' claimed =>
    simp only [producerStep] at taken
    split at taken
    · cases taken
      exact ⟨⟨claimedLe, scheduledLe⟩, ok, .of_eq rfl rfl rfl, rfl⟩
    · cases taken
      exact ⟨⟨claimedLe, scheduledLe⟩, ok, .of_eq rfl rfl rfl, rfl⟩
  | storeActive due' desired =>
    simp only [producerStep] at taken
    cases taken
    refine ⟨⟨claimedLe, scheduledLe⟩, ?_, .of_eq rfl rfl rfl, rfl⟩
    cases due' <;> exact ok
  | broadcastDue =>
    cases taken
    exact ⟨⟨claimedLe, scheduledLe⟩, ok, .of_eq rfl rfl rfl, rfl⟩
  | broadcastDone =>
    cases taken
    exact ⟨⟨claimedLe, scheduledLe⟩, ok, .of_eq rfl rfl rfl, rfl⟩
  | idle => simp [producerStep] at taken
  | finished => simp [producerStep] at taken
  | panicked => simp [producerStep] at taken

/-- What no step of the producer touches, and where the rest changes: the active count is
written where it is stored, a broadcast counts one call, and only the broadcast of `mark_done`
finishes. -/
structure ProducerFrame (p p' : ArrivalPacer) (pc pc' : ProducerPc) : Prop where
  done : p'.done = p.done
  maxVus : p'.maxVus = p.maxVus
  pre : p'.preAllocatedVus = p.preAllocatedVus
  active : p'.activeVus = p.activeVus ∨ ∃ due, pc = .storeActive due p'.activeVus
  notify : p'.notify = p.notify ∨ p'.notify = p.notify.notifyWaiters
  later : pc' ≠ .broadcastDone
  finishes : pc' = .finished → pc = .broadcastDone

/-- What a step of the producer leaves alone. -/
theorem producerStep_frame {p p' : ArrivalPacer} {pc pc' : ProducerPc}
    (taken : p.producerStep pc = some (p', pc')) : ProducerFrame p p' pc pc' := by
  -- the steps that only read
  have quiet {pc'' : ProducerPc} (later : pc'' ≠ .broadcastDone) (open_ : pc'' ≠ .finished) :
      ProducerFrame p p pc pc'' :=
    ⟨rfl, rfl, rfl, .inl rfl, .inl rfl, later, fun finished => absurd finished open_⟩
  cases pc with
  | addScheduled toAdd dropped =>
    simp only [producerStep] at taken
    split at taken
    · cases taken
      exact ⟨rfl, rfl, rfl, .inl rfl, .inl rfl, by simp, by simp⟩
    · cases taken; exact quiet (by simp) (by simp)
  | addDropped dropped =>
    simp only [producerStep] at taken
    split at taken
    · cases taken
      exact ⟨rfl, rfl, rfl, .inl rfl, .inl rfl, by simp, by simp⟩
    · cases taken; exact quiet (by simp) (by simp)
  | activeLoadScheduled due claimed =>
    simp only [producerStep] at taken
    split at taken <;> cases taken <;> exact quiet (by simp) (by simp)
  | storeActive due desired =>
    cases taken
    exact ⟨rfl, rfl, rfl, .inr ⟨due, rfl⟩, .inl rfl, by cases due <;> simp, by cases due <;> simp⟩
  | dueLoadClaimed addDue => cases taken; exact quiet (by simp) (by simp)
  | dueLoadScheduled addDue claimed => cases taken; exact quiet (by simp) (by simp)
  | activeLoadClaimed due => cases taken; exact quiet (by simp) (by simp)
  | broadcastDue => cases taken; exact ⟨rfl, rfl, rfl, .inl rfl, .inr rfl, by simp, by simp⟩
  | broadcastDone => cases taken; exact ⟨rfl, rfl, rfl, .inl rfl, .inr rfl, by simp, by simp⟩
  | idle => simp [producerStep] at taken
  | finished => simp [producerStep] at taken
  | panicked => simp [producerStep] at taken

/-- `claim_next` writes nothing but `claimed_total`. -/
theorem claimStep_frame {p p' : ArrivalPacer} {lucky : Bool} {pc : ClaimPc} {out : ClaimPc ⊕ Bool}
    (taken : p.claimStep lucky pc = some (p', out)) :
    p' = { p with claimedTotal := p'.claimedTotal } := by
  cases pc with
  | compareExchange claimed =>
    simp only [claimStep] at taken
    split at taken <;> cases taken <;> rfl
  | parked future =>
    simp only [claimStep] at taken
    split at taken
    · cases taken; rfl
    · simp at taken
  | checkDone => cases taken; rfl
  | doneLoadClaimed => cases taken; rfl
  | doneLoadScheduled claimed => cases taken; rfl
  | loadClaimed => cases taken; rfl
  | loadScheduled claimed => cases taken; rfl
  | createNotified => cases taken; rfl

/-- What a step of `claim_next` yields: a true result claims exactly one scheduled token, a
false one is given only when the pacer is done and nothing is left. -/
def ClaimResult (p p' : ArrivalPacer) : ClaimPc ⊕ Bool → Prop
  | .inl pc => p' = p ∧ p.ClaimOk pc
  | .inr true => p' = { p with claimedTotal := p.claimedTotal + 1 } ∧
      p.claimedTotal < p.scheduledTotal
  | .inr false => p' = p ∧ p.done = true ∧ p.claimedTotal = p.scheduledTotal

/-- What a step of `try_claim` does, the failed exchanges included. -/
theorem claimStep_spec {p p' : ArrivalPacer} {lucky : Bool} {pc : ClaimPc} {out : ClaimPc ⊕ Bool}
    (bounded : p.Bounded) (ok : p.ClaimOk pc) (fits : p.scheduledTotal < 2 ^ 64)
    (taken : p.claimStep lucky pc = some (p', out)) : ClaimResult p p' out := by
  have claimedLe := bounded.claimed
  cases pc with
  | checkDone =>
    cases taken
    refine ⟨rfl, ?_⟩
    split
    next done => exact done
    next => trivial
  | doneLoadClaimed => cases taken; exact ⟨rfl, ok, Nat.le_refl _⟩
  | doneLoadScheduled claimed =>
    obtain ⟨done, stale⟩ := ok
    simp only [claimStep] at taken
    cases taken
    split
    -- done, and everything that was scheduled is claimed
    next drained => exact ⟨rfl, done, by omega⟩
    next => exact ⟨rfl, trivial⟩
  | loadClaimed => cases taken; exact ⟨rfl, Nat.le_refl _⟩
  | loadScheduled claimed =>
    cases taken
    refine ⟨rfl, ?_⟩
    split
    next behind => exact behind
    next => trivial
  | compareExchange claimed =>
    simp only [claimStep] at taken
    split at taken
    -- the exchange only succeeds on a value that is below what is scheduled
    next swapped =>
      cases taken
      have behind : claimed < p.scheduledTotal := ok
      obtain ⟨rfl, -⟩ := swapped
      have exact : saturatingAdd p.claimedTotal 1 = p.claimedTotal + 1 := by
        unfold saturatingAdd; omega
      exact ⟨by rw [exact], behind⟩
    next => cases taken; exact ⟨rfl, trivial⟩
  | createNotified => cases taken; exact ⟨rfl, trivial⟩
  | parked future =>
    simp only [claimStep] at taken
    split at taken
    · cases taken; exact ⟨rfl, trivial⟩
    · simp at taken

end ArrivalPacer

namespace Pacer

/-! ### One producer, any number of consumers -/

/-- A consumer is idle or inside of a claim. -/
inductive ConsumerPc
  | idle
  | claiming (pc : ClaimPc)
  deriving DecidableEq, Repr

/-- `due` sums the `add_due` arguments of all calls so far; `returned` lists the results of all
finished `claim_next` calls. -/
structure State (ι : Type) where
  pacer : ArrivalPacer
  producer : ProducerPc
  consumer : ι → ConsumerPc
  due : Nat
  returned : List (ι × Bool)

/-- Any number of consumers claim while the one producer schedules. -/
inductive Action (ι : Type)
  | updateDue (addDue : Nat)
  | markDone
  | producer
  | claimNext (i : ι)
  | consumer (i : ι) (lucky : Bool)
  deriving DecidableEq, Repr

variable {ι : Type} [DecidableEq ι]

/-- The producer goes on with its update. -/
def producerStep (s : State ι) : Option (State ι) :=
  match s.pacer.producerStep s.producer with
  | some (pacer, producer) => some { s with pacer, producer }
  | none => none

/-- A consumer goes on with its claim, and may be unlucky with an exchange. -/
def consumerStep (s : State ι) (i : ι) (lucky : Bool) : Option (State ι) :=
  match s.consumer i with
  | .idle => none
  | .claiming pc =>
    match s.pacer.claimStep lucky pc with
    | some (pacer, .inl pc') =>
      some { s with pacer, consumer := Function.update s.consumer i (.claiming pc') }
    | some (pacer, .inr result) =>
      some { s with
        pacer
        consumer := Function.update s.consumer i .idle
        returned := (i, result) :: s.returned }
    | none => none

/-- Producer and consumers in any order. -/
def machine (ι : Type) [DecidableEq ι] (preAllocatedVus maxVus : Nat) :
    Machine (State ι) (Action ι) where
  init s := s = ⟨.new preAllocatedVus maxVus, .idle, fun _ => .idle, 0, []⟩
  step s
    | .updateDue addDue =>
      -- the producer is one task: its calls come one after the other
      if s.producer = .idle then
        some { s with producer := ArrivalPacer.updateDue addDue, due := s.due + addDue }
      else none
    | .markDone =>
      if s.producer = .idle then
        some { s with pacer := s.pacer.storeDone, producer := .broadcastDone }
      else none
    | .producer => producerStep s
    | .claimNext i =>
      if s.consumer i = .idle then
        some { s with consumer := Function.update s.consumer i (.claiming .checkDone) }
      else none
    | .consumer i lucky => consumerStep s i lucky

/-! ### Conservation -/

/-- The conserved quantities, as long as the tokens due so far fit the counters. -/
structure Conserved (s : State ι) : Prop where
  bounded : s.pacer.Bounded
  booked : s.pacer.ProducerOk s.due s.producer
  claims : ∀ i pc, s.consumer i = .claiming pc → s.pacer.ClaimOk pc
  granted : (s.returned.filter (·.2)).length = s.pacer.claimedTotal
  refused : ∀ i, (i, false) ∈ s.returned →
    s.pacer.done = true ∧ s.pacer.claimedTotal = s.pacer.scheduledTotal
  done : s.pacer.done = true → s.producer = .broadcastDone ∨ s.producer = .finished

variable {s s' : State ι}

omit [DecidableEq ι] in
/-- Nothing beyond the tokens due is ever scheduled. -/
theorem Conserved.scheduled_le_due (inv : Conserved s) : s.pacer.scheduledTotal ≤ s.due := by
  have booked := inv.booked
  cases pc : s.producer <;> simp only [pc, ArrivalPacer.ProducerOk] at booked <;> omega

omit [DecidableEq ι] in
/-- What becomes due is scheduled or dropped. -/
theorem conserved_producerStep (inv : Conserved s) (vus : 1 ≤ s.pacer.maxVus)
    (fits : s.due < 2 ^ 64) (taken : producerStep s = some s') : Conserved s' := by
  unfold producerStep at taken
  split at taken
  next pacer producer stepped =>
    cases taken
    -- what holds of the pacer alone carries over to the consumers, which it does not move
    obtain ⟨bounded, booked, grows, claimed⟩ :=
      ArrivalPacer.producerStep_spec inv.bounded inv.booked vus fits stepped
    have frame := ArrivalPacer.producerStep_frame stepped
    refine ⟨bounded, booked, fun i pc h => (inv.claims i pc h).grows grows,
      inv.granted.trans claimed.symm, ?_, ?_⟩
    · -- a refusal means `done`, and then only the final broadcast is left to do
      intro i refused
      obtain ⟨done, drained⟩ := inv.refused i refused
      refine ⟨grows.done done, ?_⟩
      rcases inv.done done with pc | pc
      · rw [pc] at stepped; cases stepped; exact drained
      · rw [pc] at stepped; simp [ArrivalPacer.producerStep] at stepped
    · intro done
      rcases inv.done (frame.done.symm.trans done) with pc | pc
      · rw [pc] at stepped; cases stepped; exact .inr rfl
      · rw [pc] at stepped; simp [ArrivalPacer.producerStep] at stepped
  next => simp at taken

/-- Moving a consumer keeps the invariant when the step it took is accounted for. -/
theorem Conserved.goto (inv : Conserved s) {i : ι} {pc : ConsumerPc}
    (claim : ∀ pc', pc = .claiming pc' → s.pacer.ClaimOk pc') :
    Conserved { s with consumer := Function.update s.consumer i pc } := by
  refine ⟨inv.bounded, inv.booked, ?_, inv.granted, inv.refused, inv.done⟩
  intro j pc' claiming
  by_cases same : j = i
  · subst same; exact claim pc' (by simpa using claiming)
  · exact inv.claims j pc' (by simpa [same] using claiming)

omit [DecidableEq ι] in
/-- A successful compare-exchange takes one token and reports one success. -/
theorem Conserved.grant (inv : Conserved s) (behind : s.pacer.claimedTotal < s.pacer.scheduledTotal)
    (i : ι) :
    Conserved { s with
      pacer := { s.pacer with claimedTotal := s.pacer.claimedTotal + 1 }
      returned := (i, true) :: s.returned } := by
  have scheduled := inv.bounded.scheduled
  refine ⟨⟨behind, ?_⟩, inv.booked.claimed (Nat.le_succ _), ?_, ?_, ?_, inv.done⟩
  · change s.pacer.scheduledTotal ≤ s.pacer.claimedTotal + 1 + s.pacer.maxVus
    omega
  · intro j pc claiming
    exact (inv.claims j pc claiming).grows ⟨Nat.le_refl _, Nat.le_succ _, id⟩
  · simpa using inv.granted
  -- a refusal before would mean that there was nothing left to claim
  · intro j member
    have old : (j, false) ∈ s.returned := by simpa using member
    have drained := (inv.refused j old).2
    omega

omit [DecidableEq ι] in
theorem Conserved.refuse (inv : Conserved s) (done : s.pacer.done = true)
    (drained : s.pacer.claimedTotal = s.pacer.scheduledTotal) (i : ι) :
    Conserved { s with returned := (i, false) :: s.returned } := by
  refine ⟨inv.bounded, inv.booked, inv.claims, ?_, ?_, inv.done⟩
  · simpa using inv.granted
  · intro j _
    exact ⟨done, drained⟩

/-- A claim takes one arrival that is scheduled, and no other takes it too. -/
theorem conserved_consumerStep (inv : Conserved s) (fits : s.due < 2 ^ 64) {i : ι} {lucky : Bool}
    (taken : consumerStep s i lucky = some s') : Conserved s' := by
  unfold consumerStep at taken
  split at taken
  next => simp at taken
  next pc claiming =>
    have scheduled : s.pacer.scheduledTotal < 2 ^ 64 :=
      Nat.lt_of_le_of_lt inv.scheduled_le_due fits
    -- what the call returns decides what is recorded
    have spec {p' out} (stepped : s.pacer.claimStep lucky pc = some (p', out)) :
        ArrivalPacer.ClaimResult s.pacer p' out :=
      ArrivalPacer.claimStep_spec inv.bounded (inv.claims i pc claiming) scheduled stepped
    split at taken
    next pacer pc' stepped =>
      cases taken
      obtain ⟨rfl, ok⟩ := spec stepped
      refine inv.goto fun pc'' same => ?_
      cases same
      exact ok
    next pacer result stepped =>
      cases taken
      cases result with
      | true =>
        obtain ⟨rfl, behind⟩ := spec stepped
        exact (inv.grant behind i).goto (by simp)
      | false =>
        obtain ⟨rfl, done, drained⟩ := spec stepped
        exact (inv.refuse done drained i).goto (by simp)
    next => simp at taken

variable {preAllocatedVus maxVus : Nat}

/-- The pool parameters are fixed, and the active count respects them. -/
structure ActiveOk (preAllocatedVus maxVus : Nat) (s : State ι) : Prop where
  pre : s.pacer.preAllocatedVus = preAllocatedVus
  max : s.pacer.maxVus = maxVus
  active : 1 ≤ s.pacer.activeVus ∧ s.pacer.activeVus ≤ maxVus
  stored : ∀ due desired, s.producer = .storeActive due desired → 1 ≤ desired ∧ desired ≤ maxVus
  alive : s.producer ≠ .panicked

theorem desiredVus_spec {p : ArrivalPacer} (vus : 1 ≤ p.maxVus) (claimed scheduled : Nat) :
    ∃ desired, p.desiredVus claimed scheduled = some desired ∧ 1 ≤ desired ∧
      desired ≤ p.maxVus := by
  unfold ArrivalPacer.desiredVus clamp
  simp only [vus, if_true]
  exact ⟨_, rfl, by omega, by omega⟩

omit [DecidableEq ι] in
/-- The producer activates VUs up to the maximum. -/
theorem activeOk_producerStep (inv : ActiveOk preAllocatedVus maxVus s) (vus : 1 ≤ maxVus)
    (taken : producerStep s = some s') : ActiveOk preAllocatedVus maxVus s' := by
  obtain ⟨pre, max, active, stored, alive⟩ := inv
  unfold producerStep at taken
  split at taken
  next pacer producer stepped =>
    cases taken
    have frame := ArrivalPacer.producerStep_frame stepped
    have active' : 1 ≤ pacer.activeVus ∧ pacer.activeVus ≤ maxVus := by
      rcases frame.active with same | ⟨due, storing⟩
      · rw [same]; exact active
      · exact stored due _ storing
    -- the count to store was clamped by the step before
    have next : (∀ due desired, producer = .storeActive due desired →
        1 ≤ desired ∧ desired ≤ maxVus) ∧ producer ≠ .panicked := by
      cases pc : s.producer <;> simp only [pc, ArrivalPacer.producerStep] at stepped
      case activeLoadScheduled due claimed =>
        obtain ⟨desired, computed, low, high⟩ :=
          desiredVus_spec (p := s.pacer) (max ▸ vus) claimed s.pacer.scheduledTotal
        rw [computed] at stepped
        cases stepped
        refine ⟨fun due' desired' same => ?_, by simp⟩
        cases same
        exact ⟨low, max ▸ high⟩
      case storeActive due desired => cases stepped; cases due <;> simp
      all_goals cases stepped
      all_goals simp
    exact ⟨frame.pre.trans pre, frame.maxVus.trans max, active', next.1, next.2⟩
  next => simp at taken

/-- Consumers do not touch the number of active VUs. -/
theorem activeOk_consumerStep (inv : ActiveOk preAllocatedVus maxVus s) {i : ι} {lucky : Bool}
    (taken : consumerStep s i lucky = some s') : ActiveOk preAllocatedVus maxVus s' := by
  have claimed (n : Nat) : ActiveOk preAllocatedVus maxVus
      { s with pacer := { s.pacer with claimedTotal := n } } :=
    ⟨inv.pre, inv.max, inv.active, inv.stored, inv.alive⟩
  unfold consumerStep at taken
  split at taken
  next => simp at taken
  next pc _ =>
    split at taken
    next pacer pc' stepped =>
      cases taken
      rw [ArrivalPacer.claimStep_frame stepped]
      have kept := claimed pacer.claimedTotal
      exact ⟨kept.pre, kept.max, kept.active, kept.stored, kept.alive⟩
    next pacer result stepped =>
      cases taken
      rw [ArrivalPacer.claimStep_frame stepped]
      have kept := claimed pacer.claimedTotal
      exact ⟨kept.pre, kept.max, kept.active, kept.stored, kept.alive⟩
    next => simp at taken

/-! ### The run -/

/-- The number of active VUs stays between the pre-allocated ones and the maximum. -/
theorem activeOk_of_reachable (valid : 1 ≤ preAllocatedVus ∧ preAllocatedVus ≤ maxVus)
    (run : (machine ι preAllocatedVus maxVus).Reachable s) :
    ActiveOk preAllocatedVus maxVus s := by
  refine run.invariant (ActiveOk preAllocatedVus maxVus) ?_ fun s a s' inv taken => ?_
  · rintro s rfl
    exact ⟨rfl, rfl, valid, by simp, by simp⟩
  · cases a with
    | updateDue addDue =>
      simp only [machine] at taken
      split at taken
      · cases taken
        refine ⟨inv.pre, inv.max, inv.active, ?_, ?_⟩ <;>
          simp only [ArrivalPacer.updateDue] <;> split <;> simp
      · simp at taken
    | markDone =>
      simp only [machine] at taken
      split at taken
      · cases taken
        exact ⟨inv.pre, inv.max, inv.active, by simp, by simp⟩
      · simp at taken
    | producer => exact activeOk_producerStep inv (valid.1.trans valid.2) taken
    -- claims and updates do not touch the number of active VUs
    | claimNext i =>
      simp only [machine] at taken
      split at taken
      · cases taken
        exact ⟨inv.pre, inv.max, inv.active, inv.stored, inv.alive⟩
      · simp at taken
    | consumer i lucky => exact activeOk_consumerStep inv taken

omit [DecidableEq ι] in
theorem due_producerStep (taken : producerStep s = some s') : s'.due = s.due := by
  unfold producerStep at taken
  split at taken
  · cases taken; rfl
  · simp at taken

/-- Only the producer adds to what is due. -/
theorem due_consumerStep {i : ι} {lucky : Bool} (taken : consumerStep s i lucky = some s') :
    s'.due = s.due := by
  unfold consumerStep at taken
  split at taken
  · simp at taken
  · split at taken
    · cases taken; rfl
    · cases taken; rfl
    · simp at taken

omit [DecidableEq ι] in
/-- Between two calls of the producer everything due has been booked. -/
theorem Conserved.booked_idle (inv : Conserved s) (idle : s.producer = .idle) :
    s.pacer.scheduledTotal + s.pacer.droppedTotal = s.due := by
  simpa [idle, ArrivalPacer.ProducerOk] using inv.booked

omit [DecidableEq ι] in
/-- Arrivals that become due are not yet handed out. -/
theorem Conserved.updateDue (inv : Conserved s) (idle : s.producer = .idle) (addDue : Nat) :
    Conserved { s with producer := ArrivalPacer.updateDue addDue, due := s.due + addDue } := by
  have booked := inv.booked_idle idle
  refine ⟨inv.bounded, ?_, inv.claims, inv.granted, inv.refused, ?_⟩
  · simp only [ArrivalPacer.updateDue]
    split <;> simp only [ArrivalPacer.ProducerOk] <;> omega
  · intro done
    rcases inv.done done with pc | pc <;> simp [idle] at pc

omit [DecidableEq ι] in
theorem Conserved.markDone (inv : Conserved s) (idle : s.producer = .idle) :
    Conserved { s with pacer := s.pacer.storeDone, producer := .broadcastDone } := by
  refine ⟨⟨inv.bounded.claimed, inv.bounded.scheduled⟩, inv.booked_idle idle, ?_, inv.granted, ?_,
    fun _ => .inl rfl⟩
  · intro i pc claiming
    exact (inv.claims i pc claiming).grows ⟨Nat.le_refl _, Nat.le_refl _, fun _ => rfl⟩
  · intro i refused
    exact ⟨rfl, (inv.refused i refused).2⟩

/-- As long as the counters do not wrap, nothing is lost and nothing is claimed twice. -/
theorem conserved_of_reachable (valid : 1 ≤ preAllocatedVus ∧ preAllocatedVus ≤ maxVus)
    (run : (machine ι preAllocatedVus maxVus).Reachable s) :
    s.due < 2 ^ 64 → Conserved s := by
  induction run with
  | init start =>
    subst start
    intro _
    exact ⟨⟨Nat.le_refl _, Nat.zero_le _⟩, rfl, by simp, rfl, by simp,
      fun done => by simp [ArrivalPacer.new] at done⟩
  | @step s s' a run _ taken ih =>
    intro fits
    have vus : 1 ≤ s.pacer.maxVus := by
      rw [(activeOk_of_reachable valid run).max]; omega
    cases a with
    | updateDue addDue =>
      simp only [machine] at taken
      split at taken
      next idle =>
        cases taken
        -- the sum only grows, so it fitted before as well
        have before : s.due + addDue < 2 ^ 64 := fits
        exact (ih (by omega)).updateDue idle addDue
      next => simp at taken
    | markDone =>
      simp only [machine] at taken
      split at taken
      next idle =>
        cases taken
        exact (ih fits).markDone idle
      next => simp at taken
    | producer =>
      have same : s'.due = s.due := due_producerStep taken
      exact conserved_producerStep (ih (same ▸ fits)) vus (same ▸ fits) taken
    | claimNext i =>
      simp only [machine] at taken
      split at taken
      · cases taken
        refine (ih fits).goto fun pc same => ?_
        cases same
        trivial
      · simp at taken
    | consumer i lucky =>
      have same : s'.due = s.due := due_consumerStep taken
      exact conserved_consumerStep (ih (same ▸ fits)) (same ▸ fits) taken

/-- Arrival tokens are conserved in every interleaving of the producer with any number of
consumers: what was due is scheduled or dropped, the backlog stays between zero and `max_vus`,
each token is claimed by exactly one call that returned true, a call returns false only when
the pacer is done and drained, and the active VU count stays in range, so `clamp` never
panics. -/
theorem arrival_tokens_conserved (valid : 1 ≤ preAllocatedVus ∧ preAllocatedVus ≤ maxVus)
    (run : (machine ι preAllocatedVus maxVus).Reachable s) :
    (s.due < 2 ^ 64 →
      (s.producer = .idle ∨ s.producer = .finished →
        s.pacer.scheduledTotal + s.pacer.droppedTotal = s.due) ∧
      s.pacer.claimedTotal ≤ s.pacer.scheduledTotal ∧
      s.pacer.scheduledTotal ≤ s.pacer.claimedTotal + maxVus ∧
      (s.returned.filter (·.2)).length = s.pacer.claimedTotal ∧
      ∀ i, (i, false) ∈ s.returned →
        s.pacer.done = true ∧ s.pacer.claimedTotal = s.pacer.scheduledTotal) ∧
    1 ≤ s.pacer.activeVus ∧ s.pacer.activeVus ≤ maxVus ∧ s.producer ≠ .panicked := by
  have active := activeOk_of_reachable valid run
  refine ⟨fun fits => ?_, active.active.1, active.active.2, active.alive⟩
  have inv := conserved_of_reachable valid run fits
  refine ⟨?_, inv.bounded.claimed, active.max ▸ inv.bounded.scheduled, inv.granted, inv.refused⟩
  -- inside a call a share of `due` is still to be booked
  have booked := inv.booked
  rintro (pc | pc) <;> simpa [pc, ArrivalPacer.ProducerOk] using booked

/-- A pool of one VU: two tokens fall due, one is scheduled and claimed, the other dropped, and
after `mark_done` the consumer is refused. -/
theorem arrival_tokens_conserved_overload :
    ∃ s : State (Fin 1), (machine (Fin 1) 1 1).Reachable s ∧
      (s.due = 2 ∧ s.producer = .finished ∧ s.returned = [(0, false), (0, true)]) ∧
      s.pacer.scheduledTotal + s.pacer.droppedTotal = 2 := by
  obtain ⟨s, run, due, finished, returned⟩ := Machine.exists_reachableBy_of_exec
    (machine (Fin 1) 1 1) (fun _ _ => True)
    (fun s => s.due = 2 ∧ s.producer = .finished ∧ s.returned = [(0, false), (0, true)])
    ([.updateDue 2, .producer, .producer, .producer, .producer, .claimNext 0,
      .consumer 0 true, .consumer 0 true, .consumer 0 true, .consumer 0 true, .producer,
      .producer, .producer, .producer, .claimNext 0, .markDone, .consumer 0 true, .producer,
      .consumer 0 true, .consumer 0 true]) rfl (by decide)
  have conserved := (arrival_tokens_conserved (by decide) run).1 (by rw [due]; decide)
  exact ⟨s, run, ⟨due, finished, returned⟩, due ▸ conserved.1 (.inr finished)⟩

end Pacer

end Wrkr.Core
