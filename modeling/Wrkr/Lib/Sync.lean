import Mathlib.Data.Finset.Basic

/-!
# Task notification primitives

`Notify` has broadcast wake-ups and stores no permit: `notifyWaiters` wakes exactly the
`Notified` futures that exist when it is called. Counting the calls is enough to tell which
futures those are. `Watch` is a versioned channel: a receiver remembers the version it has
seen, and a send bumps the version as long as some receiver is alive. A `Barrier` releases its
parties once all of them have arrived, and then starts a new round.
-/
namespace Wrkr.Lib

structure Notify where
  calls : Nat
  deriving DecidableEq, Repr

/-- A future created when `created` broadcasts had already been made. -/
structure Notified where
  created : Nat
  deriving DecidableEq, Repr

namespace Notify

def new : Notify := ⟨0⟩

def notifyWaiters (n : Notify) : Notify := ⟨n.calls + 1⟩

def notified (n : Notify) : Notified := ⟨n.calls⟩

/-- Some broadcast came after the future was created. -/
def Woken (n : Notify) (f : Notified) : Prop := f.created < n.calls

instance (n : Notify) (f : Notified) : Decidable (n.Woken f) :=
  inferInstanceAs (Decidable (f.created < n.calls))

/-- The future was created by this `Notify`, at or before its current broadcast count. -/
def Issued (n : Notify) (f : Notified) : Prop := f.created ≤ n.calls

@[simp] theorem issued_notified (n : Notify) : n.Issued n.notified := Nat.le_refl _

@[simp] theorem not_woken_notified (n : Notify) : ¬ n.Woken n.notified := Nat.lt_irrefl _

theorem Issued.notifyWaiters {n : Notify} {f : Notified} (issued : n.Issued f) :
    n.notifyWaiters.Issued f :=
  Nat.le_succ_of_le issued

/-- A broadcast wakes every future already created. -/
theorem Issued.woken {n : Notify} {f : Notified} (issued : n.Issued f) :
    n.notifyWaiters.Woken f :=
  Nat.lt_succ_of_le issued

end Notify

/-- A watch channel whose live receivers are named by `ι`. -/
structure Watch (ι β : Type) where
  version : Nat
  value : β
  receivers : Finset ι

namespace Watch

variable {ι β : Type}

/-- A fresh channel: the receiver returned with the sender is dropped at once. -/
def channel (value : β) : Watch ι β := ⟨0, value, ∅⟩

/-- A new receiver has seen the current version. -/
def subscribe [DecidableEq ι] (w : Watch ι β) (i : ι) : Watch ι β × Nat :=
  ({ w with receivers := insert i w.receivers }, w.version)

def dropReceiver [DecidableEq ι] (w : Watch ι β) (i : ι) : Watch ι β :=
  { w with receivers := w.receivers.erase i }

/-- Without a receiver the send fails and changes nothing. -/
def send (w : Watch ι β) (value : β) : Watch ι β :=
  if w.receivers.Nonempty then { w with version := w.version + 1, value := value } else w

theorem send_version_of_mem {w : Watch ι β} {i : ι} (alive : i ∈ w.receivers) (value : β) :
    (w.send value).version = w.version + 1 := by
  have nonempty : w.receivers.Nonempty := ⟨i, alive⟩
  simp [send, nonempty]

theorem version_le_send (w : Watch ι β) (value : β) : w.version ≤ (w.send value).version := by
  unfold send
  split
  · exact Nat.le_succ _
  · exact Nat.le_refl _

@[simp] theorem send_receivers (w : Watch ι β) (value : β) :
    (w.send value).receivers = w.receivers := by
  unfold send
  split <;> rfl

end Watch

/-- `arrived` counts the parties that wait in the current generation. -/
structure Barrier where
  parties : Nat
  arrived : Nat
  generation : Nat
  deriving DecidableEq, Repr

/-- A party waits for the end of the generation it arrived in. -/
structure BarrierWait where
  generation : Nat
  deriving DecidableEq, Repr

namespace Barrier

/-- A barrier for no party behaves as one for a single party. -/
def new (n : Nat) : Barrier := ⟨max n 1, 0, 0⟩

/-- The last party to arrive ends the generation. -/
def arrive (b : Barrier) : Barrier × BarrierWait :=
  (if b.arrived + 1 = b.parties then { b with arrived := 0, generation := b.generation + 1 }
    else { b with arrived := b.arrived + 1 }, ⟨b.generation⟩)

def Released (b : Barrier) (wait : BarrierWait) : Prop := wait.generation < b.generation

instance (b : Barrier) (wait : BarrierWait) : Decidable (b.Released wait) :=
  inferInstanceAs (Decidable (wait.generation < b.generation))

/-- The barrier after `count` arrivals in total, when no party comes twice. -/
inductive FirstRound (b : Barrier) (count : Nat) : Prop
  | waiting : b.generation = 0 → b.arrived = count → count < b.parties → FirstRound b count
  | released : b.generation = 1 → count = b.parties → FirstRound b count

@[simp] theorem arrive_parties (b : Barrier) : b.arrive.1.parties = b.parties := by
  simp only [arrive]
  split <;> rfl

theorem FirstRound.generation {b : Barrier} {count : Nat} (round : b.FirstRound count)
    (missing : count < b.parties) : b.generation = 0 := by
  cases round with
  | waiting start _ _ => exact start
  | released _ all => omega

theorem FirstRound.arrive {b : Barrier} {count : Nat} (round : b.FirstRound count)
    (missing : count < b.parties) : b.arrive.1.FirstRound (count + 1) := by
  cases round with
  | waiting start arrived _ =>
    by_cases last : b.arrived + 1 = b.parties
    · exact .released (by simp [Barrier.arrive, last, start]) (by simp; omega)
    · refine .waiting (by simp [Barrier.arrive, last, start]) ?_ (by simp; omega)
      simp only [Barrier.arrive, if_neg last]
      omega
  | released _ all => omega

/-- The arrivals in each round: as many as there are parties in the rounds that are over, fewer in
the one that is open, none in a later one. -/
structure Rounds (b : Barrier) (inRound : Nat → Nat) : Prop where
  finished : ∀ round < b.generation, inRound round = b.parties
  current : inRound b.generation = b.arrived
  short : b.arrived < b.parties
  later : ∀ round, b.generation < round → inRound round = 0

theorem rounds_new (n : Nat) : (new n).Rounds fun _ => 0 := by
  constructor
  case finished => exact fun _ before => absurd before (Nat.not_lt_zero _)
  case current => rfl
  case short =>
    simp only [new]
    omega
  case later => exact fun _ _ => rfl

/-- An arrival counts in the round that is open. -/
theorem Rounds.arrive {b : Barrier} {inRound : Nat → Nat} (rounds : b.Rounds inRound) :
    b.arrive.1.Rounds fun round => inRound round + if round = b.generation then 1 else 0 := by
  obtain ⟨finished, current, short, later⟩ := rounds
  -- the last party of a round opens the next one
  by_cases last : b.arrived + 1 = b.parties
  · have ended : b.arrive.1 = { b with arrived := 0, generation := b.generation + 1 } := by
      simp [Barrier.arrive, last]
    rw [ended]
    constructor
    · intro round before
      dsimp only at before ⊢
      by_cases this : round = b.generation
      · rw [this, current, if_pos rfl, last]
      · rw [finished round (by omega), if_neg this, Nat.add_zero]
    · have next : b.generation + 1 ≠ b.generation := by omega
      simp [later (b.generation + 1) (by omega)]
    · dsimp only
      omega
    · intro round after
      dsimp only at after ⊢
      rw [later round (by omega), if_neg (by omega)]
  · have waits : b.arrive.1 = { b with arrived := b.arrived + 1 } := by
      simp [Barrier.arrive, last]
    rw [waits]
    constructor
    · intro round before
      dsimp only at before ⊢
      rw [finished round before, if_neg (by omega), Nat.add_zero]
    · simp [current]
    · dsimp only
      omega
    · intro round after
      dsimp only at after ⊢
      rw [later round after, if_neg (by omega)]

theorem generation_le_arrive (b : Barrier) : b.generation ≤ b.arrive.1.generation := by
  simp only [arrive]
  split
  · exact Nat.le_succ _
  · exact Nat.le_refl _

theorem Released.arrive {b : Barrier} {wait : BarrierWait} (released : b.Released wait) :
    b.arrive.1.Released wait :=
  Nat.lt_of_lt_of_le released (generation_le_arrive b)

/-- A party is released exactly when its round is full. -/
theorem Rounds.released_iff {b : Barrier} {inRound : Nat → Nat} (rounds : b.Rounds inRound)
    (wait : BarrierWait) : b.Released wait ↔ inRound wait.generation = b.parties := by
  constructor
  · exact fun finished => rounds.finished _ finished
  · intro full
    by_contra waiting
    have short := rounds.short
    -- a later round has nobody, and the open one is not full
    rcases Nat.lt_or_eq_of_le (Nat.le_of_not_lt waiting) with after | this
    · rw [rounds.later _ after] at full
      omega
    · rw [← this, rounds.current] at full
      omega

end Barrier

end Wrkr.Lib
