import Mathlib.Data.UInt
import Mathlib.Data.List.GetD
import Wrkr.Core.Config
import Wrkr.Core.Gate
import Wrkr.Core.StartSignal

/-!
# Starting a run

`run_scenarios` spawns every VU, waits with them at the ready barrier, and then either reports
the error of a VU that could not initialise or starts the clock, the gates and the VUs. A VU
whose initialisation fails writes its message into a shared slot, the first one to do so for
good, before it comes to the barrier. The interleavings of all these steps are the runs of
`machine`, and `init_failure_admits_no_load` says what they have in common: a failed
initialisation lets no iteration through and is what the run returns, and without one the start
signal is given once, with everything in place.
-/
namespace Wrkr.Core

open Wrkr.Lib

/-- The most VUs that the executor can ask for: the largest target, or the start. -/
def scenarioMaxVus (s : ScenarioConfig) : UInt64 :=
  match s.executor with
  | .constantVus vus => vus
  | .rampingVus startVus stages => max ((stages.map Stage.target).max?.getD 0) startVus
  | .rampingArrivalRate _ _ _ maxVus _ => maxVus

/-- The sum of `usize` wraps. -/
def totalVus (scenarios : List ScenarioConfig) : UInt64 :=
  (scenarios.map scenarioMaxVus).sum

/-- A VU of a constant scenario shares the gate of the scenario, given by its index. -/
inductive VuWork
  | constant (gate : Nat)
  | rampingVus
  | rampingArrivalRate
  deriving DecidableEq, Repr

/-- What the loop over the scenarios makes of one: its gate, and a task for each of its VUs. -/
def launchScenario (launched : List IterationGate × List VuWork) (s : ScenarioConfig) :
    List IterationGate × List VuWork :=
  let (gates, works) := launched
  let vus := (scenarioMaxVus s).toNat
  match s.executor with
  -- only constant VUs share a gate; the ramping executors have schedules of their own
  | .constantVus _ =>
    (gates ++ [.new (s.iterations.map UInt64.toNat) (s.duration.map Duration.nanos)],
      works ++ List.replicate vus (.constant gates.length))
  | .rampingVus _ _ => (gates, works ++ List.replicate vus .rampingVus)
  | .rampingArrivalRate _ _ _ _ _ => (gates, works ++ List.replicate vus .rampingArrivalRate)

/-- The scenarios of a run whose handles can be allocated: `Vec::with_capacity(total_vus)` panics
when handles of eight bytes each take more than `isize::MAX`. -/
structure Launch where
  scenarios : List ScenarioConfig
  allocated : 8 * (scenarios.map fun s => (scenarioMaxVus s).toNat).sum < 2 ^ 63

namespace Launch

/-- The loop over the scenarios: the gates that it makes, and the work of every VU. -/
def launched (launch : Launch) : List IterationGate × List VuWork :=
  launch.scenarios.foldl launchScenario ([], [])

/-- The iteration gates of the scenarios with constant VUs, in their order. -/
def gates (launch : Launch) : List IterationGate := launch.launched.1

/-- The work of each VU, in the order of spawning. -/
def works (launch : Launch) : List VuWork := launch.launched.2

/-- The number of tasks that are spawned, over all scenarios. -/
def vus (launch : Launch) : Nat := launch.works.length

/-- `Barrier::new(total_vus.saturating_add(1))`. -/
def readyBarrier (launch : Launch) : Barrier :=
  .new (min ((totalVus launch.scenarios).toNat + 1) (2 ^ 64 - 1))

end Launch

namespace Run

/-- The runner: the spawn loop, the ready barrier, the slot, and then either the two loops over
the handles or the start instant, the gates and the two statements of `StartSignal::start`. What
follows the start is not part of the model. -/
inductive RunnerPc
  | spawning (k : Nat)
  | atBarrier (wait : BarrierWait)
  | readSlot
  | aborting (message : String) (k : Nat)
  | awaiting (message : String) (k : Nat)
  | takeStart
  | setStarted (started : Nat)
  | startAtCheck (started k : Nat)
  | startAtSet (started k : Nat)
  | storeFlag
  | notifyWaiters
  | started
  | returned (error : Error)
  deriving DecidableEq, Repr

/-- The loops of a VU that was started. -/
inductive WorkPc
  | prepare
  | calling (pc : IterationGate.NextPc)
  | turning
  | iterating
  | recording (error : Option String)
  deriving DecidableEq, Repr

/-- A VU. Its initialisation left an error or not, which it carries to the barrier. -/
inductive VuPc
  | unspawned
  | initializing
  | initFailed (message : String)
  | ready (error : Option String)
  | atBarrier (error : Option String) (wait : BarrierWait)
  | loadFlag
  | createNotified
  | parked (future : Notified)
  | working (pc : WorkPc)
  | returned (error : Option String)
  | cancelled
  deriving DecidableEq, Repr

/-- `starts`, `iterations` and `recorded` count the calls of `StartSignal::start`, the iterations
begun and the calls of `record_iteration`. -/
structure State (n : Nat) where
  initError : Option String
  readyBarrier : Barrier
  signal : StartSignal
  runStarted : Option Nat
  gates : List IterationGate
  runner : RunnerPc
  vu : Fin n → VuPc
  aborted : Fin n → Bool
  starts : Nat
  iterations : Nat
  recorded : Nat

/-- What a ramping loop does next. Its schedule and its pacer decide. -/
inductive Turn
  | pause
  | iterate
  | leave
  deriving DecidableEq, Repr

/-- What a step of a VU takes from outside: the time, the turn of a ramping loop, and the error
of the Lua code if it fails. -/
structure Input where
  now : Nat
  turn : Turn
  error : Option String
  deriving DecidableEq, Repr

/-- Who moves next: the runner, with the time that it reads; a VU, with what the world gives to its
step; or the runtime, which ends an aborted task. -/
inductive Action (n : Nat)
  | runner (now : Nat)
  | vu (i : Fin n) (input : Input)
  | cancel (i : Fin n)
  deriving DecidableEq, Repr

namespace VuPc

/-- The VU has come to the ready barrier. -/
def Arrived : VuPc → Prop
  | unspawned | initializing | initFailed _ | ready _ => False
  | _ => True

instance : DecidablePred Arrived
  | unspawned | initializing | initFailed _ | ready _ => inferInstanceAs (Decidable False)
  | atBarrier _ _ | loadFlag | createNotified | parked _ | working _ | returned _ | cancelled =>
    inferInstanceAs (Decidable True)

/-- The `JoinHandle` of the task is ready. -/
def isFinished : VuPc → Bool
  | returned _ | cancelled => true
  | _ => false

/-- An aborted task ends where it awaits something. -/
def isAwaiting : VuPc → Bool
  | atBarrier _ _ | parked _ | working .turning | working .iterating => true
  | _ => false

end VuPc

variable {n : Nat}

/-- One step of `run_scenarios` itself, from the spawn loop to the release of the VUs, or to the
error that it returns when a VU has failed. -/
def runnerStep (s : State n) (now : Nat) : Option (State n) :=
  match s.runner with
  | .spawning k =>
    if spawn : k < n then
      some { s with vu := Function.update s.vu ⟨k, spawn⟩ .initializing, runner := .spawning (k + 1) }
    else
      let (readyBarrier, wait) := s.readyBarrier.arrive
      some { s with readyBarrier, runner := .atBarrier wait }
  | .atBarrier wait =>
    if s.readyBarrier.Released wait then some { s with runner := .readSlot } else none
  -- the slot is read once: what a VU writes later is not seen
  | .readSlot =>
    match s.initError with
    | some message => some { s with runner := .aborting message 0 }
    | none => some { s with runner := .takeStart }
  | .aborting message k =>
    if task : k < n then
      some { s with
        aborted := Function.update s.aborted ⟨k, task⟩ true
        runner := .aborting message (k + 1) }
    else some { s with runner := .awaiting message 0 }
  | .awaiting message k =>
    if task : k < n then
      if (s.vu ⟨k, task⟩).isFinished then some { s with runner := .awaiting message (k + 1) } else none
    else some { s with runner := .returned (.vu message) }
  | .takeStart => some { s with runner := .setStarted now }
  | .setStarted started =>
    some { s with runStarted := s.runStarted.or (some started), runner := .startAtCheck started 0 }
  -- `start_at` of gate `k` tests the deadline and sets it in two steps
  | .startAtCheck started k =>
    match s.gates[k]? with
    | none => some { s with runner := .storeFlag }
    | some gate =>
      some { s with
        runner := if gate.deadline.isSome then .startAtCheck started (k + 1) else .startAtSet started k }
  | .startAtSet started k =>
    some { s with
      gates := s.gates.modify k fun gate => gate.setDeadline started
      runner := .startAtCheck started (k + 1) }
  | .storeFlag =>
    some { s with
      signal := { s.signal with started := true }
      starts := s.starts + 1
      runner := .notifyWaiters }
  | .notifyWaiters =>
    some { s with
      signal := { s.signal with notify := s.signal.notify.notifyWaiters }
      runner := .started }
  | .started => none
  | .returned _ => none

/-- Only the position of VU `i` changes. -/
def State.goto (s : State n) (i : Fin n) (pc : VuPc) : State n :=
  { s with vu := Function.update s.vu i pc }

/-- The head of the loop over the iterations. -/
def loopHead : VuWork → WorkPc
  | .constant _ => .calling .enter
  | .rampingVus | .rampingArrivalRate => .turning

/-- Before the loop a VU under a debugger compiles a helper, which may fail. -/
def workStep (work : VuWork) (s : State n) (i : Fin n) (input : Input) : WorkPc → Option (State n)
  | .prepare =>
    match input.error with
    | some error => some (s.goto i (.returned (some error)))
    | none => some (s.goto i (.working (loopHead work)))
  | .calling pc =>
    match work with
    | .constant g =>
      match s.gates[g]? with
      | none => none
      | some gate =>
        -- one atomic step of `next` on the shared gate
        let (gate, out) := gate.nextStep input.now pc
        let s := { s with gates := s.gates.set g gate }
        match out with
        | .inl pc => some (s.goto i (.working (.calling pc)))
        | .inr true => some { s.goto i (.working .iterating) with iterations := s.iterations + 1 }
        | .inr false => some (s.goto i (.returned none))
    | .rampingVus | .rampingArrivalRate => none
  | .turning =>
    match input.turn with
    | .pause => some (s.goto i (.working .turning))
    | .iterate => some { s.goto i (.working .iterating) with iterations := s.iterations + 1 }
    | .leave => some (s.goto i (.returned none))
  | .iterating => some (s.goto i (.working (.recording input.error)))
  | .recording error =>
    let s := { s with recorded := s.recorded + 1 }
    match error with
    | some error => some (s.goto i (.returned (some error)))
    | none => some (s.goto i (.working (loopHead work)))

/-- `fails i` is the message of VU `i` when its initialisation fails. -/
def vuStep (works : Fin n → VuWork) (fails : Fin n → Option String) (s : State n) (i : Fin n)
    (input : Input) : Option (State n) :=
  match s.vu i with
  | .unspawned => none
  | .initializing =>
    match fails i with
    | some message => some (s.goto i (.initFailed message))
    | none => some (s.goto i (.ready none))
  -- the slot keeps the message of the first VU that comes here
  | .initFailed message =>
    some { s.goto i (.ready (some message)) with initError := s.initError.or (some message) }
  | .ready error =>
    let (readyBarrier, wait) := s.readyBarrier.arrive
    some { s.goto i (.atBarrier error wait) with readyBarrier }
  -- behind the barrier a failed VU returns without waiting for the start
  | .atBarrier error wait =>
    if s.readyBarrier.Released wait then
      match error with
      | some message => some (s.goto i (.returned (some message)))
      | none => some (s.goto i .loadFlag)
    else none
  | .loadFlag =>
    some (s.goto i (if s.signal.started then .working .prepare else .createNotified))
  | .createNotified => some (s.goto i (.parked s.signal.notify.notified))
  | .parked future => if s.signal.notify.Woken future then some (s.goto i .loadFlag) else none
  | .working pc => workStep (works i) s i input pc
  | .returned _ => none
  | .cancelled => none

/-- An aborted task ends at the next await that it comes to. -/
def cancelStep (s : State n) (i : Fin n) : Option (State n) :=
  if s.aborted i && (s.vu i).isAwaiting then some (s.goto i .cancelled) else none

/-- Nothing is spawned yet; the barrier counts the VUs and the runner. -/
def initial (launch : Launch) : State launch.vus where
  initError := none
  readyBarrier := launch.readyBarrier
  signal := .new
  runStarted := none
  gates := launch.gates
  runner := .spawning 0
  vu _ := .unspawned
  aborted _ := false
  starts := 0
  iterations := 0
  recorded := 0

/-- The runner and the VUs take their steps in any order. -/
def machine (launch : Launch) (fails : Fin launch.vus → Option String) :
    Machine (State launch.vus) (Action launch.vus) where
  init s := s = initial launch
  step s
    | .runner now => runnerStep s now
    | .vu i input => vuStep launch.works.get fails s i input
    | .cancel i => cancelStep s i

/-! ### The number of parties -/

theorem length_works_launchScenario (launched : List IterationGate × List VuWork)
    (s : ScenarioConfig) :
    (launchScenario launched s).2.length = launched.2.length + (scenarioMaxVus s).toNat := by
  rw [launchScenario]
  split <;> simp

/-- There is one work for each VU of each scenario. -/
theorem length_works_foldl (scenarios : List ScenarioConfig)
    (launched : List IterationGate × List VuWork) :
    (scenarios.foldl launchScenario launched).2.length =
      launched.2.length + (scenarios.map fun s => (scenarioMaxVus s).toNat).sum := by
  induction scenarios generalizing launched with
  | nil => simp
  | cons s rest ih =>
    rw [List.foldl_cons, ih, length_works_launchScenario, List.map_cons, List.sum_cons]
    omega

/-- The sum wraps, as the code adds without a check. -/
theorem toNat_totalVus (scenarios : List ScenarioConfig) :
    (totalVus scenarios).toNat =
      (scenarios.map fun s => (scenarioMaxVus s).toNat).sum % 2 ^ 64 := by
  induction scenarios with
  | nil => rfl
  | cons s rest ih =>
    rw [totalVus] at ih ⊢
    rw [List.map_cons, List.sum_cons, UInt64.toNat_add, ih, List.map_cons, List.sum_cons]
    omega

/-- One party for each VU that the loop spawns, and the runner. -/
theorem parties_readyBarrier (launch : Launch) :
    launch.readyBarrier.parties = launch.vus + 1 := by
  have allocated := launch.allocated
  have total := toNat_totalVus launch.scenarios
  have spawned : launch.vus = (launch.scenarios.map fun s => (scenarioMaxVus s).toNat).sum := by
    rw [Launch.vus, Launch.works, Launch.launched, length_works_foldl]
    simp
  change max (min ((totalVus launch.scenarios).toNat + 1) (2 ^ 64 - 1)) 1 = _
  -- below the allocation bound neither the wrapping sum nor the saturating one is off
  omega

variable {launch : Launch} (fails : Fin launch.vus → Option String)

/-- Behind the spawn loop the runner is one of the parties that have come to the barrier. -/
def RunnerPc.hasArrived : RunnerPc → Bool
  | .spawning _ => false
  | _ => true

/-- The parties that have come to the barrier. -/
def arrivals (s : State n) : Nat :=
  tally VuPc.Arrived s.vu + if s.runner.hasArrived then 1 else 0

/-- What holds of a VU at a position. -/
def VuOk (s : State launch.vus) (i : Fin launch.vus) : VuPc → Prop
  -- the spawn loop has not come to the VU yet
  | .unspawned => ∃ k, s.runner = .spawning k ∧ k ≤ i
  | .initializing => True
  | .initFailed message => fails i = some message
  | .ready error => fails i = error ∧ (fails i ≠ none → s.initError ≠ none)
  | .atBarrier error wait =>
    (fails i = error ∧ wait.generation = 0) ∧ (fails i ≠ none → s.initError ≠ none)
  | .loadFlag | .createNotified | .parked _ => fails i = none
  -- no VU works before the flag is set
  | .working _ => fails i = none ∧ s.signal.started = true
  | .returned _ | .cancelled => fails i ≠ none → s.initError ≠ none

/-- The first `k` gates have their deadlines. -/
def GatesStarted (s : State launch.vus) (started k : Nat) : Prop :=
  ∀ j, s.gates[j]? = launch.gates[j]?.map fun gate =>
    if j < k then gate.setDeadline started else gate

/-- Neither the clock nor a gate is started. -/
structure Untouched (s : State launch.vus) : Prop where
  started : s.signal.started = false
  runStarted : s.runStarted = none
  gates : s.gates = launch.gates

/-- The barrier is open, and what the slot then holds stays there. -/
structure Open (s : State launch.vus) (slot : Option String) : Prop where
  generation : s.readyBarrier.generation = 1
  slot : s.initError = slot

/-- What holds at a position of the runner. -/
def RunnerOk (s : State launch.vus) : RunnerPc → Prop
  | .spawning k => k ≤ launch.vus ∧ Untouched s
  | .atBarrier wait => wait.generation = 0 ∧ Untouched s
  -- from here on every VU has arrived, so the slot does not change any more
  | .readSlot => s.readyBarrier.generation = 1 ∧ Untouched s
  | .aborting message k =>
    Open s (some message) ∧ s.signal.started = false ∧ ∀ i, i.val < k → s.aborted i = true
  | .awaiting message _ =>
    Open s (some message) ∧ s.signal.started = false ∧ ∀ i, s.aborted i = true
  | .takeStart | .setStarted _ => Open s none ∧ Untouched s
  | .startAtCheck started k =>
    Open s none ∧ s.signal.started = false ∧ s.runStarted = some started ∧ GatesStarted s started k
  | .startAtSet started k =>
    Open s none ∧ s.signal.started = false ∧ s.runStarted = some started ∧
      GatesStarted s started k ∧ k < launch.gates.length
  | .storeFlag =>
    Open s none ∧ s.signal.started = false ∧ ∃ started, s.runStarted = some started ∧
      GatesStarted s started launch.gates.length
  | .notifyWaiters | .started => Open s none ∧ s.signal.started = true ∧ s.starts = 1
  | .returned error =>
    s.signal.started = false ∧ ∃ message, error = .vu message ∧ Open s (some message)

/-- What holds between any two steps: who has come to the barrier, what the slot may say, what every
VU and the runner know at their positions, and that nothing runs before the start. -/
structure Inv (s : State launch.vus) : Prop where
  parties : s.readyBarrier.parties = launch.vus + 1
  round : s.readyBarrier.FirstRound (arrivals s)
  slot : ∀ message, s.initError = some message → ∃ i, fails i = some message
  vus : ∀ i, VuOk fails s i (s.vu i)
  fresh : ∀ k, s.runner = .spawning k → ∀ i, k ≤ i.val → s.vu i = .unspawned
  runner : RunnerOk s s.runner
  quiet : s.signal.started = false →
    s.signal.notify.calls = 0 ∧ s.starts = 0 ∧ s.iterations = 0 ∧ s.recorded = 0

variable {fails}

/-- Nobody has been spawned, the slot is empty and no gate has a start. -/
theorem inv_initial : Inv fails (initial launch) := by
  have parties := parties_readyBarrier launch
  refine ⟨parties, .waiting rfl ?_ ?_, nofun, fun i => ⟨0, rfl, Nat.zero_le _⟩, fun _ _ _ _ => rfl,
    ⟨Nat.zero_le _, rfl, rfl, rfl⟩, fun _ => ⟨rfl, rfl, rfl, rfl⟩⟩
  -- nobody has arrived
  · simp [initial, arrivals, tally, RunnerPc.hasArrived, VuPc.Arrived, Launch.readyBarrier,
      Barrier.new]
  · change _ < launch.readyBarrier.parties
    rw [parties]
    simp [initial, arrivals, tally, RunnerPc.hasArrived, VuPc.Arrived]

/-! ### Arrivals -/

variable {s s' : State launch.vus} {i : Fin launch.vus}

theorem arrivals_lt_of_vu {s : State n} {i : Fin n} (missing : ¬(s.vu i).Arrived) :
    arrivals s < n + 1 := by
  have bound := tally_lt_card (p := VuPc.Arrived) missing
  rw [Fintype.card_fin] at bound
  rw [arrivals]
  split <;> omega

theorem arrivals_lt_of_runner {s : State n} (missing : s.runner.hasArrived = false) :
    arrivals s < n + 1 := by
  have bound := tally_le_card VuPc.Arrived s.vu
  rw [Fintype.card_fin] at bound
  rw [arrivals, missing]
  simp
  omega

/-- An open barrier has seen every VU. -/
theorem Inv.arrived (inv : Inv fails s) (isOpen : s.readyBarrier.generation = 1) (i : Fin launch.vus) :
    (s.vu i).Arrived := by
  by_contra missing
  have closed := inv.round.generation (inv.parties ▸ arrivals_lt_of_vu missing)
  omega

/-- While a VU is missing the barrier is closed. -/
theorem Inv.closed (inv : Inv fails s) (missing : ¬(s.vu i).Arrived) :
    s.readyBarrier.generation = 0 :=
  inv.round.generation (inv.parties ▸ arrivals_lt_of_vu missing)

/-! ### Steps of a VU -/

/-- What a step of a VU leaves to the runner. -/
structure Frame (s s' : State n) : Prop where
  runner : s'.runner = s.runner
  signal : s'.signal = s.signal
  runStarted : s'.runStarted = s.runStarted
  aborted : s'.aborted = s.aborted
  starts : s'.starts = s.starts
  counters : s.signal.started = false →
    s'.gates = s.gates ∧ s'.iterations = s.iterations ∧ s'.recorded = s.recorded

theorem Untouched.frame (untouched : Untouched s) (frame : Frame s s') : Untouched s' :=
  ⟨frame.signal ▸ untouched.started, frame.runStarted.trans untouched.runStarted,
    (frame.counters untouched.started).1.trans untouched.gates⟩

theorem GatesStarted.frame {started k : Nat} (gates : GatesStarted s started k)
    (frame : Frame s s') (quiet : s.signal.started = false) : GatesStarted s' started k := by
  intro j
  rw [(frame.counters quiet).1]
  exact gates j

/-- A VU that works does not change what the runner knows. -/
theorem RunnerOk.frame {pc : RunnerPc} (ok : RunnerOk s pc) (frame : Frame s s')
    (opened : ∀ slot, Open s slot → Open s' slot) : RunnerOk s' pc := by
  have keeps : s.readyBarrier.generation = 1 → s'.readyBarrier.generation = 1 :=
    fun isOpen => (opened s.initError ⟨isOpen, rfl⟩).generation
  -- one case for each position: none of its facts is about what a VU may change
  cases pc with
  | spawning k => exact ⟨ok.1, ok.2.frame frame⟩
  | atBarrier wait => exact ⟨ok.1, ok.2.frame frame⟩
  | readSlot => exact ⟨keeps ok.1, ok.2.frame frame⟩
  | aborting message k =>
    obtain ⟨isOpen, quiet, aborted⟩ := ok
    exact ⟨opened _ isOpen, frame.signal ▸ quiet, frame.aborted ▸ aborted⟩
  | awaiting message k =>
    obtain ⟨isOpen, quiet, aborted⟩ := ok
    exact ⟨opened _ isOpen, frame.signal ▸ quiet, frame.aborted ▸ aborted⟩
  | takeStart => exact ⟨opened _ ok.1, ok.2.frame frame⟩
  | setStarted started => exact ⟨opened _ ok.1, ok.2.frame frame⟩
  | startAtCheck started k =>
    obtain ⟨isOpen, quiet, isStarted, gates⟩ := ok
    exact ⟨opened _ isOpen, frame.signal ▸ quiet, frame.runStarted.trans isStarted,
      gates.frame frame quiet⟩
  | startAtSet started k =>
    obtain ⟨isOpen, quiet, isStarted, gates, inside⟩ := ok
    exact ⟨opened _ isOpen, frame.signal ▸ quiet, frame.runStarted.trans isStarted,
      gates.frame frame quiet, inside⟩
  | storeFlag =>
    obtain ⟨isOpen, quiet, started, isStarted, gates⟩ := ok
    exact ⟨opened _ isOpen, frame.signal ▸ quiet, started, frame.runStarted.trans isStarted,
      gates.frame frame quiet⟩
  | notifyWaiters => exact ⟨opened _ ok.1, frame.signal ▸ ok.2.1, frame.starts.trans ok.2.2⟩
  | started => exact ⟨opened _ ok.1, frame.signal ▸ ok.2.1, frame.starts.trans ok.2.2⟩
  | returned error =>
    obtain ⟨quiet, message, isError, isOpen⟩ := ok
    exact ⟨frame.signal ▸ quiet, message, isError, opened _ isOpen⟩

/-- What a VU knows lasts when others move: the runner leaves its loop once, the start is not taken
back, and a slot that is written stays so. -/
theorem VuOk.frame {pc : VuPc} (ok : VuOk fails s i pc)
    (runner : ∀ k, s.runner = .spawning k → s'.runner = .spawning k)
    (started : s.signal.started = true → s'.signal.started = true)
    (noted : s.initError ≠ none → s'.initError ≠ none) : VuOk fails s' i pc := by
  cases pc with
  | unspawned =>
    -- a VU is only unspawned while the runner is still spawning
    obtain ⟨k, spawning, le⟩ := ok
    exact ⟨k, runner k spawning, le⟩
  | initializing => trivial
  | initFailed message => exact ok
  | ready error => exact ⟨ok.1, noted ∘ ok.2⟩
  | atBarrier error wait => exact ⟨ok.1, noted ∘ ok.2⟩
  | loadFlag => exact ok
  | createNotified => exact ok
  | parked future => exact ok
  | working pc => exact ⟨ok.1, started ok.2⟩
  | returned error => exact noted ∘ ok
  | cancelled => exact noted ∘ ok

/-- The step lemma of the VUs: one of them moves, and may write the slot or arrive. -/
theorem Inv.moved (inv : Inv fails s) (spawned : s.vu i ≠ .unspawned) (frame : Frame s s') (pc : VuPc)
    (vu : s'.vu = Function.update s.vu i pc)
    (parties : s'.readyBarrier.parties = s.readyBarrier.parties)
    (round : s'.readyBarrier.FirstRound (arrivals s'))
    (opened : ∀ slot, Open s slot → Open s' slot)
    (noted : s.initError ≠ none → s'.initError ≠ none)
    (slot : ∀ message, s'.initError = some message → ∃ i, fails i = some message)
    (ok : VuOk fails s' i pc) : Inv fails s' := by
  refine ⟨parties.trans inv.parties, round, slot, ?_, ?_, ?_, ?_⟩
  -- every other VU keeps its position
  · intro j
    rw [vu]
    by_cases same : j = i
    · subst same
      rwa [Function.update_self]
    · rw [Function.update_of_ne same]
      exact (inv.vus j).frame (fun _ => frame.runner.trans) (fun started => frame.signal ▸ started)
        noted
  -- the VU that moves was spawned, so it is none of those still to come
  · intro k spawning j later
    have unspawned := inv.fresh k (frame.runner ▸ spawning) j later
    rw [vu, Function.update_of_ne, unspawned]
    rintro rfl
    exact spawned unspawned
  · rw [frame.runner]
    exact inv.runner.frame frame opened
  · rw [frame.signal, frame.starts]
    intro quiet
    obtain ⟨-, iterations, recorded⟩ := frame.counters quiet
    rw [iterations, recorded]
    exact inv.quiet quiet

theorem arrivals_update {s s' : State n} {i : Fin n} (pc : VuPc) (runner : s'.runner = s.runner)
    (vu : s'.vu = Function.update s.vu i pc) (same : pc.Arrived ↔ (s.vu i).Arrived) :
    arrivals s' = arrivals s := by
  rw [arrivals, arrivals, runner, vu, tally_update_of_iff same]

theorem arrivals_arrive {s s' : State n} {i : Fin n} (pc : VuPc) (runner : s'.runner = s.runner)
    (vu : s'.vu = Function.update s.vu i pc) (before : ¬(s.vu i).Arrived) (after : pc.Arrived) :
    arrivals s' = arrivals s + 1 := by
  rw [arrivals, arrivals, runner, vu, tally_update before, if_pos after]
  omega

/-- A move on one side of the barrier. -/
theorem Inv.stays (inv : Inv fails s) (spawned : s.vu i ≠ .unspawned) (frame : Frame s s') {pc : VuPc}
    (vu : s'.vu = Function.update s.vu i pc) (barrier : s'.readyBarrier = s.readyBarrier)
    (slot : s'.initError = s.initError) (same : pc.Arrived ↔ (s.vu i).Arrived)
    (ok : VuOk fails s' i pc) : Inv fails s' := by
  refine inv.moved spawned frame pc vu (by rw [barrier]) ?_ ?_ ?_ ?_ ok
  -- as many parties have come as before
  · rw [barrier, arrivals_update pc frame.runner vu same]
    exact inv.round
  · intro message isOpen
    exact ⟨barrier ▸ isOpen.generation, slot.trans isOpen.slot⟩
  · rw [slot]
    exact id
  · rw [slot]
    exact inv.slot

/-- The slot and the barrier are not the runner's. -/
theorem frame_shared (s : State n) (i : Fin n) (pc : VuPc) (initError : Option String)
    (readyBarrier : Barrier) : Frame s { s.goto i pc with initError, readyBarrier } :=
  ⟨rfl, rfl, rfl, rfl, rfl, fun _ => ⟨rfl, rfl, rfl⟩⟩

theorem frame_goto (s : State n) (i : Fin n) (pc : VuPc) : Frame s (s.goto i pc) :=
  frame_shared s i pc s.initError s.readyBarrier

/-- A move from one position to another that changes nothing else. -/
theorem Inv.goto (inv : Inv fails s) {old pc : VuPc} (isOld : s.vu i = old)
    (spawned : old ≠ .unspawned) (same : pc.Arrived ↔ old.Arrived) (ok : VuOk fails s i pc) :
    Inv fails (s.goto i pc) := by
  subst isOld
  exact inv.stays spawned (frame_goto s i pc) rfl rfl rfl same (ok.frame (fun _ => id) id id)

/-- A started VU stays in its loop or returns; it may use its gate and count an iteration. -/
structure Works (s s' : State n) (i : Fin n) (pc : VuPc) : Prop where
  frame : s.signal.started = true → Frame s s'
  vu : s'.vu = Function.update s.vu i pc
  barrier : s'.readyBarrier = s.readyBarrier
  slot : s'.initError = s.initError
  stays : (∃ work, pc = .working work) ∨ ∃ error, pc = .returned error

/-- Every step of a VU's work is one of `Works`: it changes gates and counters only. -/
theorem workStep_works {work : VuWork} {s s' : State n} {i : Fin n} {input : Input} {pc : WorkPc}
    (taken : workStep work s i input pc = some s') : ∃ pc', Works s s' i pc' := by
  cases pc with
  | prepare =>
    simp only [workStep] at taken
    split at taken
    · cases taken
      exact ⟨_, fun _ => frame_goto s i _, rfl, rfl, rfl, .inr ⟨_, rfl⟩⟩
    · cases taken
      exact ⟨_, fun _ => frame_goto s i _, rfl, rfl, rfl, .inl ⟨_, rfl⟩⟩
  | calling pc =>
    -- the gate changes, which only a started VU may do
    have shared (gates : List IterationGate) (iterations : Nat) (pc : VuPc) :
        s.signal.started = true → Frame s { s.goto i pc with gates, iterations } :=
      fun started => ⟨rfl, rfl, rfl, rfl, rfl, fun quiet => by simp [started] at quiet⟩
    simp only [workStep] at taken
    split at taken
    · split at taken
      · cases taken
      · split at taken
        · cases taken
          exact ⟨_, shared _ _ _, rfl, rfl, rfl, .inl ⟨_, rfl⟩⟩
        · cases taken
          exact ⟨_, shared _ _ _, rfl, rfl, rfl, .inl ⟨_, rfl⟩⟩
        · cases taken
          exact ⟨_, shared _ _ _, rfl, rfl, rfl, .inr ⟨_, rfl⟩⟩
    · cases taken
    · cases taken
  | turning =>
    simp only [workStep] at taken
    split at taken
    · cases taken
      exact ⟨_, fun _ => frame_goto s i _, rfl, rfl, rfl, .inl ⟨_, rfl⟩⟩
    · cases taken
      exact ⟨_, fun started => ⟨rfl, rfl, rfl, rfl, rfl, fun quiet => by simp [started] at quiet⟩,
        rfl, rfl, rfl, .inl ⟨_, rfl⟩⟩
    · cases taken
      exact ⟨_, fun _ => frame_goto s i _, rfl, rfl, rfl, .inr ⟨_, rfl⟩⟩
  | iterating =>
    cases taken
    exact ⟨_, fun _ => frame_goto s i _, rfl, rfl, rfl, .inl ⟨_, rfl⟩⟩
  | recording error =>
    have counted (pc : VuPc) : s.signal.started = true →
        Frame s { s.goto i pc with recorded := s.recorded + 1 } :=
      fun started => ⟨rfl, rfl, rfl, rfl, rfl, fun quiet => by simp [started] at quiet⟩
    simp only [workStep] at taken
    split at taken
    · cases taken
      exact ⟨_, counted _, rfl, rfl, rfl, .inr ⟨_, rfl⟩⟩
    · cases taken
      exact ⟨_, counted _, rfl, rfl, rfl, .inl ⟨_, rfl⟩⟩

/-- The first failed VU writes the slot, while the barrier is still closed. -/
theorem Inv.note (inv : Inv fails s) {message : String} (pc : s.vu i = .initFailed message) :
    Inv fails
      { s.goto i (.ready (some message)) with initError := s.initError.or (some message) } := by
  have missing : ¬(s.vu i).Arrived := by simp [pc, VuPc.Arrived]
  have closed := inv.closed missing
  have failed : fails i = some message := by simpa [pc, VuOk] using inv.vus i
  have count : arrivals
      { s.goto i (.ready (some message)) with initError := s.initError.or (some message) } =
      arrivals s :=
    arrivals_update (i := i) (.ready (some message)) rfl rfl (by simp [pc, VuPc.Arrived])
  refine inv.moved (i := i) (by simp [pc]) (frame_shared s i _ _ _) (.ready (some message)) rfl rfl
    ?_ ?_ ?_ ?_ ⟨failed, fun _ => by simp⟩
  · rw [count]
    exact inv.round
  -- the barrier is closed, so no promise about the slot was given yet
  · intro slot isOpen
    exact absurd isOpen.generation (by omega)
  · simp
  · intro written isSlot
    rcases Option.or_eq_some_iff.mp isSlot with old | ⟨-, new⟩
    · exact inv.slot written old
    · exact ⟨i, failed.trans new⟩

/-- A VU comes to the barrier. -/
theorem Inv.arrive (inv : Inv fails s) {error : Option String} (pc : s.vu i = .ready error) :
    Inv fails
      { s.goto i (.atBarrier error s.readyBarrier.arrive.2) with
        readyBarrier := s.readyBarrier.arrive.1 } := by
  have missing : ¬(s.vu i).Arrived := by simp [pc, VuPc.Arrived]
  -- as long as a party is missing the barrier is closed
  have closed := inv.closed missing
  have ok : VuOk fails s i (.ready error) := pc ▸ inv.vus i
  have count : arrivals
      { s.goto i (.atBarrier error s.readyBarrier.arrive.2) with
        readyBarrier := s.readyBarrier.arrive.1 } = arrivals s + 1 :=
    arrivals_arrive (i := i) (.atBarrier error s.readyBarrier.arrive.2) rfl rfl missing trivial
  refine inv.moved (i := i) (by simp [pc]) (frame_shared s i _ _ _)
    (.atBarrier error s.readyBarrier.arrive.2) rfl (Barrier.arrive_parties _) ?_ ?_ id inv.slot
    ⟨⟨ok.1, closed⟩, ok.2⟩
  · rw [count]
    exact inv.round.arrive (inv.parties ▸ arrivals_lt_of_vu missing)
  -- nothing was promised of an open barrier before
  · intro slot isOpen
    exact absurd isOpen.generation (by omega)

/-- Every step of a VU keeps the invariant. -/
theorem inv_vuStep {works : Fin launch.vus → VuWork} (inv : Inv fails s) {input : Input}
    (taken : vuStep works fails s i input = some s') : Inv fails s' := by
  have ok := inv.vus i
  rw [vuStep.eq_def] at taken
  split at taken
  next => cases taken
  next pc =>
    split at taken
    next message failed =>
      cases taken
      exact inv.goto pc nofun Iff.rfl failed
    next passed =>
      cases taken
      exact inv.goto pc nofun Iff.rfl ⟨passed, fun some => absurd passed some⟩
  next message pc =>
    cases taken
    exact inv.note pc
  next error pc =>
    cases taken
    exact inv.arrive pc
  -- released with an error the VU returns it, and without one it passes
  next error wait pc =>
    rw [pc] at ok
    split at taken
    · split at taken
      · cases taken
        exact inv.goto pc nofun Iff.rfl ok.2
      · cases taken
        exact inv.goto pc nofun Iff.rfl ok.1.1
    · cases taken
  next pc =>
    rw [pc] at ok
    cases taken
    split
    next started => exact inv.goto pc nofun Iff.rfl ⟨ok, started⟩
    next => exact inv.goto pc nofun Iff.rfl ok
  next pc =>
    rw [pc] at ok
    cases taken
    exact inv.goto pc nofun Iff.rfl ok
  next future pc =>
    rw [pc] at ok
    split at taken
    · cases taken
      exact inv.goto pc nofun Iff.rfl ok
    · cases taken
  -- a VU works only after the start, where the counters are free to change
  next work pc =>
    rw [pc] at ok
    obtain ⟨passed, started⟩ := ok
    obtain ⟨pc', works⟩ := workStep_works taken
    have frame := works.frame started
    obtain ⟨work', rfl⟩ | ⟨error, rfl⟩ := works.stays
    · exact inv.stays (by simp [pc]) frame works.vu works.barrier works.slot (by simp [pc, VuPc.Arrived])
        ⟨passed, frame.signal ▸ started⟩
    · exact inv.stays (by simp [pc]) frame works.vu works.barrier works.slot (by simp [pc, VuPc.Arrived])
        fun some => absurd passed some
  next => cases taken
  next => cases taken

/-- A task that awaits something is past the slot. -/
theorem inv_cancelStep (inv : Inv fails s) (taken : cancelStep s i = some s') : Inv fails s' := by
  have ok := inv.vus i
  rw [cancelStep] at taken
  split at taken
  next aborted =>
    cases taken
    -- an abort only takes effect at an await
    have awaiting := (Bool.and_eq_true_iff.mp aborted).2
    cases pc : s.vu i with
    | atBarrier error wait =>
      rw [pc] at ok
      exact inv.goto pc nofun Iff.rfl ok.2
    | parked future =>
      rw [pc] at ok
      exact inv.goto pc nofun Iff.rfl fun some => absurd ok some
    | working work =>
      rw [pc] at ok
      exact inv.goto pc nofun Iff.rfl fun some => absurd ok.1 some
    | _ => simp [pc, VuPc.isAwaiting] at awaiting
  next => cases taken

/-! ### Steps of the runner -/

/-- Past the spawn loop the runner touches no VU, no slot and no barrier. -/
theorem Inv.advance (inv : Inv fails s) {old : RunnerPc} (isOld : s.runner = old)
    (past : old.hasArrived = true) (after : s'.runner.hasArrived = true) (vu : s'.vu = s.vu)
    (barrier : s'.readyBarrier = s.readyBarrier) (slot : s'.initError = s.initError)
    (started : s.signal.started = true → s'.signal.started = true)
    (ok : RunnerOk s' s'.runner)
    (quiet : s'.signal.started = false →
      s'.signal.notify.calls = 0 ∧ s'.starts = 0 ∧ s'.iterations = 0 ∧ s'.recorded = 0) :
    Inv fails s' := by
  refine ⟨barrier ▸ inv.parties, ?_, slot ▸ inv.slot, ?_, ?_, ok, quiet⟩
  -- the runner has arrived before and after, and no VU moved
  · have same : arrivals s' = arrivals s := by
      rw [arrivals, arrivals, vu, isOld, past, after]
    rw [barrier, same]
    exact inv.round
  · intro i
    rw [vu]
    refine (inv.vus i).frame (fun k spawning => ?_) started (by rw [slot]; exact id)
    -- what a VU says of the spawn loop is void by now
    rw [isOld] at spawning
    simp [spawning, RunnerPc.hasArrived] at past
  · intro k spawning
    simp [spawning, RunnerPc.hasArrived] at after

/-- One turn of the spawn loop. -/
theorem inv_spawn (inv : Inv fails s) {k : Nat} (pc : s.runner = .spawning k)
    (spawn : k < launch.vus) :
    Inv fails { s with
      vu := Function.update s.vu ⟨k, spawn⟩ .initializing
      runner := .spawning (k + 1) } := by
  have ok : RunnerOk s (.spawning k) := pc ▸ inv.runner
  -- neither the old nor the new position of this VU is past the barrier
  have unspawned := inv.fresh k pc ⟨k, spawn⟩ (Nat.le_refl k)
  have count : arrivals { s with
      vu := Function.update s.vu ⟨k, spawn⟩ .initializing
      runner := .spawning (k + 1) } = arrivals s := by
    have same := tally_update_of_iff (p := VuPc.Arrived) (f := s.vu) (i := ⟨k, spawn⟩)
      (b := .initializing) (by simp [unspawned, VuPc.Arrived])
    simp [arrivals, pc, RunnerPc.hasArrived, same]
  refine ⟨inv.parties, ?_, inv.slot, ?_, ?_, ⟨spawn, ok.2.started, ok.2.runStarted, ok.2.gates⟩,
    inv.quiet⟩
  · rw [count]
    exact inv.round
  -- the new VU is initialising, the VUs behind it are still to come
  · intro i
    by_cases same : i = ⟨k, spawn⟩
    · subst same
      simp [VuOk]
    · simp only [Function.update_of_ne same]
      have old := inv.vus i
      cases vu : s.vu i with
      | unspawned =>
        rw [vu] at old
        obtain ⟨k', spawning, le⟩ := old
        obtain rfl : k = k' := by simpa [pc] using spawning
        refine ⟨k + 1, rfl, ?_⟩
        have differs : i.val ≠ k := fun eq => same (Fin.ext eq)
        omega
      | _ => rw [vu] at old; exact old
  · rintro k' spawning i later
    obtain rfl : k + 1 = k' := by simpa using spawning
    have differs : i ≠ ⟨k, spawn⟩ := by
      rintro rfl
      simp at later
    simp only [Function.update_of_ne differs]
    exact inv.fresh k pc i (by omega)

/-- The runner comes to the barrier when every VU is spawned. -/
theorem inv_runnerArrive (inv : Inv fails s) {k : Nat} (pc : s.runner = .spawning k)
    (all : ¬k < launch.vus) :
    Inv fails { s with
      readyBarrier := s.readyBarrier.arrive.1
      runner := .atBarrier s.readyBarrier.arrive.2 } := by
  have ok : RunnerOk s (.spawning k) := pc ▸ inv.runner
  have missing := arrivals_lt_of_runner (s := s) (by simp [pc, RunnerPc.hasArrived])
  -- the runner itself is still missing, so nobody was released
  have closed := inv.round.generation (inv.parties ▸ missing)
  refine ⟨(Barrier.arrive_parties _).trans inv.parties, ?_, inv.slot, ?_, nofun,
    ⟨closed, ok.2.started, ok.2.runStarted, ok.2.gates⟩, inv.quiet⟩
  · have count : arrivals { s with
        readyBarrier := s.readyBarrier.arrive.1
        runner := .atBarrier s.readyBarrier.arrive.2 } = arrivals s + 1 := by
      simp [arrivals, pc, RunnerPc.hasArrived]
    rw [count]
    exact inv.round.arrive (inv.parties ▸ missing)
  · intro i
    have old := inv.vus i
    cases vu : s.vu i with
    -- no VU is left to spawn
    | unspawned =>
      rw [vu] at old
      obtain ⟨k', spawning, le⟩ := old
      obtain rfl : k = k' := by simpa [pc] using spawning
      exact absurd i.isLt (by omega)
    | _ => rw [vu] at old; exact old

/-- A gate that has a deadline keeps it. -/
theorem setDeadline_of_isSome {gate : IterationGate} (set : gate.deadline.isSome) (started : Nat) :
    gate.setDeadline started = gate := by
  obtain ⟨deadline, isSome⟩ := Option.isSome_iff_exists.mp set
  rw [IterationGate.setDeadline, isSome]
  split
  next none => cases none
  next => rfl

/-- A gate that somebody has given a deadline before is passed over. -/
theorem GatesStarted.skip {started k : Nat} (gates : GatesStarted s started k)
    {gate : IterationGate} (isGate : s.gates[k]? = some gate) (set : gate.deadline.isSome) :
    GatesStarted s started (k + 1) := by
  intro j
  -- a gate that has its deadline already counts as started
  by_cases next : j = k
  · subst next
    have launched := (gates j).symm.trans isGate
    simp only [Nat.lt_irrefl, ↓reduceIte, Option.map_id'] at launched
    rw [isGate, launched]
    simp [setDeadline_of_isSome set]
  · rw [gates j]
    have same : j < k + 1 ↔ j < k := by omega
    simp only [same]

/-- A gate gets its deadline, and the loop comes to the next one. -/
theorem GatesStarted.set {started k : Nat} (gates : GatesStarted s started k) (runner : RunnerPc) :
    GatesStarted { s with
      gates := s.gates.modify k fun gate => gate.setDeadline started
      runner } started (k + 1) := by
  intro j
  rw [List.getElem?_modify, gates j]
  -- only the gate of this turn is modified
  by_cases next : k = j
  · subst next
    simp
  · have same : j < k + 1 ↔ j < k := by omega
    simp only [next, ↓reduceIte, same]
    exact Option.map_id'

theorem GatesStarted.inside {started k : Nat} (gates : GatesStarted s started k)
    {gate : IterationGate} (isGate : s.gates[k]? = some gate) : k < launch.gates.length := by
  by_contra outside
  have launched := (gates k).symm.trans isGate
  simp [List.getElem?_eq_none_iff.mpr (Nat.le_of_not_lt outside)] at launched

/-- A gate past the last one means that all are started. -/
theorem GatesStarted.all {started k : Nat} (gates : GatesStarted s started k)
    (last : s.gates[k]? = none) : GatesStarted s started launch.gates.length := by
  have done := (gates k).symm.trans last
  rw [Option.map_eq_none_iff, List.getElem?_eq_none_iff] at done
  intro j
  rw [gates j]
  -- the loop has come to the end of the gates
  by_cases inside : j < launch.gates.length
  · simp only [show j < k by omega, inside]
  · simp [List.getElem?_eq_none_iff.mpr (Nat.le_of_not_lt inside)]

/-- A party of the first round is released by the opening of the barrier. -/
theorem Inv.opens (inv : Inv fails s) {wait : BarrierWait}
    (released : s.readyBarrier.Released wait) : s.readyBarrier.generation = 1 := by
  cases inv.round with
  -- in the first round nobody is released
  | waiting start _ _ =>
    rw [Barrier.Released, start] at released
    exact absurd released (Nat.not_lt_zero _)
  | released isOpen _ => exact isOpen

/-- Once past the barrier the runner reads the slot. -/
theorem inv_readSlot (inv : Inv fails s) {now : Nat} (pc : s.runner = .readSlot)
    (taken : runnerStep s now = some s') : Inv fails s' := by
  have ok := inv.runner
  simp only [runnerStep, pc] at ok taken
  split at taken
  next message slot =>
    cases taken
    exact inv.advance pc rfl rfl rfl rfl rfl id
      ⟨⟨ok.1, slot⟩, ok.2.started, fun _ => nofun⟩ inv.quiet
  next slot =>
    cases taken
    exact inv.advance pc rfl rfl rfl rfl rfl id
      ⟨⟨ok.1, slot⟩, ok.2.started, ok.2.runStarted, ok.2.gates⟩ inv.quiet

/-- The loop that aborts the tasks. -/
theorem inv_aborting (inv : Inv fails s) {message : String} {k now : Nat}
    (pc : s.runner = .aborting message k) (taken : runnerStep s now = some s') :
    Inv fails s' := by
  have ok := inv.runner
  simp only [runnerStep, pc] at ok taken
  obtain ⟨isOpen, started, aborted⟩ := ok
  split at taken
  next task =>
    cases taken
    refine inv.advance pc rfl rfl rfl rfl rfl id
      ⟨⟨isOpen.generation, isOpen.slot⟩, started, ?_⟩ inv.quiet
    -- the flags of the tasks before stay, and that of this one is set
    intro i before
    by_cases same : i = ⟨k, task⟩
    · subst same
      exact Function.update_self ..
    · have differs : i.val ≠ k := fun eq => same (Fin.ext eq)
      exact (Function.update_of_ne same ..).trans (aborted i (by omega))
  next all =>
    cases taken
    exact inv.advance pc rfl rfl rfl rfl rfl id
      ⟨⟨isOpen.generation, isOpen.slot⟩, started, fun i => aborted i (by omega)⟩ inv.quiet

/-- The loop that awaits them. -/
theorem inv_awaiting (inv : Inv fails s) {message : String} {k now : Nat}
    (pc : s.runner = .awaiting message k) (taken : runnerStep s now = some s') :
    Inv fails s' := by
  have ok := inv.runner
  simp only [runnerStep, pc] at ok taken
  obtain ⟨isOpen, started, aborted⟩ := ok
  split at taken
  next task =>
    split at taken
    · cases taken
      exact inv.advance pc rfl rfl rfl rfl rfl id
        ⟨⟨isOpen.generation, isOpen.slot⟩, started, aborted⟩ inv.quiet
    · cases taken
  -- every handle was awaited, so the message in the slot is returned
  next all =>
    cases taken
    exact inv.advance pc rfl rfl rfl rfl rfl id
      ⟨started, message, rfl, isOpen.generation, isOpen.slot⟩ inv.quiet

/-- The loop over the gates, in front of a gate. -/
theorem inv_startAtCheck (inv : Inv fails s) {started k now : Nat}
    (pc : s.runner = .startAtCheck started k) (taken : runnerStep s now = some s') :
    Inv fails s' := by
  have ok := inv.runner
  simp only [runnerStep, pc] at ok taken
  obtain ⟨isOpen, quiet, isStarted, gates⟩ := ok
  split at taken
  -- past the last gate all of them have their deadline
  next last =>
    cases taken
    exact inv.advance pc rfl rfl rfl rfl rfl id
      ⟨⟨isOpen.generation, isOpen.slot⟩, quiet, started, isStarted, gates.all last⟩ inv.quiet
  next gate isGate =>
    cases taken
    split
    -- scenarios may share a gate, which keeps the deadline of its first turn
    next set =>
      exact inv.advance pc rfl rfl rfl rfl rfl id
        ⟨⟨isOpen.generation, isOpen.slot⟩, quiet, isStarted, gates.skip isGate set⟩ inv.quiet
    next =>
      exact inv.advance pc rfl rfl rfl rfl rfl id
        ⟨⟨isOpen.generation, isOpen.slot⟩, quiet, isStarted, gates, gates.inside isGate⟩ inv.quiet

/-- The same loop, about to set the deadline of a gate. -/
theorem inv_startAtSet (inv : Inv fails s) {started k now : Nat}
    (pc : s.runner = .startAtSet started k) (taken : runnerStep s now = some s') :
    Inv fails s' := by
  have ok := inv.runner
  simp only [runnerStep, pc] at ok taken
  obtain ⟨isOpen, quiet, isStarted, gates, -⟩ := ok
  cases taken
  exact inv.advance pc rfl rfl rfl rfl rfl id
    ⟨⟨isOpen.generation, isOpen.slot⟩, quiet, isStarted, gates.set _⟩ inv.quiet

/-- The call of `start`: the flag and then the broadcast. -/
theorem inv_start (inv : Inv fails s) {now : Nat}
    (pc : s.runner = .storeFlag ∨ s.runner = .notifyWaiters)
    (taken : runnerStep s now = some s') : Inv fails s' := by
  have ok := inv.runner
  rcases pc with pc | pc
  · simp only [runnerStep, pc] at ok taken
    obtain ⟨isOpen, quiet, -⟩ := ok
    cases taken
    -- until now nothing was started, so it is the first call
    refine inv.advance pc rfl rfl rfl rfl rfl (fun _ => rfl)
      ⟨⟨isOpen.generation, isOpen.slot⟩, rfl, ?_⟩ nofun
    exact congrArg (· + 1) (inv.quiet quiet).2.1
  · simp only [runnerStep, pc] at ok taken
    obtain ⟨isOpen, started, starts⟩ := ok
    cases taken
    exact inv.advance pc rfl rfl rfl rfl rfl id ⟨⟨isOpen.generation, isOpen.slot⟩, started, starts⟩
      fun quiet => by simp [started] at quiet

/-- Every step of the runner keeps the invariant. -/
theorem inv_runnerStep (inv : Inv fails s) {now : Nat} (taken : runnerStep s now = some s') :
    Inv fails s' := by
  have ok := inv.runner
  cases pc : s.runner with
  | spawning k =>
    simp only [runnerStep, pc] at taken
    split at taken
    next spawn => cases taken; exact inv_spawn inv pc spawn
    next all => cases taken; exact inv_runnerArrive inv pc all
  | atBarrier wait =>
    simp only [runnerStep, pc] at ok taken
    split at taken
    next released =>
      cases taken
      exact inv.advance pc rfl rfl rfl rfl rfl id
        ⟨inv.opens released, ok.2.started, ok.2.runStarted, ok.2.gates⟩ inv.quiet
    next => cases taken
  | readSlot => exact inv_readSlot inv pc taken
  | aborting message k => exact inv_aborting inv pc taken
  | awaiting message k => exact inv_awaiting inv pc taken
  | takeStart =>
    simp only [runnerStep, pc] at ok taken
    cases taken
    exact inv.advance pc rfl rfl rfl rfl rfl id
      ⟨⟨ok.1.generation, ok.1.slot⟩, ok.2.started, ok.2.runStarted, ok.2.gates⟩ inv.quiet
  -- the start is read once, and no gate has it yet
  | setStarted started =>
    simp only [runnerStep, pc] at ok taken
    obtain ⟨isOpen, untouched⟩ := ok
    cases taken
    refine inv.advance pc rfl rfl rfl rfl rfl id
      ⟨⟨isOpen.generation, isOpen.slot⟩, untouched.started, ?_, ?_⟩ inv.quiet
    · simp [untouched.runStarted]
    · intro j
      simp [untouched.gates]
  | startAtCheck started k => exact inv_startAtCheck inv pc taken
  | startAtSet started k => exact inv_startAtSet inv pc taken
  | storeFlag => exact inv_start inv (.inl pc) taken
  | notifyWaiters => exact inv_start inv (.inr pc) taken
  | started => simp [runnerStep, pc] at taken
  | returned result => simp [runnerStep, pc] at taken

theorem inv_step {a : Action launch.vus} (inv : Inv fails s)
    (taken : (machine launch fails).step s a = some s') : Inv fails s' := by
  cases a with
  | runner now => exact inv_runnerStep inv taken
  | vu i input => exact inv_vuStep inv taken
  | cancel i => exact inv_cancelStep inv taken

theorem inv_of_reachable (run : (machine launch fails).Reachable s) : Inv fails s := by
  refine run.invariant (Inv fails) (fun s start => ?_) fun s a s' inv taken => inv_step inv taken
  rw [start]
  exact inv_initial

/-! ### Progress -/

/-- What a VU has left to do before it waits for the start. -/
def vuRank : VuPc → Nat
  | .unspawned => 8
  | .initializing => 7
  | .initFailed _ => 6
  | .ready _ => 5
  | .atBarrier _ _ => 4
  | .loadFlag => 3
  | .createNotified => 2
  | .parked _ => 1
  | .working _ | .returned _ | .cancelled => 0

/-- What the runner has left to do until it starts the VUs or returns. -/
def runnerRank (vus gates : Nat) : RunnerPc → Nat
  -- each loop counts its own turns and those of the loops behind it
  | .spawning k => (vus - k) + 2 * vus + 2 * gates + 10
  | .atBarrier _ => 2 * vus + 2 * gates + 9
  | .readSlot => 2 * vus + 2 * gates + 8
  | .aborting _ k => (vus - k) + vus + 2
  | .awaiting _ k => (vus - k) + 1
  | .takeStart => 2 * gates + 6
  | .setStarted _ => 2 * gates + 5
  -- a gate takes two steps
  | .startAtCheck _ k => 2 * (gates - k) + 4
  | .startAtSet _ k => 2 * (gates - k) + 3
  | .storeFlag => 2
  | .notifyWaiters => 1
  | .started | .returned _ => 0

/-- What the runner and the VUs still have ahead of them before the start. -/
def rank (s : State launch.vus) : Nat :=
  runnerRank launch.vus launch.gates.length s.runner + ∑ i, vuRank (s.vu i)

/-- The run is under way or `run_scenarios` has returned. -/
def Settled (s : State n) : Prop :=
  s.signal.started = true ∨ ∃ error, s.runner = .returned error

/-- A step of a VU moves it forward, until it is started. -/
theorem vuStep_spec {works : Fin launch.vus → VuWork} (inv : Inv fails s) {input : Input}
    (taken : vuStep works fails s i input = some s') :
    Frame s s' ∧ ∃ pc, s'.vu = Function.update s.vu i pc ∧
      (s.signal.started = false → vuRank pc < vuRank (s.vu i)) := by
  have ok := inv.vus i
  rw [vuStep.eq_def] at taken
  split at taken
  next => cases taken
  next pc =>
    split at taken
    · cases taken
      exact ⟨frame_goto s i _, _, rfl, fun _ => by simp [pc, vuRank]⟩
    · cases taken
      exact ⟨frame_goto s i _, _, rfl, fun _ => by simp [pc, vuRank]⟩
  next message pc =>
    cases taken
    exact ⟨frame_shared s i _ _ _, _, rfl, fun _ => by simp [pc, vuRank]⟩
  next error pc =>
    cases taken
    exact ⟨frame_shared s i _ _ _, _, rfl, fun _ => by simp [pc, vuRank]⟩
  next error wait pc =>
    split at taken
    · split at taken
      · cases taken
        exact ⟨frame_goto s i _, _, rfl, fun _ => by simp [pc, vuRank]⟩
      · cases taken
        exact ⟨frame_goto s i _, _, rfl, fun _ => by simp [pc, vuRank]⟩
    · cases taken
  next pc =>
    cases taken
    exact ⟨frame_goto s i _, _, rfl, fun quiet => by simp [pc, quiet, vuRank]⟩
  next pc =>
    cases taken
    exact ⟨frame_goto s i _, _, rfl, fun _ => by simp [pc, vuRank]⟩
  next future pc =>
    split at taken
    next woken =>
      cases taken
      -- only the start wakes a parked VU
      refine ⟨frame_goto s i _, _, rfl, fun quiet => ?_⟩
      rw [Notify.Woken, (inv.quiet quiet).1] at woken
      exact absurd woken (Nat.not_lt_zero _)
    next => cases taken
  next work pc =>
    rw [pc] at ok
    obtain ⟨pc', works⟩ := workStep_works taken
    exact ⟨works.frame ok.2, pc', works.vu, fun quiet => by simp [ok.2] at quiet⟩
  next => cases taken
  next => cases taken

/-- A cancelled VU changes its own position, and before the start it comes nearer to its end. -/
theorem cancelStep_spec (inv : Inv fails s) (taken : cancelStep s i = some s') :
    Frame s s' ∧ ∃ pc, s'.vu = Function.update s.vu i pc ∧
      (s.signal.started = false → vuRank pc < vuRank (s.vu i)) := by
  have ok := inv.vus i
  rw [cancelStep] at taken
  split at taken
  next aborted =>
    cases taken
    have awaiting := (Bool.and_eq_true_iff.mp aborted).2
    refine ⟨frame_goto s i _, _, rfl, fun quiet => ?_⟩
    cases pc : s.vu i with
    | atBarrier error wait => simp [vuRank]
    | parked future => simp [vuRank]
    -- a VU at work was started, so the signal is not quiet
    | working work =>
      rw [pc] at ok
      simp [ok.2] at quiet
    | _ => simp [pc, VuPc.isAwaiting] at awaiting
  next => cases taken

theorem rank_lt_of_vu (frame : Frame s s') {pc : VuPc} (vu : s'.vu = Function.update s.vu i pc)
    (smaller : vuRank pc < vuRank (s.vu i)) : rank s' < rank s := by
  have moved := sum_moved_task (fun _ => vuRank) s.vu i pc
  rw [rank, rank, frame.runner, vu]
  omega

/-- Past the spawn loop only the position of the runner counts. -/
theorem rank_lt_of_runner (vu : s'.vu = s.vu)
    (smaller : runnerRank launch.vus launch.gates.length s'.runner <
      runnerRank launch.vus launch.gates.length s.runner) : rank s' < rank s := by
  rw [rank, rank, vu]
  omega

/-- Every step of the runner brings the start nearer. -/
theorem rank_runnerStep (inv : Inv fails s) {now : Nat} (taken : runnerStep s now = some s') :
    rank s' < rank s := by
  have ok := inv.runner
  rw [runnerStep.eq_def] at taken
  split at taken
  next k pc =>
    split at taken
    next spawn =>
      cases taken
      -- the spawned VU falls from eight to seven, the runner by one
      have moved := sum_moved_task (fun _ => vuRank) s.vu ⟨k, spawn⟩ .initializing
      rw [inv.fresh k pc ⟨k, spawn⟩ (Nat.le_refl k)] at moved
      simp only [rank, pc, runnerRank, vuRank] at moved ⊢
      omega
    next =>
      cases taken
      exact rank_lt_of_runner rfl (by simp only [pc, runnerRank]; omega)
  next wait pc =>
    split at taken
    · cases taken
      exact rank_lt_of_runner rfl (by simp only [pc, runnerRank]; omega)
    · cases taken
  next pc =>
    split at taken
    · cases taken
      exact rank_lt_of_runner rfl (by simp only [pc, runnerRank]; omega)
    · cases taken
      exact rank_lt_of_runner rfl (by simp only [pc, runnerRank]; omega)
  next message k pc =>
    split at taken
    · cases taken
      exact rank_lt_of_runner rfl (by simp only [pc, runnerRank]; omega)
    · cases taken
      exact rank_lt_of_runner rfl (by simp only [pc, runnerRank]; omega)
  next message k pc =>
    split at taken
    · split at taken
      · cases taken
        exact rank_lt_of_runner rfl (by simp only [pc, runnerRank]; omega)
      · cases taken
    · cases taken
      exact rank_lt_of_runner rfl (by simp only [pc, runnerRank]; omega)
  next pc =>
    cases taken
    exact rank_lt_of_runner rfl (by simp only [pc, runnerRank]; omega)
  next started pc =>
    cases taken
    exact rank_lt_of_runner rfl (by simp only [pc, runnerRank]; omega)
  next started k pc =>
    rw [pc] at ok
    split at taken
    next =>
      cases taken
      exact rank_lt_of_runner rfl (by simp only [pc, runnerRank]; omega)
    next gate isGate =>
      cases taken
      -- a check falls to the set of the same gate or to the check of the next one
      have inside := ok.2.2.2.inside isGate
      refine rank_lt_of_runner rfl ?_
      simp only [pc]
      split
      · simp only [runnerRank]
        omega
      · simp only [runnerRank]
        omega
  next started k pc =>
    rw [pc] at ok
    obtain ⟨-, -, -, -, inside⟩ := ok
    cases taken
    exact rank_lt_of_runner rfl (by simp only [pc, runnerRank]; omega)
  next pc =>
    cases taken
    exact rank_lt_of_runner rfl (by simp only [pc, runnerRank]; omega)
  next pc =>
    cases taken
    exact rank_lt_of_runner rfl (by simp only [pc, runnerRank]; omega)
  next => cases taken
  next => cases taken

/-- A VU or the runner that moves has less left to do. -/
theorem rank_step {a : Action launch.vus} (inv : Inv fails s) (quiet : s.signal.started = false)
    (taken : (machine launch fails).step s a = some s') : rank s' < rank s := by
  cases a with
  | runner now => exact rank_runnerStep inv taken
  | vu i input =>
    obtain ⟨frame, pc, vu, smaller⟩ := vuStep_spec inv taken
    exact rank_lt_of_vu frame vu (smaller quiet)
  | cancel i =>
    obtain ⟨frame, pc, vu, smaller⟩ := cancelStep_spec inv taken
    exact rank_lt_of_vu frame vu (smaller quiet)

/-- The error is the message of a VU that failed. -/
def Reported (fails : Fin n → Option String) (error : Error) : Prop :=
  ∃ i message, fails i = some message ∧ error = .vu message

/-- A failed VU has left a message before it comes to the barrier. -/
theorem Inv.noted (inv : Inv fails s) (arrived : (s.vu i).Arrived) (failed : fails i ≠ none) :
    s.initError ≠ none := by
  have ok := inv.vus i
  cases pc : s.vu i with
  | atBarrier error wait =>
    rw [pc] at ok
    exact ok.2 failed
  -- who comes past the barrier without an error did not fail
  | loadFlag =>
    rw [pc] at ok
    exact absurd ok failed
  | createNotified =>
    rw [pc] at ok
    exact absurd ok failed
  | parked future =>
    rw [pc] at ok
    exact absurd ok failed
  | working work =>
    rw [pc] at ok
    exact absurd ok.1 failed
  | returned error =>
    rw [pc] at ok
    exact ok failed
  | cancelled =>
    rw [pc] at ok
    exact ok failed
  | _ => simp [pc, VuPc.Arrived] at arrived

/-- The flag is set only after the slot was found empty, and then by one call. -/
theorem Inv.started (inv : Inv fails s) (isStarted : s.signal.started = true) :
    Open s none ∧ s.starts = 1 := by
  have ok := inv.runner
  cases pc : s.runner with
  -- the positions behind the store of the flag
  | notifyWaiters =>
    rw [pc] at ok
    exact ⟨ok.1, ok.2.2⟩
  | started =>
    rw [pc] at ok
    exact ⟨ok.1, ok.2.2⟩
  | spawning k =>
    rw [pc] at ok
    simp [ok.2.started] at isStarted
  | atBarrier wait =>
    rw [pc] at ok
    simp [ok.2.started] at isStarted
  | readSlot =>
    rw [pc] at ok
    simp [ok.2.started] at isStarted
  | takeStart =>
    rw [pc] at ok
    simp [ok.2.started] at isStarted
  | setStarted started =>
    rw [pc] at ok
    simp [ok.2.started] at isStarted
  | returned error =>
    rw [pc] at ok
    simp [ok.1] at isStarted
  | _ =>
    rw [pc] at ok
    simp [ok.2.1] at isStarted

theorem Inv.reported (inv : Inv fails s) {error : Error} (returned : s.runner = .returned error) :
    Reported fails error := by
  have ok := inv.runner
  rw [returned] at ok
  obtain ⟨-, message, rfl, isOpen⟩ := ok
  obtain ⟨i, failed⟩ := inv.slot message isOpen.slot
  exact ⟨i, message, failed, rfl⟩

/-- Two VUs with a minute to run. -/
def twoVus : Launch where
  scenarios := [⟨"Default", ⟨"Default", []⟩, .constantVus 2, none, some (.fromSecs 60)⟩]
  allocated := by decide

/-- The VU that is spawned first. -/
def first : Fin twoVus.vus := ⟨0, by decide⟩

/-- The other one. -/
def second : Fin twoVus.vus := ⟨1, by decide⟩

/-- What the steps before the start read of the outside. -/
def idle : Input := ⟨0, .pause, none⟩

end Run

end Wrkr.Core
