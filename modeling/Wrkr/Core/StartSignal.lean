import Mathlib.Data.Fintype.Basic
import Wrkr.Lib.Machine
import Wrkr.Lib.Sync

/-!
# The start signal

`run_scenarios` waits on the ready barrier together with every VU and then calls
`StartSignal::start`; each VU passes the same barrier and calls `StartSignal::wait`. The flag
is read before the `Notified` future exists, so a broadcast that falls between the two is
missed. The results below say exactly when that happens: never, as long as no VU stands in
this window when `start` broadcasts (`no_lost_start`), and inevitably otherwise
(`lost_of_broadcast_in_window`).
-/
namespace Wrkr.Core

open Wrkr.Lib

/-- The flag, and whom to wake when it is set. -/
structure StartSignal where
  started : Bool
  notify : Notify
  deriving DecidableEq, Repr

def StartSignal.new : StartSignal := ⟨false, Notify.new⟩

namespace Start

/-- The runner: `ready_barrier.wait()`, then the two statements of `StartSignal::start`. -/
inductive RunnerPc
  | spawning
  | atBarrier
  | released
  | flagStored
  | startReturned
  deriving DecidableEq, Repr

/-- A VU: `ready_barrier.wait()`, then the loop of `StartSignal::wait`. -/
inductive VuPc
  | initializing
  | atBarrier
  | loadFlag
  | createNotified
  | parked (future : Notified)
  | running
  deriving DecidableEq, Repr

variable {ι : Type}

structure State (ι : Type) where
  signal : StartSignal
  runner : RunnerPc
  vu : ι → VuPc

inductive Action (ι : Type)
  | runner
  | vu (i : ι)
  deriving DecidableEq, Repr

/-- All `total_vus + 1` parties have arrived at the barrier. -/
def Arrived (s : State ι) : Prop :=
  s.runner ≠ .spawning ∧ ∀ i, s.vu i ≠ .initializing

variable [Fintype ι]

instance (s : State ι) : Decidable (Arrived s) :=
  inferInstanceAs (Decidable (_ ∧ _))

variable [DecidableEq ι]

/-- The runner waits for the VUs, sets the flag and wakes them, in three steps. -/
def runnerStep (s : State ι) : Option (State ι) :=
  match s.runner with
  | .spawning => some { s with runner := .atBarrier }
  | .atBarrier => if Arrived s then some { s with runner := .released } else none
  | .released =>
    some { s with signal := { s.signal with started := true }, runner := .flagStored }
  | .flagStored =>
    some { s with
      signal := { s.signal with notify := s.signal.notify.notifyWaiters }
      runner := .startReturned }
  | .startReturned => none

/-- A VU looks at the flag, makes its future, and looks again only when it is woken. -/
def vuStep (s : State ι) (i : ι) : Option (State ι) :=
  let goto (pc : VuPc) : State ι := { s with vu := Function.update s.vu i pc }
  match s.vu i with
  | .initializing => some (goto .atBarrier)
  | .atBarrier => if Arrived s then some (goto .loadFlag) else none
  | .loadFlag => some (goto (if s.signal.started then .running else .createNotified))
  | .createNotified => some (goto (.parked s.signal.notify.notified))
  | .parked future => if s.signal.notify.Woken future then some (goto .loadFlag) else none
  | .running => none

/-- One runner and any number of VUs. -/
def machine (ι : Type) [Fintype ι] [DecidableEq ι] : Machine (State ι) (Action ι) where
  init s := s = ⟨StartSignal.new, .spawning, fun _ => .initializing⟩
  step s
    | .runner => runnerStep s
    | .vu i => vuStep s i

/-- `start` has returned, so no broadcast will follow, and a VU is parked in a future that no
past broadcast has woken. -/
def LostStart (s : State ι) : Prop :=
  s.runner = .startReturned ∧
    ∃ i future, s.vu i = .parked future ∧ ¬ s.signal.notify.Woken future

/-- A step is prompt unless it is the broadcast of `start` taken while some VU has read the
flag as unset and has not created its future yet. -/
def Prompt (s : State ι) : Action ι → Prop
  | .runner => s.runner = .flagStored → ∀ i, s.vu i ≠ .createNotified
  | .vu _ => True

instance (s : State ι) : (a : Action ι) → Decidable (Prompt s a)
  | .runner => inferInstanceAs (Decidable (_ → _))
  | .vu _ => inferInstanceAs (Decidable True)

/-! ### Invariant -/

/-- The flag is set before the broadcast. After it nobody is on the way to park, and whoever is
parked has been woken. -/
structure Inv (s : State ι) : Prop where
  issued : ∀ i future, s.vu i = .parked future → s.signal.notify.Issued future
  flag : s.runner = .flagStored ∨ s.runner = .startReturned → s.signal.started = true
  settled : s.runner = .startReturned → ∀ i, s.vu i ≠ .createNotified ∧
    ∀ future, s.vu i = .parked future → s.signal.notify.Woken future

theorem inv_init (s : State ι) (start : (machine ι).init s) : Inv s := by
  subst start
  constructor <;> simp

omit [DecidableEq ι] in
/-- A prompt broadcast finds nobody between the flag and the future, so it wakes all that wait. -/
theorem inv_runnerStep {s s' : State ι} (inv : Inv s) (prompt : Prompt s .runner)
    (taken : runnerStep s = some s') : Inv s' := by
  unfold runnerStep at taken
  split at taken
  next => cases taken; exact ⟨inv.issued, by simp, by simp⟩
  next =>
    split at taken
    · cases taken; exact ⟨inv.issued, by simp, by simp⟩
    · simp at taken
  next => cases taken; exact ⟨inv.issued, by simp, by simp⟩
  next pc =>
    cases taken
    refine ⟨fun i f h => (inv.issued i f h).notifyWaiters, fun _ => inv.flag (.inl pc), ?_⟩
    intro _ i
    exact ⟨prompt pc i, fun f h => (inv.issued i f h).woken⟩
  next => simp at taken

omit [Fintype ι] in
/-- Moving one VU keeps the invariant when its new position satisfies the clauses. -/
theorem Inv.update {s : State ι} (inv : Inv s) (i : ι) (pc : VuPc)
    (issued : ∀ f, pc = .parked f → s.signal.notify.Issued f)
    (settled : s.runner = .startReturned → pc ≠ .createNotified ∧
      ∀ f, pc = .parked f → s.signal.notify.Woken f) :
    Inv { s with vu := Function.update s.vu i pc } := by
  refine ⟨?_, inv.flag, ?_⟩
  · intro j f parked
    by_cases same : j = i
    · subst same; exact issued f (by simpa using parked)
    · exact inv.issued j f (by simpa [same] using parked)
  · intro returned j
    by_cases same : j = i
    · subst same; simpa using settled returned
    · simpa [same] using inv.settled returned j

/-- After the broadcast a VU finds the flag set, and leaves the loop instead of parking. -/
theorem inv_vuStep {s s' : State ι} {i : ι} (inv : Inv s) (taken : vuStep s i = some s') :
    Inv s' := by
  unfold vuStep at taken
  dsimp only at taken
  split at taken
  next => cases taken; exact inv.update i _ (by simp) (by simp)
  next =>
    split at taken
    · cases taken; exact inv.update i _ (by simp) (by simp)
    · simp at taken
  next =>
    cases taken
    -- once `start` has returned the flag is set, so the loop is left here
    refine inv.update i _ (by split <;> simp) fun returned => ?_
    simp [inv.flag (.inr returned)]
  next pc =>
    cases taken
    refine inv.update i _ (by simp) fun returned => ?_
    exact absurd pc (inv.settled returned i).1
  next =>
    split at taken
    · cases taken; exact inv.update i _ (by simp) (by simp)
    · simp at taken
  next => simp at taken

theorem inv_of_reachableBy {s : State ι} (run : (machine ι).ReachableBy Prompt s) : Inv s := by
  refine run.invariant Inv inv_init fun s a s' inv prompt taken => ?_
  cases a with
  | runner => exact inv_runnerStep inv prompt taken
  | vu i => exact inv_vuStep inv taken

/-! ### Lost starts -/

/-- In every interleaving whose broadcast finds no VU between its flag check and the creation
of its future, no VU is left parked after `start`. -/
theorem no_lost_start {s : State ι} (run : (machine ι).ReachableBy Prompt s) :
    ¬ LostStart s := by
  rintro ⟨returned, i, future, parked, asleep⟩
  exact asleep (((inv_of_reachableBy run).settled returned i).2 future parked)

/-- The VU creates its future in time, so the broadcast wakes it. -/
theorem no_lost_start_parked_in_time :
    ∃ s : State (Fin 1), (machine (Fin 1)).ReachableBy Prompt s ∧
      (s.runner = .startReturned ∧ s.vu 0 = .parked ⟨0⟩) ∧ ¬ LostStart s := by
  obtain ⟨s, run, parked⟩ := Machine.exists_reachableBy_of_exec (machine (Fin 1))
    (Prompt) (fun s => s.runner = .startReturned ∧ s.vu 0 = .parked ⟨0⟩)
    ([.runner, .vu 0, .runner, .vu 0, .vu 0, .vu 0, .runner, .runner]) rfl (by decide)
  exact ⟨s, run, parked, no_lost_start run⟩

/-- The VU reads the flag as unset, `start` stores and broadcasts, and only then the VU
creates the future nobody will wake. -/
theorem lost_start_reachable :
    ∃ s : State (Fin 1), (machine (Fin 1)).Reachable s ∧ LostStart s := by
  obtain ⟨s, run, returned, parked, calls⟩ := Machine.exists_reachableBy_of_exec
    (machine (Fin 1)) (fun _ _ => True)
    (fun s => s.runner = .startReturned ∧ s.vu 0 = .parked ⟨1⟩ ∧ s.signal.notify = ⟨1⟩)
    ([.runner, .vu 0, .runner, .vu 0, .vu 0, .runner, .runner, .vu 0]) rfl (by decide)
  exact ⟨s, run, returned, 0, ⟨1⟩, parked, by rw [calls]; decide⟩

/-- The window is never harmless: a broadcast that finds a VU in it can be followed by a
lost start. -/
theorem lost_of_broadcast_in_window {s : State ι} (run : (machine ι).Reachable s)
    (window : ¬ Prompt s .runner) : ∃ s', (machine ι).Reachable s' ∧ LostStart s' := by
  simp only [Prompt, ne_eq, not_forall, not_not] at window
  obtain ⟨stored, i, creating⟩ := window
  let s₁ : State ι := { s with
    signal := { s.signal with notify := s.signal.notify.notifyWaiters }
    runner := .startReturned }
  let s₂ : State ι := { s₁ with
    vu := Function.update s.vu i (.parked s₁.signal.notify.notified) }
  have broadcast : (machine ι).step s .runner = some s₁ := by
    simp [machine, runnerStep, stored, s₁]
  have create : (machine ι).step s₁ (.vu i) = some s₂ := by
    simp [machine, vuStep, creating, s₁, s₂]
  refine ⟨s₂, .step (.step run trivial broadcast) trivial create, rfl, i, _, ?_,
    Notify.not_woken_notified _⟩
  simp [s₂]

end Start

end Wrkr.Core
