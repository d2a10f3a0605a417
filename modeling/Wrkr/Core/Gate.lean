import Wrkr.Lib.Machine
import Wrkr.Lib.Tasks

/-!
# The iteration gate

All VUs of a constant scenario run `while gate.next()` on one shared `IterationGate`. A call
takes several atomic steps: in duration mode it reads the clock, initialises the deadline if
nobody has, and compares; then it draws a number from the shared counter. The counter keeps
growing through refused calls, one for each VU at most, which is why the budget stays exact as
long as `N` plus the number of VUs fits in the counter.
-/
namespace Wrkr.Core

open Wrkr.Lib

/-- Instants and durations count nanoseconds; `counter` is an `AtomicU64`, `deadline` a
`OnceLock`. -/
structure IterationGate where
  counter : Nat
  iterations : Option Nat
  duration : Option Nat
  deadline : Option Nat
  deriving DecidableEq, Repr

namespace IterationGate

/-- A gate that no VU has called yet. -/
def new (iterations duration : Option Nat) : IterationGate :=
  ⟨0, iterations, duration, none⟩

/-- `self.deadline.set(started + duration)`: the first call wins. -/
def setDeadline (g : IterationGate) (started : Nat) : IterationGate :=
  match g.duration, g.deadline with
  | some duration, none => { g with deadline := some (started + duration) }
  | _, _ => g

/-- `self.counter.fetch_add(1)`. -/
def bump (g : IterationGate) : IterationGate :=
  { g with counter := (g.counter + 1) % 2 ^ 64 }

/-- The atomic steps of `IterationGate::next`. -/
inductive NextPc
  | enter
  | deadlineIsNone (now : Nat)
  | startAtCheck (now : Nat)
  | startAtSet (now : Nat)
  | compare (now : Nat)
  | count (now : Option Nat)
  deriving DecidableEq, Repr

/-- One step of `next`: the next position, or the value returned. -/
def nextStep (g : IterationGate) (clock : Nat) : NextPc → IterationGate × (NextPc ⊕ Bool)
  | .enter =>
    if g.duration.isSome then (g, .inl (.deadlineIsNone clock)) else (g, .inl (.count none))
  | .deadlineIsNone now =>
    (g, .inl (if g.deadline.isNone then .startAtCheck now else .compare now))
  | .startAtCheck now =>
    (g, .inl (if g.deadline.isSome then .compare now else .startAtSet now))
  | .startAtSet now => (g.setDeadline now, .inl (.compare now))
  -- the clock was read on entry, so a slow caller compares an old instant
  | .compare now =>
    match g.deadline with
    | some deadline =>
      if now ≥ deadline then (g, .inr false) else (g, .inl (.count (some now)))
    | none => (g, .inl (.count (some now)))
  -- `fetch_add` hands out the number even when the call is then refused
  | .count _ =>
    match g.iterations with
    | some total => (g.bump, .inr (if g.counter ≥ total then false else true))
    | none =>
      -- neither limit is set: one iteration
      if g.duration.isNone then (g.bump, .inr (if g.counter > 0 then false else true))
      else (g, .inr true)

/-- How many numbers the counter hands out, if it is consulted at all. -/
def limit (iterations duration : Option Nat) : Option Nat :=
  match iterations, duration with
  | some total, _ => some total
  | none, none => some 1
  | none, some _ => none

end IterationGate

namespace Gate

open IterationGate

/-- `run_scenarios`: take the start instant, then the two steps of `gate.start_at(started)`. -/
inductive RunnerPc
  | spawning
  | startAtCheck (started : Nat)
  | startAtSet (started : Nat)
  | startReturned (started : Nat)
  deriving DecidableEq, Repr

/-- A VU in its `while gate.next()` loop. An iteration that fails leaves the loop through `?`. -/
inductive VuPc
  | calling (pc : NextPc)
  | iterating
  | sawFalse
  | failed
  deriving DecidableEq, Repr

/-- `granted` lists the calls that returned true, each with its clock reading if it took one. -/
structure State (ι : Type) where
  gate : IterationGate
  clock : Nat
  runner : RunnerPc
  vu : ι → VuPc
  granted : List (ι × Option Nat)

/-- Who moves: the clock, the runner, a VU, or a VU whose iteration fails. -/
inductive Action (ι : Type)
  | tick
  | runner
  | vu (i : ι)
  | failIteration (i : ι)
  deriving DecidableEq, Repr

variable {ι : Type}

/-- The runner's `start_at`, which tests the deadline and sets it in two steps. -/
def runnerStep (s : State ι) : Option (State ι) :=
  match s.runner with
  | .spawning => some { s with runner := .startAtCheck s.clock }
  | .startAtCheck started =>
    some { s with
      runner := if s.gate.deadline.isSome then .startReturned started else .startAtSet started }
  | .startAtSet started =>
    some { s with gate := s.gate.setDeadline started, runner := .startReturned started }
  | .startReturned _ => none

variable [DecidableEq ι]

/-- The clock reading carried by a call that reaches the counter. -/
def reading : NextPc → Option Nat
  | .count now => now
  | _ => none

/-- A step of a VU inside of `next`, or the start of its next call. -/
def vuStep (s : State ι) (i : ι) : Option (State ι) :=
  match s.vu i with
  | .calling pc =>
    match s.gate.nextStep s.clock pc with
    | (gate, .inl pc') => some { s with gate, vu := Function.update s.vu i (.calling pc') }
    -- the call returns, and its reading of the clock is logged
    | (gate, .inr true) =>
      some { s with
        gate
        vu := Function.update s.vu i .iterating
        granted := (i, reading pc) :: s.granted }
    | (gate, .inr false) => some { s with gate, vu := Function.update s.vu i .sawFalse }
  | .iterating => some { s with vu := Function.update s.vu i (.calling .enter) }
  | .sawFalse => none
  | .failed => none

/-- Clock, runner and VUs in any order. -/
def machine (ι : Type) [DecidableEq ι] (iterations duration : Option Nat) :
    Machine (State ι) (Action ι) where
  init s := ∃ clock, s = ⟨.new iterations duration, clock, .spawning,
    fun _ => .calling .enter, []⟩
  step s
    | .tick => some { s with clock := s.clock + 1 }
    | .runner => runnerStep s
    | .vu i => vuStep s i
    -- `?` on the result of the iteration
    | .failIteration i =>
      if s.vu i = .iterating then some { s with vu := Function.update s.vu i .failed } else none

/-! ### What one step of a call does to the gate -/

@[simp] theorem setDeadline_iterations (g : IterationGate) (started : Nat) :
    (g.setDeadline started).iterations = g.iterations := by
  unfold setDeadline; split <;> rfl

@[simp] theorem setDeadline_duration (g : IterationGate) (started : Nat) :
    (g.setDeadline started).duration = g.duration := by
  unfold setDeadline; split <;> rfl

@[simp] theorem setDeadline_counter (g : IterationGate) (started : Nat) :
    (g.setDeadline started).counter = g.counter := by
  unfold setDeadline; split <;> rfl

theorem setDeadline_deadline {g : IterationGate} {D : Nat} (timed : g.duration = some D)
    (started : Nat) :
    (g.setDeadline started).deadline = some (g.deadline.getD (started + D)) := by
  unfold setDeadline
  rw [timed]
  -- a deadline that is there stays
  cases deadline : g.deadline <;> simp [deadline]

theorem setDeadline_untimed {g : IterationGate} (untimed : g.duration = none) (started : Nat) :
    g.setDeadline started = g := by
  unfold setDeadline
  rw [untimed]

/-- The limits never change, and a deadline appears only in duration mode. -/
structure SameMode (g g' : IterationGate) : Prop where
  iterations : g'.iterations = g.iterations
  duration : g'.duration = g.duration
  untimed : g.duration = none → g'.deadline = g.deadline

theorem sameMode_setDeadline (g : IterationGate) (started : Nat) :
    SameMode g (g.setDeadline started) :=
  ⟨by simp, by simp, fun untimed => by rw [setDeadline_untimed untimed]⟩

/-- No step of `next` changes the limits of the gate. -/
theorem sameMode_nextStep (g : IterationGate) (clock : Nat) (pc : NextPc) :
    SameMode g (g.nextStep clock pc).1 := by
  have refl : SameMode g g := ⟨rfl, rfl, fun _ => rfl⟩
  have bumped : SameMode g g.bump := ⟨rfl, rfl, fun _ => rfl⟩
  cases pc with
  | enter =>
    unfold nextStep
    dsimp only
    split <;> exact refl
  | deadlineIsNone now => exact refl
  | startAtCheck now => exact refl
  -- the deadline is not one of the limits
  | startAtSet now => exact sameMode_setDeadline g now
  | compare now =>
    unfold nextStep
    dsimp only
    split
    · split <;> exact refl
    · exact refl
  | count now =>
    unfold nextStep
    dsimp only
    split
    · exact bumped
    · split
      · exact bumped
      · exact refl

/-- With a limit in force, a step either leaves the counter alone, refusing only on a
deadline, or draws a number and compares it with the limit. -/
theorem nextStep_cases {g : IterationGate} {L : Nat}
    (limited : limit g.iterations g.duration = some L) (clock : Nat) (pc : NextPc) :
    ((g.nextStep clock pc).1.counter = g.counter ∧
      ((∃ pc', (g.nextStep clock pc).2 = .inl pc') ∨
        (g.deadline ≠ none ∧ (g.nextStep clock pc).2 = .inr false))) ∨
    ((g.nextStep clock pc).1.counter = (g.counter + 1) % 2 ^ 64 ∧
      (g.nextStep clock pc).2 = .inr (decide (g.counter < L))) := by
  cases pc with
  | enter =>
    left
    unfold nextStep
    dsimp only
    split
    · exact ⟨rfl, .inl ⟨_, rfl⟩⟩
    · exact ⟨rfl, .inl ⟨_, rfl⟩⟩
  | deadlineIsNone now => exact .inl ⟨rfl, .inl ⟨_, rfl⟩⟩
  | startAtCheck now => exact .inl ⟨rfl, .inl ⟨_, rfl⟩⟩
  | startAtSet now => exact .inl ⟨setDeadline_counter g now, .inl ⟨_, rfl⟩⟩
  -- the only refusal without a number
  | compare now =>
    left
    unfold nextStep
    dsimp only
    split
    next d set =>
      split
      · exact ⟨rfl, .inr ⟨by simp [set], rfl⟩⟩
      · exact ⟨rfl, .inl ⟨_, rfl⟩⟩
    next => exact ⟨rfl, .inl ⟨_, rfl⟩⟩
  | count now =>
    right
    unfold nextStep
    dsimp only
    split
    -- the limit in force is the number of iterations
    next total counted =>
      have same : L = total := by simpa [limit, counted] using limited.symm
      subst same
      refine ⟨rfl, ?_⟩
      by_cases drawn : g.counter < L
      · simp [drawn]
      · simp [drawn]; omega
    next uncounted =>
      cases timed : g.duration with
      | some D => simp [limit, uncounted, timed] at limited
      | none =>
        -- without any limit the counter lets the number 0 through
        have same : L = 1 := by simpa [limit, uncounted, timed] using limited.symm
        subst same
        refine ⟨rfl, ?_⟩
        by_cases drawn : g.counter = 0
        · simp [drawn]
        · simp [drawn]; omega

/-! ### The budget -/

section Budget

variable [Fintype ι]

/-- `drawn` numbers have been handed out in total. The counter holds them modulo its width; the
first `L` were granted; each further one stopped a VU for good. -/
structure Budget (iterations duration : Option Nat) (L drawn : Nat) (s : State ι) : Prop where
  mode : SameMode (.new iterations duration) s.gate
  counter : s.gate.counter = drawn % 2 ^ 64
  granted : s.granted.length = min drawn L
  stopped : drawn ≤ L + tally (· = .sawFalse) s.vu
  exhausted : duration = none → (∃ i, s.vu i = .sawFalse) → L ≤ drawn

variable {iterations duration : Option Nat} {L : Nat} {s s' : State ι}

theorem budget_init (start : (machine ι iterations duration).init s) :
    Budget iterations duration L 0 s := by
  obtain ⟨clock, rfl⟩ := start
  exact ⟨⟨rfl, rfl, fun _ => rfl⟩, rfl, by simp, by simp, by simp⟩

omit [DecidableEq ι] in
/-- A task that is still in its loop leaves room in the counter. -/
theorem Budget.counter_eq {drawn : Nat} (budget : Budget iterations duration L drawn s)
    (fits : L + Fintype.card ι ≤ 2 ^ 64) {i : ι} (looping : s.vu i ≠ .sawFalse) :
    s.gate.counter = drawn := by
  -- the VU that asks is not among those that were stopped
  have room := tally_lt_card (p := (· = VuPc.sawFalse)) (f := s.vu) looping
  have bound := budget.stopped
  rw [budget.counter]
  exact Nat.mod_eq_of_lt (by omega)

omit [Fintype ι] in
theorem SameMode.trans {g g' g'' : IterationGate} (first : SameMode g g') (second : SameMode g' g'') :
    SameMode g g'' :=
  ⟨second.iterations.trans first.iterations, second.duration.trans first.duration,
    fun untimed => (second.untimed (first.duration.trans untimed)).trans (first.untimed untimed)⟩

omit [DecidableEq ι] in
/-- Steps that neither draw a number nor stop a VU keep the budget. -/
theorem Budget.frame {drawn : Nat} (budget : Budget iterations duration L drawn s)
    (mode : SameMode s.gate s'.gate) (counter : s'.gate.counter = s.gate.counter)
    (granted : s'.granted = s.granted)
    (same : tally (· = .sawFalse) s'.vu = tally (· = .sawFalse) s.vu)
    (stopped : duration = none → (∃ i, s'.vu i = .sawFalse) → ∃ i, s.vu i = .sawFalse) :
    Budget iterations duration L drawn s' :=
  ⟨budget.mode.trans mode, counter.trans budget.counter, granted ▸ budget.granted,
    same ▸ budget.stopped, fun untimed h => budget.exhausted untimed (stopped untimed h)⟩

/-- A step that draws no number and lets nobody through. -/
theorem Budget.move {drawn : Nat} (budget : Budget iterations duration L drawn s) {i : ι}
    (looping : s.vu i ≠ .sawFalse) {pc : VuPc} (moved : pc ≠ .sawFalse) {gate : IterationGate}
    (mode : SameMode s.gate gate) (counter : gate.counter = s.gate.counter) :
    Budget iterations duration L drawn { s with gate, vu := Function.update s.vu i pc } := by
  refine budget.frame mode counter rfl ?_ ?_
  · simpa [moved] using tally_update (p := (· = VuPc.sawFalse)) (f := s.vu) looping pc
  · rintro - ⟨j, stopped⟩
    by_cases same : j = i
    · subst same; simp [moved] at stopped
    · exact ⟨j, by simpa [same] using stopped⟩

/-- A call refused at the deadline stops its VU without drawing a number. -/
theorem Budget.expire {drawn : Nat} (budget : Budget iterations duration L drawn s) {i : ι}
    (looping : s.vu i ≠ .sawFalse) {gate : IterationGate} (mode : SameMode s.gate gate)
    (counter : gate.counter = s.gate.counter) (set : s.gate.deadline ≠ none) :
    Budget iterations duration L drawn
      { s with gate, vu := Function.update s.vu i .sawFalse } := by
  have stopped := tally_update (p := (· = VuPc.sawFalse)) (f := s.vu) looping .sawFalse
  have bound := budget.stopped
  refine ⟨budget.mode.trans mode, counter.trans budget.counter, budget.granted, ?_, ?_⟩
  · simp only [if_true] at stopped
    simp only [stopped]
    omega
  -- without a duration no deadline was ever set
  · intro untimed
    exact absurd (budget.mode.untimed untimed) set

/-- A number below the limit grants the call. -/
theorem Budget.grant {drawn : Nat} (budget : Budget iterations duration L drawn s) {i : ι}
    (looping : s.vu i ≠ .sawFalse) {gate : IterationGate} (mode : SameMode s.gate gate)
    (counter : gate.counter = (drawn + 1) % 2 ^ 64) (below : drawn < L) (call : ι × Option Nat) :
    Budget iterations duration L (drawn + 1)
      { s with
        gate
        vu := Function.update s.vu i .iterating
        granted := call :: s.granted } := by
  -- the VU goes on, so nobody is stopped by this step
  have kept : Budget iterations duration L drawn
      { s with vu := Function.update s.vu i .iterating } :=
    budget.move looping (by simp) ⟨rfl, rfl, fun _ => rfl⟩ rfl
  refine ⟨budget.mode.trans mode, counter, ?_, ?_, ?_⟩
  · have granted := budget.granted
    simp only [List.length_cons]
    omega
  · omega
  · intro untimed stopped
    have all := kept.exhausted untimed stopped
    omega

/-- A number past the limit stops the VU that drew it. -/
theorem Budget.refuse {drawn : Nat} (budget : Budget iterations duration L drawn s) {i : ι}
    (looping : s.vu i ≠ .sawFalse) {gate : IterationGate} (mode : SameMode s.gate gate)
    (counter : gate.counter = (drawn + 1) % 2 ^ 64) (past : L ≤ drawn) :
    Budget iterations duration L (drawn + 1)
      { s with gate, vu := Function.update s.vu i .sawFalse } := by
  -- one more VU has stopped, for one more number drawn
  have stopped := tally_update (p := (· = VuPc.sawFalse)) (f := s.vu) looping .sawFalse
  have bound := budget.stopped
  refine ⟨budget.mode.trans mode, counter, ?_, ?_, fun _ _ => by omega⟩
  · have granted := budget.granted
    show s.granted.length = _
    omega
  · simp only [if_true] at stopped
    simp only [stopped]
    omega

/-- The step lemma: whatever a VU does next, some budget accounts for it. -/
theorem budget_vuStep {drawn : Nat} (budget : Budget iterations duration L drawn s)
    (limited : limit iterations duration = some L) (fits : L + Fintype.card ι ≤ 2 ^ 64) {i : ι}
    (taken : vuStep s i = some s') : ∃ drawn', Budget iterations duration L drawn' s' := by
  unfold vuStep at taken
  split at taken
  next pc calling =>
    have looping : s.vu i ≠ .sawFalse := by simp [calling]
    have limited' : limit s.gate.iterations s.gate.duration = some L := by
      rw [budget.mode.iterations, budget.mode.duration]; exact limited
    have mode := sameMode_nextStep s.gate s.clock pc
    have outcome := nextStep_cases limited' s.clock pc
    rw [budget.counter_eq fits looping] at outcome
    cases stepped : s.gate.nextStep s.clock pc with
    | mk gate result =>
      simp only [stepped] at taken mode outcome
      have counterEq := budget.counter_eq fits looping
      -- an access that draws nothing, one that finds the deadline over, or the `fetch_add`
      rcases outcome with ⟨counter, ⟨pc', rfl⟩ | ⟨set, rfl⟩⟩ | ⟨counter, rfl⟩
      · cases taken
        exact ⟨drawn, budget.move looping (by simp) mode (counter.trans counterEq.symm)⟩
      · cases taken
        exact ⟨drawn, budget.expire looping mode (counter.trans counterEq.symm) set⟩
      -- the number drawn decides whether it was one of the budget
      · by_cases below : drawn < L
        · simp only [below, decide_true] at taken
          cases taken
          exact ⟨drawn + 1, budget.grant looping mode counter below _⟩
        · simp only [below, decide_false] at taken
          cases taken
          exact ⟨drawn + 1, budget.refuse looping mode counter (by omega)⟩
  next calling =>
    cases taken
    exact ⟨drawn, budget.move (by simp [calling]) (by simp) ⟨rfl, rfl, fun _ => rfl⟩ rfl⟩
  next => simp at taken
  next => simp at taken

/-- Every grant has drawn one number below the limit, in every state that is reached. -/
theorem budget_of_reachable (limited : limit iterations duration = some L)
    (fits : L + Fintype.card ι ≤ 2 ^ 64) (run : (machine ι iterations duration).Reachable s) :
    ∃ drawn, Budget iterations duration L drawn s := by
  refine run.invariant (fun s => ∃ drawn, Budget iterations duration L drawn s)
    (fun s start => ⟨0, budget_init start⟩) ?_
  rintro s a s' ⟨drawn, budget⟩ taken
  cases a with
  -- neither the clock nor the runner draws
  | tick =>
    cases taken
    exact ⟨drawn, budget.frame ⟨rfl, rfl, fun _ => rfl⟩ rfl rfl rfl fun _ h => h⟩
  | runner =>
    refine ⟨drawn, ?_⟩
    change runnerStep s = some s' at taken
    unfold runnerStep at taken
    split at taken
    next => cases taken; exact budget.frame ⟨rfl, rfl, fun _ => rfl⟩ rfl rfl rfl fun _ h => h
    next => cases taken; exact budget.frame ⟨rfl, rfl, fun _ => rfl⟩ rfl rfl rfl fun _ h => h
    next started _ =>
      cases taken
      exact budget.frame (sameMode_setDeadline s.gate started) (by simp) rfl rfl fun _ h => h
    next => simp at taken
  | vu i => exact budget_vuStep budget limited fits taken
  | failIteration i =>
    simp only [machine] at taken
    split at taken
    next iterating =>
      cases taken
      exact ⟨drawn, budget.move (by simp [iterating]) (by simp) ⟨rfl, rfl, fun _ => rfl⟩ rfl⟩
    next => simp at taken

end Budget

/-! ### The deadline -/

section Deadline

variable {iterations : Option Nat} {D : Nat} {s s' : State ι}

/-- The clock reading is before a deadline that has been set. -/
def InTime (g : IterationGate) (now : Nat) : Prop :=
  ∃ deadline, g.deadline = some deadline ∧ now < deadline

/-- What a call knows at each of its steps in duration mode. -/
def Timely (g : IterationGate) : NextPc → Prop
  | .compare _ => g.deadline ≠ none
  | .count now => ∃ t, now = some t ∧ InTime g t
  | _ => True

/-- With a duration: where the deadline comes from, and that every grant was in time. -/
structure DeadlineInv (D : Nat) (s : State ι) : Prop where
  timed : s.gate.duration = some D
  origin : ∀ deadline, s.gate.deadline = some deadline → ∃ start, deadline = start + D
  calls : ∀ i pc, s.vu i = .calling pc → Timely s.gate pc
  granted : ∀ call ∈ s.granted, ∃ now, call.2 = some now ∧ InTime s.gate now

omit [DecidableEq ι] in
/-- A later gate whose deadline, once set, is the same keeps what calls know. -/
theorem Timely.later {g g' : IterationGate} {pc : NextPc} (timely : Timely g pc)
    (kept : ∀ d, g.deadline = some d → g'.deadline = some d) : Timely g' pc := by
  cases pc with
  -- a deadline that was set cannot be unset
  | compare now =>
    obtain ⟨d, set⟩ := Option.ne_none_iff_exists'.mp timely
    exact Option.ne_none_iff_exists'.mpr ⟨d, kept d set⟩
  | count now =>
    obtain ⟨t, rfl, d, set, before⟩ := timely
    exact ⟨t, rfl, d, kept d set, before⟩
  | _ => trivial

omit [DecidableEq ι] in
/-- Only the step that sets the deadline changes it, and only if there is none. -/
theorem nextStep_deadline {g : IterationGate} (timed : g.duration = some D) (clock : Nat)
    (pc : NextPc) :
    (g.nextStep clock pc).1.deadline = g.deadline ∨
      (∃ now, pc = .startAtSet now ∧
        (g.nextStep clock pc).1.deadline = some (g.deadline.getD (now + D))) := by
  cases pc with
  | startAtSet now => exact .inr ⟨now, rfl, setDeadline_deadline timed now⟩
  | enter => left; unfold nextStep; dsimp only; split <;> rfl
  | deadlineIsNone now => exact .inl rfl
  | startAtCheck now => exact .inl rfl
  -- a refused comparison and a counted one write other fields
  | compare now =>
    left
    unfold nextStep
    dsimp only
    split
    · split <;> rfl
    · rfl
  | count now =>
    left
    unfold nextStep
    dsimp only
    split
    · rfl
    · split <;> rfl

omit [DecidableEq ι] in
/-- In duration mode every step of a call establishes what the next one relies on, and a call
that returns true was in time. -/
theorem nextStep_timely {g : IterationGate} (timed : g.duration = some D) {pc : NextPc}
    (timely : Timely g pc) (clock : Nat) :
    (∀ pc', (g.nextStep clock pc).2 = .inl pc' → Timely (g.nextStep clock pc).1 pc') ∧
    ((g.nextStep clock pc).2 = .inr true →
      ∃ now, reading pc = some now ∧ InTime (g.nextStep clock pc).1 now) := by
  cases pc with
  | enter => simp [nextStep, timed, Timely]
  | deadlineIsNone now =>
    cases set : g.deadline <;> simp [nextStep, set, Timely]
  | startAtCheck now =>
    cases set : g.deadline <;> simp [nextStep, set, Timely]
  | startAtSet now =>
    simp [nextStep, Timely, setDeadline_deadline timed]
  -- the deadline is there since `start_at` returned
  | compare now =>
    obtain ⟨d, set⟩ := Option.ne_none_iff_exists'.mp timely
    by_cases past : d ≤ now
    · simp [nextStep, set, past]
    · have before : now < d := by omega
      simp [nextStep, set, past, Timely, InTime, before]
  -- the counter has no say about the deadline
  | count now =>
    obtain ⟨t, rfl, d, set, before⟩ := timely
    cases counted : g.iterations with
    | some total => simp [nextStep, counted, reading, InTime, bump, set, before]
    | none => simp [nextStep, counted, timed, reading, InTime, set, before]

omit [DecidableEq ι] in
/-- Writing the deadline at most once keeps the invariant. -/
theorem DeadlineInv.regate (inv : DeadlineInv D s) {gate : IterationGate}
    (timed : gate.duration = some D)
    (deadline : gate.deadline = s.gate.deadline ∨
      ∃ now, gate.deadline = some (s.gate.deadline.getD (now + D))) :
    DeadlineInv D { s with gate } := by
  -- a deadline that is set is the value that `getD` returns
  have kept : ∀ d, s.gate.deadline = some d → gate.deadline = some d := by
    intro d set
    rcases deadline with same | ⟨now, written⟩
    · rw [same, set]
    · rw [written, set]; rfl
  refine ⟨timed, ?_, fun j pc calling => (inv.calls j pc calling).later kept, ?_⟩
  · intro d set
    cases old : s.gate.deadline with
    | some d' => exact inv.origin d (old.trans ((kept d' old).symm.trans set))
    | none =>
      rcases deadline with same | ⟨now, written⟩
      · exact inv.origin d (same ▸ set)
      · rw [old] at written
        exact ⟨now, Option.some.inj (set.symm.trans written)⟩
  · intro c member
    obtain ⟨now, read, d, set, before⟩ := inv.granted c member
    exact ⟨now, read, d, kept d set, before⟩

/-- A VU moves, and the gate stays as it is. -/
theorem DeadlineInv.goto (inv : DeadlineInv D s) {i : ι} {pc : VuPc}
    {granted : List (ι × Option Nat)}
    (call : ∀ pc', pc = .calling pc' → Timely s.gate pc')
    (grants : ∀ call ∈ granted, call ∈ s.granted ∨
      ∃ now, call.2 = some now ∧ InTime s.gate now) :
    DeadlineInv D { s with vu := Function.update s.vu i pc, granted } := by
  refine ⟨inv.timed, inv.origin, ?_, ?_⟩
  · intro j pc' calling
    -- the VU that moved brings its own reading, the others keep theirs
    by_cases same : j = i
    · subst same
      exact call pc' (by simpa using calling)
    · exact inv.calls j pc' (by simpa [same] using calling)
  · intro c member
    rcases grants c member with old | fresh
    · exact inv.granted c old
    · exact fresh

/-- Every step of a VU keeps the invariant of the deadline. -/
theorem deadlineInv_vuStep (inv : DeadlineInv D s) {i : ι} (taken : vuStep s i = some s') :
    DeadlineInv D s' := by
  unfold vuStep at taken
  split at taken
  next pc calling =>
    have mode := sameMode_nextStep s.gate s.clock pc
    have timely := nextStep_timely inv.timed (inv.calls i pc calling) s.clock
    have deadline := nextStep_deadline inv.timed s.clock pc
    cases stepped : s.gate.nextStep s.clock pc with
    | mk gate result =>
      simp only [stepped] at taken mode timely deadline
      have deadline' : gate.deadline = s.gate.deadline ∨
          ∃ now, gate.deadline = some (s.gate.deadline.getD (now + D)) :=
        deadline.imp_right fun ⟨now, _, written⟩ => ⟨now, written⟩
      -- first the gate, then the position of the VU
      have inv' := inv.regate (mode.duration.trans inv.timed) deadline'
      match result with
      | .inl pc' =>
        cases taken
        refine inv'.goto ?_ fun c member => .inl member
        intro pc'' same
        cases same
        exact timely.1 pc' rfl
      | .inr true =>
        cases taken
        refine inv'.goto (by simp) fun c member => ?_
        rcases List.mem_cons.mp member with rfl | old
        · exact .inr (timely.2 rfl)
        · exact .inl old
      | .inr false =>
        cases taken
        exact inv'.goto (by simp) fun c member => .inl member
  next calling =>
    cases taken
    refine inv.goto ?_ fun c member => .inl member
    intro pc' same
    cases same
    trivial
  next => simp at taken
  next => simp at taken

/-- So every grant of every run was in time. -/
theorem deadlineInv_of_reachable (run : (machine ι iterations (some D)).Reachable s) :
    DeadlineInv D s := by
  refine run.invariant (DeadlineInv D) ?_ fun s a s' inv taken => ?_
  · rintro s ⟨clock, rfl⟩
    refine ⟨rfl, by simp [IterationGate.new], ?_, by simp⟩
    intro i pc calling
    cases calling
    trivial
  · cases a with
    | tick => cases taken; exact ⟨inv.timed, inv.origin, inv.calls, inv.granted⟩
    | runner =>
      change runnerStep s = some s' at taken
      unfold runnerStep at taken
      split at taken
      next => cases taken; exact ⟨inv.timed, inv.origin, inv.calls, inv.granted⟩
      next => cases taken; exact ⟨inv.timed, inv.origin, inv.calls, inv.granted⟩
      -- `set_started_at` is the one write of the origin
      next started _ =>
        cases taken
        have timed : (s.gate.setDeadline started).duration = s.gate.duration := by simp
        have inv' := inv.regate (timed.trans inv.timed)
          (.inr ⟨started, setDeadline_deadline inv.timed started⟩)
        exact ⟨inv'.timed, inv'.origin, inv'.calls, inv'.granted⟩
      next => simp at taken
    | vu i => exact deadlineInv_vuStep inv taken
    | failIteration i =>
      simp only [machine] at taken
      split at taken
      · cases taken
        exact inv.goto (by simp) fun c member => .inl member
      · simp at taken

/-- The start signal: VUs enter their loops after the runner's `start_at` has returned. -/
def AfterStart (s : State ι) : Action ι → Prop
  | .vu _ =>
    match s.runner with
    | .startReturned _ => True
    | _ => False
  | _ => True

/-- Until `start_at` writes it the deadline is unset; afterwards it counts from the runner's
instant. -/
def DeadlineFrom (D : Nat) (s : State ι) : Prop :=
  match s.runner with
  | .startReturned started => s.gate.deadline = some (started + D)
  | _ => s.gate.deadline = none

omit [DecidableEq ι] in
/-- The runner sets the deadline from its own reading of the clock, if no VU was first. -/
theorem deadlineFrom_runnerStep (timed : s.gate.duration = some D) (inv : DeadlineFrom D s)
    (taken : runnerStep s = some s') : s'.gate.duration = some D ∧ DeadlineFrom D s' := by
  unfold runnerStep at taken
  split at taken
  next pc => cases taken; rw [DeadlineFrom, pc] at inv; exact ⟨timed, inv⟩
  next pc =>
    rw [DeadlineFrom, pc] at inv
    simp only [inv] at taken
    cases taken
    exact ⟨timed, inv⟩
  -- no VU has set a deadline, so this one counts
  next started pc =>
    rw [DeadlineFrom, pc] at inv
    cases taken
    refine ⟨by simpa using timed, ?_⟩
    change (s.gate.setDeadline started).deadline = some (started + D)
    rw [setDeadline_deadline timed, inv]; rfl
  next => simp at taken

/-- Once `start_at` has returned, the only step of `next` that could write the deadline changes
nothing. -/
theorem deadlineFrom_vuStep (timed : s.gate.duration = some D) {started : Nat}
    (pc : s.runner = .startReturned started) (inv : s.gate.deadline = some (started + D)) {i : ι}
    (taken : vuStep s i = some s') : s'.gate.duration = some D ∧ DeadlineFrom D s' := by
  have fixed : ∀ npc, (s.gate.nextStep s.clock npc).1.duration = some D ∧
      (s.gate.nextStep s.clock npc).1.deadline = some (started + D) := by
    intro npc
    refine ⟨(sameMode_nextStep s.gate s.clock npc).duration.trans timed, ?_⟩
    rcases nextStep_deadline timed s.clock npc with same | ⟨now, -, written⟩
    · rw [same, inv]
    · rw [written, inv]; rfl
  unfold vuStep at taken
  split at taken
  next npc _ =>
    have kept := fixed npc
    cases stepped : s.gate.nextStep s.clock npc with
    | mk gate result =>
      simp only [stepped] at taken kept
      match result with
      | .inl _ => cases taken; exact ⟨kept.1, by rw [DeadlineFrom]; simpa [pc] using kept.2⟩
      | .inr true => cases taken; exact ⟨kept.1, by rw [DeadlineFrom]; simpa [pc] using kept.2⟩
      | .inr false => cases taken; exact ⟨kept.1, by rw [DeadlineFrom]; simpa [pc] using kept.2⟩
  next => cases taken; exact ⟨timed, by rw [DeadlineFrom]; simpa [pc] using inv⟩
  next => simp at taken
  next => simp at taken

/-- If no VU calls before the start, the deadline counts from the start. -/
theorem deadlineFrom_of_reachableBy
    (run : (machine ι iterations (some D)).ReachableBy AfterStart s) :
    s.gate.duration = some D ∧ DeadlineFrom D s := by
  refine run.invariant (fun s => s.gate.duration = some D ∧ DeadlineFrom D s) ?_ ?_
  · rintro s ⟨clock, rfl⟩
    exact ⟨rfl, rfl⟩
  · rintro s a s' ⟨timed, inv⟩ after taken
    cases a with
    | tick => cases taken; exact ⟨timed, inv⟩
    | runner => exact deadlineFrom_runnerStep timed inv taken
    | vu i =>
      -- no VU moves before `start_at` has returned
      have returned : ∃ started, s.runner = .startReturned started := by
        cases pc : s.runner with
        | startReturned started => exact ⟨started, rfl⟩
        | _ => simp [AfterStart, pc] at after
      obtain ⟨started, pc⟩ := returned
      rw [DeadlineFrom, pc] at inv
      exact deadlineFrom_vuStep timed pc inv taken
    | failIteration i =>
      simp only [machine] at taken
      split at taken
      · cases taken; exact ⟨timed, inv⟩
      · simp at taken

end Deadline

/-! ### The exact budget -/

section Exact

variable [Fintype ι] {iterations duration : Option Nat} {s : State ι}

/-- At most `L` calls are granted, and exactly `L` once every VU has been refused, unless a
deadline cut the run short. -/
theorem granted_of_limit [Nonempty ι] {L : Nat} (limited : limit iterations duration = some L)
    (fits : L + Fintype.card ι ≤ 2 ^ 64) (run : (machine ι iterations duration).Reachable s) :
    s.granted.length ≤ L ∧
      (duration = none → (∀ i, s.vu i = .sawFalse) → s.granted.length = L) := by
  obtain ⟨drawn, budget⟩ := budget_of_reachable limited fits run
  have granted := budget.granted
  refine ⟨by omega, fun untimed refused => ?_⟩
  -- one refused VU is enough: the numbers below the limit have been handed out
  have all := budget.exhausted untimed ⟨Classical.arbitrary ι, refused _⟩
  omega

/-- Every interleaving of the VUs, the runner's `start_at` and the clock keeps the budget: at
most `N` calls return true, and exactly `N` once every VU has seen false, when only
`iterations = N` is set; exactly one when nothing is set; and in duration mode a call that
returns true read the clock before the deadline, which counts from the runner's start instant
when the VUs enter their loops after `start_at`. -/
theorem exact_iteration_budget [Nonempty ι] (run : (machine ι iterations duration).Reachable s) :
    (∀ N, iterations = some N → N + Fintype.card ι < 2 ^ 64 →
      s.granted.length ≤ N ∧
        (duration = none → (∀ i, s.vu i = .sawFalse) → s.granted.length = N)) ∧
    (iterations = none → duration = none → Fintype.card ι < 2 ^ 64 →
      s.granted.length ≤ 1 ∧ ((∀ i, s.vu i = .sawFalse) → s.granted.length = 1)) ∧
    (∀ D, duration = some D → ∀ call ∈ s.granted, ∃ now start, call.2 = some now ∧
      s.gate.deadline = some (start + D) ∧ now < start + D) ∧
    (∀ D, duration = some D → (machine ι iterations duration).ReachableBy AfterStart s →
      ∀ started, s.runner = .startReturned started →
        s.gate.deadline = some (started + D)) := by
  refine ⟨?_, ?_, ?_, ?_⟩
  · rintro N rfl fits
    exact granted_of_limit rfl (by omega) run
  -- without limits the gate behaves as with one iteration
  · rintro rfl rfl fits
    have bound := granted_of_limit rfl (by omega) run
    exact ⟨bound.1, bound.2 rfl⟩
  · rintro D rfl call member
    have inv := deadlineInv_of_reachable run
    -- a granted call read the clock before the deadline that the gate has now
    obtain ⟨now, read, deadline, set, before⟩ := inv.granted call member
    obtain ⟨start, rfl⟩ := inv.origin deadline set
    exact ⟨now, start, read, set, before⟩
  · rintro D rfl ordered started returned
    have from_ := (deadlineFrom_of_reachableBy ordered).2
    rwa [DeadlineFrom, returned] at from_

/-- Two VUs share a budget of two: each is granted once, then refused. -/
theorem exact_iteration_budget_two_vus :
    ∃ s : State (Fin 2), (machine (Fin 2) (some 2) none).Reachable s ∧
      (∀ i, s.vu i = .sawFalse) ∧ s.granted.length = 2 := by
  obtain ⟨s, run, refused⟩ := Machine.exists_reachableBy_of_exec
    (machine (Fin 2) (some 2) none) (fun _ _ => True)
    (fun s => ∀ i, s.vu i = .sawFalse)
    (s := ⟨.new (some 2) none, 0, .spawning, fun _ => .calling .enter, []⟩)
    ([.vu 0, .vu 1, .vu 1, .vu 0, .vu 0, .vu 0, .vu 0, .vu 1, .vu 1, .vu 1])
    ⟨0, rfl⟩ (by decide)
  exact ⟨s, run, refused,
    ((exact_iteration_budget run).1 2 rfl (by decide)).2 rfl refused⟩

end Exact

end Gate

end Wrkr.Core
