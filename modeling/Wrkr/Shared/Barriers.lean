import Mathlib.Data.Finset.Max
import Mathlib.Data.List.Nodup
import Wrkr.Lib.HashTable
import Wrkr.Lib.Machine
import Wrkr.Lib.Sync
import Wrkr.Lib.Tasks

/-!
# Barriers of the shared store

The tasks of a run meet at barriers that have names. The first `barrier_wait` with a name creates
the barrier and fixes the number of its parties; every other call has to ask for the same number.
The look-up is a locked section, and the arrival at the barrier and the return from it are steps
of their own, so a task can be preempted between any two of them.

`barrier_synchronizes` says that no call returns before its round has all its parties, and that
nothing else can hold it up. `common_barriers_pass` says that tasks which make the same calls, with
as many parties as there are tasks, get through all of them.
-/
namespace Wrkr.Shared

open Wrkr.Lib

/-- The errors of `SharedBarrierError`. -/
inductive SharedBarrierError
  | invalidParties
  | partiesMismatch (expected got : Nat)
  deriving DecidableEq, Repr

/-- An entry is never removed or replaced, so its barrier is named by the key. -/
structure BarrierEntry where
  parties : Nat
  barrier : Barrier
  deriving DecidableEq, Repr

/-- The part of `barrier_wait` up to the end of the locked section. -/
def takeBarrier (barriers : HashTable String BarrierEntry) (name : String) (parties : Nat) :
    Except SharedBarrierError (HashTable String BarrierEntry) :=
  if parties = 0 then .error .invalidParties
  else
    match barriers.get? name with
    | none => .ok (barriers.insert name ⟨parties, Barrier.new parties⟩)
    | some entry =>
      if entry.parties ≠ parties then .error (.partiesMismatch entry.parties parties)
      else .ok barriers

namespace Barriers

/-- Where a task is in its call of `barrier_wait`. -/
inductive Pc
  | idle
  /-- The clone of the barrier is held; `barrier.wait()` has not been polled. -/
  | arriving (name : String)
  | waiting (name : String) (wait : BarrierWait)
  deriving DecidableEq, Repr

/-- A task at a barrier, in one of its rounds. -/
structure Arrival (ι : Type) where
  task : ι
  name : String
  round : Nat
  deriving DecidableEq, Repr

/-- The barriers of the store, where every task is, and what has come of the calls so far. -/
structure State (ι : Type) where
  barriers : HashTable String BarrierEntry
  pc : ι → Pc
  /-- Every arrival so far. -/
  arrivals : List (Arrival ι)
  /-- The arrivals whose call has returned `Ok`. -/
  returned : List (Arrival ι)
  /-- The errors that calls have returned. -/
  refused : List SharedBarrierError

/-- A task calls `barrier_wait`, or goes on with its call. -/
inductive Action (ι : Type)
  | call (i : ι) (name : String) (parties : Nat)
  | step (i : ι)

variable {ι : Type} [DecidableEq ι]

/-- Only the position of task `i` changes. -/
def State.goto (s : State ι) (i : ι) (pc : Pc) : State ι :=
  { s with pc := Function.update s.pc i pc }

/-- The part of the call under the lock of the map: the barrier is found or made, or the call is
refused. -/
def callStep (s : State ι) (i : ι) (name : String) (parties : Nat) : State ι :=
  match takeBarrier s.barriers name parties with
  | .error e => { s with refused := s.refused ++ [e] }
  | .ok barriers => { s with barriers }.goto i (.arriving name)

/-- The first poll of `wait`: the arrival counts, and the task waits for its round, unless it is the
last one. -/
def arriveStep (s : State ι) (i : ι) (name : String) : Option (State ι) :=
  (s.barriers.get? name).map fun entry =>
    let (barrier, wait) := entry.barrier.arrive
    { s with
      barriers := s.barriers.insert name { entry with barrier }
      arrivals := s.arrivals ++ [Arrival.mk i name wait.generation] }.goto i (.waiting name wait)

/-- The poll that finds the round complete. -/
def returnStep (s : State ι) (i : ι) (name : String) (wait : BarrierWait) : Option (State ι) :=
  match s.barriers.get? name with
  | some entry =>
    if entry.barrier.Released wait then
      some ({ s with returned := s.returned ++ [Arrival.mk i name wait.generation] }.goto i .idle)
    else none
  | none => none

/-- Any number of tasks make any calls, one after the other. -/
def machine (ι : Type) [DecidableEq ι] : Machine (State ι) (Action ι) where
  init s := s = ⟨HashTable.empty, fun _ => .idle, [], [], []⟩
  step s
    | .call i name parties => if s.pc i = .idle then some (callStep s i name parties) else none
    | .step i =>
      match s.pc i with
      | .idle => none
      | .arriving name => arriveStep s i name
      | .waiting name wait => returnStep s i name wait

/-- The tasks that have arrived in a round, in their order. -/
def tasksIn (arrivals : List (Arrival ι)) (name : String) (round : Nat) : List ι :=
  (arrivals.filter fun a => a.name = name ∧ a.round = round).map Arrival.task

omit [DecidableEq ι] in
theorem tasksIn_snoc (arrivals : List (Arrival ι)) (a : Arrival ι) (name : String) (round : Nat) :
    tasksIn (arrivals ++ [a]) name round =
      tasksIn arrivals name round ++ if a.name = name ∧ a.round = round then [a.task] else [] := by
  rw [tasksIn, tasksIn, List.filter_append, List.map_append, List.filter_singleton]
  by_cases here : a.name = name ∧ a.round = round <;> simp [here]

omit [DecidableEq ι] in
theorem mem_tasksIn {arrivals : List (Arrival ι)} {name : String} {round : Nat} {i : ι} :
    i ∈ tasksIn arrivals name round ↔ ⟨i, name, round⟩ ∈ arrivals := by
  simp only [tasksIn, List.mem_map, List.mem_filter, decide_eq_true_eq]
  constructor
  · rintro ⟨a, ⟨member, rfl, rfl⟩, rfl⟩
    exact member
  · intro member
    exact ⟨_, ⟨member, rfl, rfl⟩, rfl⟩

omit [DecidableEq ι] in
/-- A task is in a round at most once. -/
theorem nodup_tasksIn {arrivals : List (Arrival ι)} (distinct : arrivals.Nodup) (name : String)
    (round : Nat) : (tasksIn arrivals name round).Nodup := by
  refine List.Nodup.map_on ?_ (distinct.filter _)
  rintro ⟨i, name, round⟩ first ⟨j, name', round'⟩ second same
  have here := of_decide_eq_true (List.mem_filter.mp first).2
  have there := of_decide_eq_true (List.mem_filter.mp second).2
  simp_all

/-! ### Invariant -/

/-- What holds between two steps, for each barrier: its size, how many have come in each round, and
that a task which waits is among them. -/
structure Inv (s : State ι) : Prop where
  sized : ∀ name entry, s.barriers.get? name = some entry → entry.barrier.parties = entry.parties
  rounds : ∀ name entry, s.barriers.get? name = some entry →
    entry.barrier.Rounds fun round => (tasksIn s.arrivals name round).length
  known : ∀ a ∈ s.arrivals, (s.barriers.get? a.name).isSome
  distinct : s.arrivals.Nodup
  arriving : ∀ i name, s.pc i = .arriving name → (s.barriers.get? name).isSome
  waiting : ∀ i name wait, s.pc i = .waiting name wait → ⟨i, name, wait.generation⟩ ∈ s.arrivals
  /-- A task stays where it is until its round is over. -/
  busy : ∀ a ∈ s.arrivals, ∀ entry, s.barriers.get? a.name = some entry →
    a.round = entry.barrier.generation → s.pc a.task = .waiting a.name ⟨a.round⟩
  returned : ∀ a ∈ s.returned, a ∈ s.arrivals ∧
    ∃ entry, s.barriers.get? a.name = some entry ∧ entry.barrier.Released ⟨a.round⟩

namespace Inv

variable {s : State ι} {i : ι} {name : String}

omit [DecidableEq ι] in
/-- Before a barrier exists nobody has arrived at it. -/
theorem tasksIn_absent (inv : Inv s) (absent : s.barriers.get? name = none) (round : Nat) :
    tasksIn s.arrivals name round = [] := by
  rw [List.eq_nil_iff_forall_not_mem]
  intro i member
  have known := inv.known _ (mem_tasksIn.mp member)
  rw [absent] at known
  cases known

omit [DecidableEq ι] in
/-- The first call with a name creates the barrier. -/
theorem create (inv : Inv s) (absent : s.barriers.get? name = none) {parties : Nat}
    (some : parties ≠ 0) :
    Inv { s with barriers := s.barriers.insert name ⟨parties, Barrier.new parties⟩ } := by
  have lookup (name' : String) {entry : BarrierEntry}
      (found : (s.barriers.insert name ⟨parties, Barrier.new parties⟩).get? name' = .some entry) :
      name' = name ∧ entry = ⟨parties, Barrier.new parties⟩ ∨
        s.barriers.get? name' = .some entry := by
    rw [HashTable.get?_insert] at found
    split at found
    next same => exact .inl ⟨same, (Option.some.inj found).symm⟩
    next => exact .inr found
  -- nobody is at the new barrier, and the others keep their entries
  have stays {name' : String} (known : (s.barriers.get? name').isSome) :
      (s.barriers.insert name ⟨parties, Barrier.new parties⟩).get? name' =
        s.barriers.get? name' := by
    apply HashTable.get?_insert_of_ne
    rintro rfl
    rw [absent] at known
    cases known
  constructor
  case sized =>
    intro name' entry found
    rcases lookup name' found with ⟨-, rfl⟩ | old
    · simp only [Barrier.new]
      omega
    · exact inv.sized name' entry old
  case rounds =>
    intro name' entry found
    rcases lookup name' found with ⟨rfl, rfl⟩ | old
    · have nobody : (fun round => (tasksIn s.arrivals name' round).length) = fun _ => 0 := by
        funext round
        rw [inv.tasksIn_absent absent, List.length_nil]
      exact nobody ▸ Barrier.rounds_new parties
    · exact inv.rounds name' entry old
  case known =>
    intro a member
    have known := inv.known a member
    rwa [stays known]
  case distinct => exact inv.distinct
  case arriving =>
    intro i name' pc
    have known := inv.arriving i name' pc
    rwa [stays known]
  case waiting => exact inv.waiting
  case busy =>
    intro a member entry found
    rw [stays (inv.known a member)] at found
    exact inv.busy a member entry found
  case returned =>
    intro a member
    obtain ⟨arrived, entry, found, released⟩ := inv.returned a member
    exact ⟨arrived, entry, (stays (inv.known a arrived)).trans found, released⟩

/-- An idle task goes to a barrier. -/
theorem enter (inv : Inv s) (idle : s.pc i = .idle) (known : (s.barriers.get? name).isSome) :
    Inv (s.goto i (.arriving name)) := by
  refine { inv with arriving := ?_, waiting := ?_, busy := ?_ }
  · intro j name' pc
    by_cases same : j = i
    · subst same
      have isName : name = name' := by simpa [State.goto] using pc
      exact isName ▸ known
    · exact inv.arriving j name' (by simpa [State.goto, same] using pc)
  · intro j name' wait pc
    by_cases same : j = i
    · subst same
      simp [State.goto] at pc
    · exact inv.waiting j name' wait (by simpa [State.goto, same] using pc)
  · intro a member entry found this
    have busy := inv.busy a member entry found this
    -- the idle task has no arrival in an open round
    have other : a.task ≠ i := by
      rintro rfl
      rw [idle] at busy
      cases busy
    simpa [State.goto, other] using busy

omit [DecidableEq ι] in
/-- Nobody is ahead of the round that is open. -/
theorem round_le (inv : Inv s) {a : Arrival ι} (member : a ∈ s.arrivals) {entry : BarrierEntry}
    (found : s.barriers.get? a.name = some entry) : a.round ≤ entry.barrier.generation := by
  by_contra ahead
  have nobody := (inv.rounds a.name entry found).later a.round (Nat.lt_of_not_le ahead)
  rw [List.length_eq_zero_iff] at nobody
  have here : a.task ∈ tasksIn s.arrivals a.name a.round := mem_tasksIn.mpr member
  rw [nobody] at here
  cases here

/-- An arrival in the round that is open. -/
theorem arrive (inv : Inv s) (pc : s.pc i = .arriving name) {entry : BarrierEntry}
    (found : s.barriers.get? name = some entry) :
    Inv ({ s with
      barriers := s.barriers.insert name { entry with barrier := entry.barrier.arrive.1 }
      arrivals := s.arrivals ++ [Arrival.mk i name entry.barrier.generation] }.goto i
        (.waiting name ⟨entry.barrier.generation⟩)) := by
  have lookup (name' : String) {entry' : BarrierEntry}
      (found' : (s.barriers.insert name { entry with barrier := entry.barrier.arrive.1 }).get? name' =
        some entry') :
      name' = name ∧ entry' = { entry with barrier := entry.barrier.arrive.1 } ∨
        name' ≠ name ∧ s.barriers.get? name' = some entry' := by
    rw [HashTable.get?_insert] at found'
    split at found'
    next same => exact .inl ⟨same, (Option.some.inj found').symm⟩
    next other => exact .inr ⟨other, found'⟩
  have known {name' : String} (old : (s.barriers.get? name').isSome) :
      ((s.barriers.insert name { entry with barrier := entry.barrier.arrive.1 }).get?
        name').isSome := by
    rw [HashTable.get?_insert]
    split
    · rfl
    · exact old
  constructor
  case sized =>
    intro name' entry' found'
    rcases lookup name' found' with ⟨rfl, rfl⟩ | ⟨-, old⟩
    · exact (Barrier.arrive_parties _).trans (inv.sized name' entry found)
    · exact inv.sized name' entry' old
  case rounds =>
    intro name' entry' found'
    rcases lookup name' found' with ⟨rfl, rfl⟩ | ⟨other, old⟩
    -- at this barrier the open round gets one more, at any other nothing changes
    · have counted : (fun round => (tasksIn (s.arrivals ++
          [Arrival.mk i name' entry.barrier.generation]) name' round).length) =
          fun round => (tasksIn s.arrivals name' round).length +
            if round = entry.barrier.generation then 1 else 0 := by
        funext round
        rw [tasksIn_snoc, List.length_append]
        by_cases this : round = entry.barrier.generation
        · simp [this]
        · simp [this, Ne.symm this]
      exact counted ▸ (inv.rounds name' entry found).arrive
    · have counted : (fun round => (tasksIn (s.arrivals ++
          [Arrival.mk i name entry.barrier.generation]) name' round).length) =
          fun round => (tasksIn s.arrivals name' round).length := by
        funext round
        rw [tasksIn_snoc, if_neg fun here => other here.1.symm, List.append_nil]
      exact counted ▸ inv.rounds name' entry' old
  case known =>
    intro a member
    rcases List.mem_append.mp member with old | new
    · exact known (inv.known a old)
    · rw [List.mem_singleton.mp new]
      exact known (by rw [found]; rfl)
  case distinct =>
    refine List.nodup_append.mpr ⟨inv.distinct, List.nodup_singleton _, ?_⟩
    rintro a old _ new rfl
    rw [List.mem_singleton] at new
    subst new
    -- it would be waiting there
    have busy := inv.busy _ old entry found rfl
    rw [pc] at busy
    cases busy
  case arriving =>
    intro j name' pc'
    by_cases same : j = i
    · subst same
      simp [State.goto] at pc'
    · exact known (inv.arriving j name' (by simpa [State.goto, same] using pc'))
  case waiting =>
    intro j name' wait pc'
    by_cases same : j = i
    · subst same
      obtain ⟨rfl, rfl⟩ : name = name' ∧ ⟨entry.barrier.generation⟩ = wait := by
        simpa [State.goto] using pc'
      exact List.mem_append_right _ (List.mem_singleton_self _)
    · exact List.mem_append_left _
        (inv.waiting j name' wait (by simpa [State.goto, same] using pc'))
  case busy =>
    intro a member entry' found' this
    rcases List.mem_append.mp member with old | new
    · have still : s.pc a.task = .waiting a.name ⟨a.round⟩ := by
        rcases lookup a.name found' with ⟨isName, rfl⟩ | ⟨-, old'⟩
        · rw [← isName] at found
          refine inv.busy a old entry found (Nat.le_antisymm (inv.round_le old found) ?_)
          exact this ▸ Barrier.generation_le_arrive _
        · exact inv.busy a old entry' old' this
      have other : a.task ≠ i := by
        intro same
        rw [same, pc] at still
        cases still
      simpa [State.goto, other] using still
    · rw [List.mem_singleton.mp new]
      simp [State.goto]
  case returned =>
    intro a member
    obtain ⟨arrived, entry', found', released⟩ := inv.returned a member
    refine ⟨List.mem_append_left _ arrived, ?_⟩
    by_cases same : a.name = name
    · rw [same, found] at found'
      cases found'
      exact ⟨_, by rw [same]; exact HashTable.get?_insert_self .., released.arrive⟩
    · exact ⟨entry', (HashTable.get?_insert_of_ne _ _ same).trans found', released⟩

/-- A return once the round is over. -/
theorem release (inv : Inv s) {wait : BarrierWait} (pc : s.pc i = .waiting name wait)
    {entry : BarrierEntry} (found : s.barriers.get? name = some entry)
    (released : entry.barrier.Released wait) :
    Inv ({ s with returned := s.returned ++ [Arrival.mk i name wait.generation] }.goto i .idle) := by
  have arrived := inv.waiting i name wait pc
  refine { inv with arriving := ?_, waiting := ?_, busy := ?_, returned := ?_ }
  · intro j name' pc'
    by_cases same : j = i
    · subst same
      simp [State.goto] at pc'
    · exact inv.arriving j name' (by simpa [State.goto, same] using pc')
  · intro j name' wait' pc'
    by_cases same : j = i
    · subst same
      simp [State.goto] at pc'
    · exact inv.waiting j name' wait' (by simpa [State.goto, same] using pc')
  · intro a member entry' found' this
    have still := inv.busy a member entry' found' this
    have other : a.task ≠ i := by
      -- the round of this task is over
      intro same
      rw [same, pc] at still
      obtain ⟨isName, isRound⟩ : name = a.name ∧ wait = ⟨a.round⟩ := by simpa using still
      change s.barriers.get? a.name = some entry' at found'
      rw [← isName, found] at found'
      cases found'
      rw [isRound, Barrier.Released, this] at released
      exact absurd released (Nat.lt_irrefl _)
    simpa [State.goto, other] using still
  · intro a member
    rcases List.mem_append.mp member with old | new
    · exact inv.returned a old
    · rw [List.mem_singleton.mp new]
      exact ⟨arrived, entry, found, released⟩

end Inv

/-- Every step keeps the invariant, whatever tasks are at other barriers. -/
theorem inv_step (s : State ι) (a : Action ι) (s' : State ι) (inv : Inv s)
    (taken : (machine ι).step s a = some s') : Inv s' := by
  cases a with
  | call i name parties =>
    simp only [machine] at taken
    split at taken
    next idle =>
      rw [← Option.some.inj taken, callStep, takeBarrier]
      split_ifs with none
      · exact { inv with }
      · split
        next e refused =>
          exact { inv with }
        -- the barrier is created by this call, or was there with the same number of parties
        next barriers called =>
          split at called
          next absent =>
            cases called
            refine (inv.create absent none).enter idle ?_
            dsimp only
            rw [HashTable.get?_insert_self]
            rfl
          next entry found =>
            split_ifs at called with same
            cases called
            exact inv.enter idle (by rw [found]; rfl)
    next => cases taken
  | step i =>
    simp only [machine] at taken
    split at taken
    next => cases taken
    next name pc =>
      rw [arriveStep] at taken
      obtain ⟨entry, found, rfl⟩ := Option.map_eq_some_iff.mp taken
      exact inv.arrive pc found
    next name wait pc =>
      rw [returnStep] at taken
      split at taken
      next entry found =>
        split_ifs at taken with released
        cases taken
        exact inv.release pc found released
      next => cases taken

theorem inv_reachable {s : State ι} (run : (machine ι).Reachable s) : Inv s := by
  refine run.invariant Inv ?_ inv_step
  rintro _ rfl
  constructor <;> simp

/-! ### Rounds -/

/-- An entry stays, with the parties it was created for. -/
theorem parties_kept {s s' : State ι} {a : Action ι} (taken : (machine ι).step s a = some s')
    {name : String} {entry : BarrierEntry} (found : s.barriers.get? name = some entry) :
    ∃ entry', s'.barriers.get? name = some entry' ∧ entry'.parties = entry.parties := by
  cases a with
  | call i name' parties =>
    simp only [machine] at taken
    split_ifs at taken
    rw [← Option.some.inj taken, callStep, takeBarrier]
    split_ifs
    · exact ⟨entry, found, rfl⟩
    · split
      next => exact ⟨entry, found, rfl⟩
      next barriers called =>
        split at called
        -- another name: this one has an entry
        next absent =>
          cases called
          refine ⟨entry, ?_, rfl⟩
          have other : name ≠ name' := by
            rintro rfl
            rw [absent] at found
            cases found
          exact (HashTable.get?_insert_of_ne _ _ other).trans found
        next there =>
          split_ifs at called
          cases called
          exact ⟨entry, found, rfl⟩
  | step i =>
    simp only [machine] at taken
    split at taken
    next => cases taken
    next name' pc =>
      rw [arriveStep] at taken
      obtain ⟨there, found', rfl⟩ := Option.map_eq_some_iff.mp taken
      by_cases same : name = name'
      -- an arrival changes the barrier inside of the entry, not its parties
      · subst same
        rw [found] at found'
        cases found'
        exact ⟨_, HashTable.get?_insert_self .., rfl⟩
      · exact ⟨entry, (HashTable.get?_insert_of_ne _ _ same).trans found, rfl⟩
    next name' wait pc =>
      rw [returnStep] at taken
      split at taken
      next =>
        split_ifs at taken
        cases taken
        exact ⟨entry, found, rfl⟩
      next => cases taken

/-- The round has its parties: as many tasks have arrived, no two of them the same. -/
structure Complete (s : State ι) (name : String) (round : Nat) (entry : BarrierEntry) : Prop where
  found : s.barriers.get? name = some entry
  distinct : (tasksIn s.arrivals name round).Nodup
  full : (tasksIn s.arrivals name round).length = entry.parties

omit [DecidableEq ι] in
theorem Inv.released_iff {s : State ι} (inv : Inv s) {name : String} {entry : BarrierEntry}
    (found : s.barriers.get? name = some entry) (wait : BarrierWait) :
    entry.barrier.Released wait ↔ Complete s name wait.generation entry := by
  rw [(inv.rounds name entry found).released_iff, inv.sized name entry found]
  exact ⟨fun full => ⟨found, nodup_tasksIn inv.distinct name _, full⟩, fun round => round.full⟩

/-- In every run: a call that has returned was one of a complete round; a waiting task can go on as
soon as its round is complete and not before; and whoever comes later finds the barrier with the
parties it was created for, which are never none. -/
theorem barrier_synchronizes {s : State ι} (run : (machine ι).Reachable s) :
    (∀ a ∈ s.returned, a.task ∈ tasksIn s.arrivals a.name a.round ∧
      ∃ entry, Complete s a.name a.round entry) ∧
    (∀ i name wait, s.pc i = .waiting name wait →
      (((machine ι).step s (.step i)).isSome ↔ ∃ entry, Complete s name wait.generation entry)) ∧
    (∀ name entry, s.barriers.get? name = some entry → 0 < entry.parties ∧
      ∀ a s', (machine ι).step s a = some s' →
        ∃ entry', s'.barriers.get? name = some entry' ∧ entry'.parties = entry.parties) := by
  have inv := inv_reachable run
  refine ⟨?_, ?_, ?_⟩
  · intro a member
    obtain ⟨arrived, entry, found, released⟩ := inv.returned a member
    exact ⟨mem_tasksIn.mpr arrived, entry, (inv.released_iff found _).mp released⟩
  -- the barrier lets a task go exactly when the round it has come in is full
  · intro i name wait pc
    obtain ⟨entry, found⟩ := Option.isSome_iff_exists.mp
      (inv.known _ (inv.waiting i name wait pc))
    dsimp only at found
    simp only [machine, pc, returnStep, found]
    constructor
    · intro enabled
      split_ifs at enabled with released
      · exact ⟨entry, (inv.released_iff found wait).mp released⟩
      · cases enabled
    · rintro ⟨entry', round⟩
      have same := found.symm.trans round.found
      cases same
      rw [if_pos ((inv.released_iff found wait).mpr round)]
      rfl
  · intro name entry found
    refine ⟨?_, fun a s' taken => parties_kept taken found⟩
    have short := (inv.rounds name entry found).short
    rw [inv.sized name entry found] at short
    exact Nat.zero_lt_of_lt short

/-- Three tasks at a barrier for two: the first two have met, the third waits for a fourth call. -/
theorem barrier_synchronizes_threeTasks :
    ∃ s : State (Fin 3), s.returned = [⟨1, "b", 0⟩] ∧ s.pc 2 = .waiting "b" ⟨1⟩ ∧
      (∃ entry, Complete s "b" 0 entry) ∧ (machine (Fin 3)).step s (.step 2) = none := by
  obtain ⟨s, run, checked⟩ := (machine (Fin 3)).exists_reachableBy_of_exec (fun _ _ => True)
    (fun s => s.returned = [⟨1, "b", 0⟩] ∧ s.pc 2 = .waiting "b" ⟨1⟩ ∧
      tasksIn s.arrivals "b" 1 = [2] ∧ (s.barriers.get? "b").map BarrierEntry.parties = some 2)
    [.call 0 "b" 2, .call 1 "b" 2, .step 0, .call 2 "b" 2, .step 1, .step 1, .step 2] rfl
    (by decide)
  obtain ⟨returned, pc, alone, two⟩ := checked
  obtain ⟨calls, waits, -⟩ := barrier_synchronizes run
  obtain ⟨-, entry, round⟩ := calls ⟨1, "b", 0⟩ (by rw [returned]; exact List.mem_singleton_self _)
  refine ⟨s, returned, pc, ⟨entry, round⟩, ?_⟩
  rw [← Option.not_isSome_iff_eq_none, waits 2 "b" ⟨1⟩ pc]
  rintro ⟨entry', round'⟩
  have full := round'.full
  rw [round'.found] at two
  rw [alone, Option.some.inj two] at full
  cases full

end Barriers

/-! ### Tasks with common barriers -/

namespace CommonBarriers

open Barriers

variable {ι : Type} [Fintype ι] [DecidableEq ι]

/-- `next i` counts the calls that task `i` has begun. -/
structure State (ι : Type) where
  store : Barriers.State ι
  next : ι → Nat

/-- The task calls the next barrier of its list, with the number of tasks as the size. -/
def callNext (names : List String) (s : State ι) (i : ι) : Option (State ι) :=
  names[s.next i]?.map fun name =>
    ⟨callStep s.store i name (Fintype.card ι), Function.update s.next i (s.next i + 1)⟩

/-- Each task makes the calls `names` in their order, all of them for as many parties as there are
tasks. -/
def machine (ι : Type) [Fintype ι] [DecidableEq ι] (names : List String) :
    Machine (State ι) ι where
  init s := s = ⟨⟨HashTable.empty, fun _ => .idle, [], [], []⟩, fun _ => 0⟩
  step s i :=
    match s.store.pc i with
    | .idle => callNext names s i
    | .arriving name => (arriveStep s.store i name).map fun store => { s with store }
    | .waiting name wait => (returnStep s.store i name wait).map fun store => { s with store }

/-- The calls of a task that have got as far as the barrier. -/
def passed (pc : Pc) (next : Nat) : Nat :=
  match pc with
  | .arriving _ => next - 1
  | .idle | .waiting .. => next

/-- How often a task has been at a barrier. -/
def visits (names : List String) (s : State ι) (i : ι) (name : String) : Nat :=
  (names.take (passed (s.store.pc i) (s.next i))).count name

/-- In a run along one list of names: how far each task is, and that nobody is ahead of a round that
is not complete. -/
structure Inv (names : List String) (s : State ι) : Prop where
  store : Barriers.Inv s.store
  common : ∀ name entry, s.store.barriers.get? name = some entry → entry.parties = Fintype.card ι
  bounded : ∀ i, s.next i ≤ names.length
  arriving : ∀ i name, s.store.pc i = .arriving name →
    ∃ k, s.next i = k + 1 ∧ names[k]? = some name
  /-- At each barrier a task goes through the rounds one after the other. -/
  inOrder : ∀ i name round,
    ⟨i, name, round⟩ ∈ s.store.arrivals ↔ round < visits names s i name
  welcome : s.store.refused = []

/-- Every call has returned `Ok`. -/
def Finished (names : List String) (s : State ι) : Prop :=
  s.store.refused = [] ∧ ∀ i, s.store.pc i = .idle ∧ s.next i = names.length

/-- The steps that a task has still to make. -/
def cost (names : List String) (pc : Pc) (next : Nat) : Nat :=
  3 * (names.length - next) +
    match pc with
    | .idle => 0
    | .arriving _ => 2
    | .waiting .. => 1

/-- The steps that all tasks together have left. -/
def rank (names : List String) (s : State ι) : Nat :=
  ∑ i, cost names (s.store.pc i) (s.next i)

variable {names : List String} {s s' : State ι}

omit [DecidableEq ι] in
theorem rank_lt {i : ι} (others : ∀ j, j ≠ i → s'.store.pc j = s.store.pc j ∧ s'.next j = s.next j)
    (less : cost names (s'.store.pc i) (s'.next i) < cost names (s.store.pc i) (s.next i)) :
    rank names s' < rank names s := by
  refine Finset.sum_lt_sum (fun j _ => ?_) ⟨i, Finset.mem_univ i, less⟩
  by_cases same : j = i
  · rw [same]
    exact Nat.le_of_lt less
  · obtain ⟨pc, next⟩ := others j same
    rw [pc, next]

/-! A round is complete exactly when everyone is in it. -/

/-- A round is complete when every task has arrived in it. -/
theorem complete_iff (inv : Inv names s) {name : String} {entry : BarrierEntry}
    (found : s.store.barriers.get? name = some entry) (round : Nat) :
    Complete s.store name round entry ↔ ∀ i, ⟨i, name, round⟩ ∈ s.store.arrivals := by
  have distinct := nodup_tasksIn inv.store.distinct name round
  constructor
  · intro complete i
    -- as many different tasks as there are parties, and all tasks are parties
    have everyone : (tasksIn s.store.arrivals name round).toFinset = Finset.univ := by
      apply Finset.eq_univ_of_card
      rw [List.toFinset_card_of_nodup distinct, complete.full, inv.common name entry found]
    rw [← mem_tasksIn, ← List.mem_toFinset, everyone]
    exact Finset.mem_univ i
  · intro everyone
    have all : (tasksIn s.store.arrivals name round).toFinset = Finset.univ := by
      rw [Finset.eq_univ_iff_forall]
      exact fun i => List.mem_toFinset.mpr (mem_tasksIn.mpr (everyone i))
    refine ⟨found, distinct, ?_⟩
    rw [← List.toFinset_card_of_nodup distinct, all, Finset.card_univ, inv.common name entry found]

/-- A task on its way to a barrier gets into the round after those it has been in. -/
theorem generation_eq_visits (inv : Inv names s) {i : ι} {name : String}
    (pc : s.store.pc i = .arriving name) {entry : BarrierEntry}
    (found : s.store.barriers.get? name = some entry) :
    entry.barrier.generation = visits names s i name := by
  apply Nat.le_antisymm
  · apply Nat.le_of_not_lt
    intro behind
    -- the round it would be missing from is over
    have complete := (inv.store.released_iff found ⟨visits names s i name⟩).mp behind
    have been := (complete_iff inv found _).mp complete i
    rw [inv.inOrder] at been
    exact Nat.lt_irrefl _ been
  · apply Nat.le_of_not_lt
    intro ahead
    have busy := inv.store.busy _ ((inv.inOrder i name _).mpr ahead) entry found rfl
    rw [pc] at busy
    cases busy

namespace Inv

variable {i : ι} {name : String}

omit [DecidableEq ι] in
/-- A call finds its barrier, or creates it, and is not refused. -/
theorem take (inv : Inv names s) (i : ι) (name : String) :
    ∃ barriers, takeBarrier s.store.barriers name (Fintype.card ι) = .ok barriers ∧
      ∀ name' entry, barriers.get? name' = some entry → entry.parties = Fintype.card ι := by
  -- a barrier for no party would be refused
  have nonempty : Fintype.card ι ≠ 0 := (Fintype.card_pos_iff.mpr ⟨i⟩).ne'
  rw [takeBarrier, if_neg nonempty]
  split
  next absent =>
    refine ⟨_, rfl, ?_⟩
    intro name' entry found
    rw [HashTable.get?_insert] at found
    split at found
    next => rw [← Option.some.inj found]
    next => exact inv.common name' entry found
  next entry found =>
    rw [if_neg (fun other => other (inv.common name entry found))]
    exact ⟨_, rfl, inv.common⟩

/-- A task calls the next barrier. -/
theorem call (inv : Inv names s) (idle : s.store.pc i = .idle)
    (called : names[s.next i]? = some name) :
    Inv names ⟨callStep s.store i name (Fintype.card ι),
      Function.update s.next i (s.next i + 1)⟩ := by
  obtain ⟨barriers, taken, common⟩ := inv.take i name
  have entered : callStep s.store i name (Fintype.card ι) =
      { s.store with barriers }.goto i (.arriving name) := by
    rw [callStep, taken]
  have store : Barriers.Inv (callStep s.store i name (Fintype.card ι)) :=
    inv_step s.store (.call i name (Fintype.card ι)) _ inv.store (if_pos idle)
  rw [entered] at store ⊢
  have inside : s.next i < names.length := (List.getElem?_eq_some_iff.mp called).1
  refine ⟨store, common, ?_, ?_, ?_, inv.welcome⟩
  · intro j
    by_cases same : j = i
    · subst same
      simpa using Nat.succ_le_of_lt inside
    · simpa [same] using inv.bounded j
  · intro j name' pc
    by_cases same : j = i
    · subst same
      obtain rfl : name = name' := by simpa [State.goto] using pc
      exact ⟨s.next j, by simp, called⟩
    · simpa [same] using inv.arriving j name' (by simpa [State.goto, same] using pc)
  · intro j name' round
    rw [visits]
    by_cases same : j = i
    · subst same
      -- it has not been at the barrier yet
      simpa [State.goto, passed, visits, idle] using inv.inOrder j name' round
    · simpa [State.goto, same, visits] using inv.inOrder j name' round

/-- A task arrives at a barrier, in the round that its own progress says. -/
theorem arrive (inv : Inv names s) (pc : s.store.pc i = .arriving name) {store : Barriers.State ι}
    (taken : arriveStep s.store i name = some store) : Inv names { s with store } := by
  have kept : Barriers.Inv store :=
    inv_step s.store (.step i) store inv.store (by simpa [Barriers.machine, pc] using taken)
  rw [arriveStep] at taken
  obtain ⟨entry, found, rfl⟩ := Option.map_eq_some_iff.mp taken
  -- the round that is open here is the number of times that this task was at the barrier before
  have generation := generation_eq_visits inv pc found
  obtain ⟨k, isNext, isName⟩ := inv.arriving i name pc
  refine ⟨kept, ?_, inv.bounded, ?_, ?_, inv.welcome⟩
  · intro name' entry' found'
    change (s.store.barriers.insert name _).get? name' = some entry' at found'
    rw [HashTable.get?_insert] at found'
    split at found'
    next => rw [← Option.some.inj found', inv.common name entry found]
    next => exact inv.common name' entry' found'
  · intro j name' pc'
    by_cases same : j = i
    · subst same
      simp [State.goto] at pc'
    · exact inv.arriving j name' (by simpa [State.goto, same] using pc')
  · intro j name' round
    have before := inv.inOrder j name' round
    by_cases same : j = i
    · subst same
      have now : visits names s j name' = (names.take k).count name' := by
        simp [visits, passed, pc, isNext]
      have after : (names.take (passed (.waiting name entry.barrier.arrive.2) (s.next j))).count
          name' = visits names s j name' + if name = name' then 1 else 0 := by
        rw [passed, isNext, now, List.take_add_one, isName, Option.toList_some, List.count_append,
          List.count_singleton]
        simp
      -- its rounds at this barrier were 0, 1, .. up to there, and now the next one
      have arrived : ⟨j, name', round⟩ ∈ s.store.arrivals ++
            [Arrival.mk j name entry.barrier.arrive.2.generation] ↔
          round < visits names s j name' + if name = name' then 1 else 0 := by
        rw [List.mem_append, before, List.mem_singleton]
        change _ ∨ _ = Arrival.mk j name entry.barrier.generation ↔ _
        rw [generation]
        by_cases here : name = name'
        · subst here
          simp only [Arrival.mk.injEq, true_and, if_true]
          omega
        · have there : name' ≠ name := Ne.symm here
          simp [here, there]
      simpa [visits, State.goto, after] using arrived
    · simpa [State.goto, same, visits] using before

/-- A task goes through a barrier whose round is complete. -/
theorem returns (inv : Inv names s) {wait : BarrierWait} (pc : s.store.pc i = .waiting name wait)
    {store : Barriers.State ι} (taken : returnStep s.store i name wait = some store) :
    Inv names { s with store } := by
  have kept : Barriers.Inv store :=
    inv_step s.store (.step i) store inv.store (by simpa [Barriers.machine, pc] using taken)
  rw [returnStep] at taken
  split at taken
  next entry found =>
    -- a task that is not released stays where it is
    split_ifs at taken with released
    cases taken
    refine ⟨kept, inv.common, inv.bounded, ?_, ?_, inv.welcome⟩
    · intro j name' pc'
      by_cases same : j = i
      · subst same
        simp [State.goto] at pc'
      · exact inv.arriving j name' (by simpa [State.goto, same] using pc')
    · intro j name' round
      have before := inv.inOrder j name' round
      by_cases same : j = i
      · subst same
        simpa [State.goto, visits, passed, pc] using before
      · simpa [State.goto, same, visits] using before
  next => cases taken

end Inv

/-- Every step of such a run keeps the invariant. -/
theorem inv_step (s : State ι) (i : ι) (s' : State ι) (inv : Inv names s)
    (taken : (machine ι names).step s i = some s') : Inv names s' := by
  simp only [machine] at taken
  split at taken
  next idle =>
    obtain ⟨name, called, rfl⟩ := Option.map_eq_some_iff.mp taken
    exact inv.call idle called
  next name pc =>
    obtain ⟨store, arrived, rfl⟩ := Option.map_eq_some_iff.mp taken
    exact inv.arrive pc arrived
  next name wait pc =>
    obtain ⟨store, returned, rfl⟩ := Option.map_eq_some_iff.mp taken
    exact inv.returns pc returned

theorem inv_init (s : State ι) (start : (machine ι names).init s) : Inv names s := by
  obtain rfl : s = _ := start
  refine ⟨inv_reachable (.init rfl), ?_, ?_, ?_, ?_, rfl⟩ <;> simp [visits, passed]

omit [DecidableEq ι] in
/-- Of the tasks inside a call, look at one that has made the fewest: nobody is behind it. -/
theorem exists_least (busy : ∃ i, s.store.pc i ≠ .idle) :
    ∃ i, s.store.pc i ≠ .idle ∧ ∀ j, s.store.pc j ≠ .idle → s.next i ≤ s.next j := by
  obtain ⟨j, isBusy⟩ := busy
  obtain ⟨i, member, least⟩ := Finset.exists_min_image
    (Finset.univ.filter fun i => s.store.pc i ≠ .idle) s.next ⟨j, by simpa using isBusy⟩
  refine ⟨i, by simpa using member, ?_⟩
  intro j isBusy
  exact least j (by simpa using isBusy)

/-- When every task is waiting or through, a task that has made the fewest calls can return. -/
theorem released_of_least (inv : Inv names s)
    (parked : ∀ j, (s.store.pc j = .idle ∧ s.next j = names.length) ∨
      ∃ name wait, s.store.pc j = .waiting name wait)
    {i : ι} {name : String} {wait : BarrierWait} (pc : s.store.pc i = .waiting name wait)
    (least : ∀ j, s.store.pc j ≠ .idle → s.next i ≤ s.next j) {entry : BarrierEntry}
    (found : s.store.barriers.get? name = some entry) : entry.barrier.Released wait := by
  rw [inv.store.released_iff found, complete_iff inv found]
  have here := (inv.inOrder i name _).mp (inv.store.waiting i name wait pc)
  intro j
  rw [inv.inOrder]
  -- everybody is at least as far in the common list, so everybody has been at this barrier as often
  have ahead : passed (s.store.pc i) (s.next i) ≤ passed (s.store.pc j) (s.next j) := by
    rw [pc]
    rcases parked j with ⟨idle, through⟩ | ⟨name', wait', waiting⟩
    · rw [idle]
      exact through ▸ inv.bounded i
    · have busy := least j (by simp [waiting])
      rwa [waiting]
  calc wait.generation < visits names s i name := here
    _ ≤ visits names s j name := (List.take_sublist_take_left ahead).count_le name

/-- No deadlock: of the tasks that are least far, one can go on. -/
theorem enabled (inv : Inv names s) (unfinished : ¬ Finished names s) :
    ∃ i s', (machine ι names).step s i = some s' := by
  -- if no step is possible, all tasks wait or are through, and one that is least far has a complete
  -- round
  by_contra stuck
  have blocked (i : ι) : (machine ι names).step s i = none := by
    rw [Option.eq_none_iff_forall_ne_some]
    exact fun s' taken => stuck ⟨i, s', taken⟩
  have parked (j : ι) : (s.store.pc j = .idle ∧ s.next j = names.length) ∨
      ∃ name wait, s.store.pc j = .waiting name wait := by
    have none := blocked j
    cases pc : s.store.pc j with
    | idle =>
      refine .inl ⟨rfl, ?_⟩
      simp only [machine, pc, callNext, Option.map_eq_none_iff, List.getElem?_eq_none_iff] at none
      exact Nat.le_antisymm (inv.bounded j) none
    | arriving name =>
      have known := inv.store.arriving j name pc
      simp only [machine, pc, arriveStep, Option.map_eq_none_iff] at none
      rw [none] at known
      cases known
    | waiting name wait => exact .inr ⟨name, wait, rfl⟩
  have busy : ∃ i, s.store.pc i ≠ .idle := by
    by_contra idle
    refine unfinished ⟨inv.welcome, fun j => ?_⟩
    rcases parked j with through | ⟨name, wait, waiting⟩
    · exact through
    · exact absurd ⟨j, by simp [waiting]⟩ idle
  obtain ⟨i, isBusy, least⟩ := exists_least busy
  rcases parked i with ⟨idle, -⟩ | ⟨name, wait, pc⟩
  · exact isBusy idle
  · have known := inv.store.known _ (inv.store.waiting i name wait pc)
    obtain ⟨entry, found⟩ := Option.isSome_iff_exists.mp known
    have released := released_of_least inv parked pc least found
    have none := blocked i
    dsimp only at found
    simp [machine, pc, returnStep, found, released] at none

/-- Every step makes what is left smaller, so a run cannot go on for ever. -/
theorem rank_step (inv : Inv names s) {i : ι}
    (taken : (machine ι names).step s i = some s') : rank names s' < rank names s := by
  simp only [machine] at taken
  split at taken
  next idle =>
    obtain ⟨name, called, rfl⟩ := Option.map_eq_some_iff.mp taken
    obtain ⟨barriers, entered, -⟩ := inv.take i name
    have inside : s.next i < names.length := (List.getElem?_eq_some_iff.mp called).1
    refine rank_lt (fun j other => ?_) (i := i) ?_
    · simp [callStep, entered, State.goto, other]
    · simp only [callStep, entered, State.goto, Function.update_self, idle, cost]
      omega
  next name pc =>
    obtain ⟨store, arrived, rfl⟩ := Option.map_eq_some_iff.mp taken
    obtain ⟨entry, -, rfl⟩ := Option.map_eq_some_iff.mp arrived
    refine rank_lt (fun j other => ?_) (i := i) ?_
    · simp [State.goto, other]
    · simp [State.goto, pc, cost]
  -- a call costs three steps, of which each move takes one
  next name wait pc =>
    obtain ⟨store, returned, rfl⟩ := Option.map_eq_some_iff.mp taken
    rw [returnStep] at returned
    split at returned
    next =>
      split_ifs at returned
      cases returned
      refine rank_lt (fun j other => ?_) (i := i) ?_
      · simp [State.goto, other]
      · simp [State.goto, pc, cost]
    next => cases returned

/-- However their steps interleave, tasks that make the same calls get through all of them: none
is refused, and no two tasks ever wait for each other at different barriers. -/
theorem common_barriers_pass {s : State ι} (run : (machine ι names).Reachable s) :
    (machine ι names).Inevitable (Finished names) s := by
  refine Machine.inevitable_of_rank (Inv names) (Finished names) (rank names) inv_step
    (fun _ _ done => done) (fun _ inv unfinished => enabled inv unfinished)
    (fun _ _ _ inv _ taken => rank_step inv taken) ?_
  exact run.invariant (Inv names) inv_init inv_step

theorem common_barriers_pass_twoTasks :
    (machine (Fin 2) ["begin", "done", "begin"]).Inevitable (Finished ["begin", "done", "begin"])
      ⟨⟨HashTable.empty, fun _ => .idle, [], [], []⟩, fun _ => 0⟩ :=
  common_barriers_pass (.init rfl)

end CommonBarriers

end Wrkr.Shared
