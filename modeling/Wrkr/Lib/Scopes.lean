import Mathlib.Algebra.GroupWithZero.Nat
import Mathlib.Algebra.Order.Group.Nat
import Wrkr.Lib.Machine
import Wrkr.Lib.Tasks

/-!
# Scopes kept in a register

A program performs actions inside scopes, each with a label. Read off the text of the program, an
action belongs to the innermost scope around it (`Prog.trace`). A task that runs the program does
not see its text: it has one register, which entering a scope overwrites and leaving the scope puts
back, whether the body has ended or has raised an error.

`Lexical` says that both agree, in every interleaving of tasks that act on a shared state: what a
task has performed, and under which labels, is a beginning of the trace of its program.
-/
namespace Wrkr.Lib.Scopes

variable {ι α ℓ σ : Type}

/-! ### Programs -/

inductive Prog (α ℓ : Type)
  | done
  | raise
  | act (a : α) (next : Prog α ℓ)
  | scope (label : ℓ) (body next : Prog α ℓ)
  /-- The handler follows a body that raises an error, `next` any other. -/
  | attempt (body next handler : Prog α ℓ)
  deriving DecidableEq, Repr

namespace Prog

/-- The program ends without an error. -/
def succeeds : Prog α ℓ → Bool
  | done => true
  | raise => false
  | act _ next => next.succeeds
  | scope _ body next => body.succeeds && next.succeeds
  | attempt body next handler => if body.succeeds then next.succeeds else handler.succeeds

/-- The actions in their order, each with the label of the innermost scope around it. -/
def trace (label : ℓ) : Prog α ℓ → List (α × ℓ)
  | done | raise => []
  | act a next => (a, label) :: next.trace label
  | scope inner body next =>
    body.trace inner ++ if body.succeeds then next.trace label else []
  | attempt body next handler =>
    body.trace label ++ if body.succeeds then next.trace label else handler.trace label

def size : Prog α ℓ → Nat
  | done | raise => 1
  | act _ next => next.size + 1
  | scope _ body next => body.size + next.size + 2
  | attempt body next handler => body.size + next.size + handler.size + 2

end Prog

/-! ### Tasks -/

/-- What follows when the program at hand has ended. -/
inductive Frame (α ℓ : Type)
  | restore (label : ℓ) (next : Prog α ℓ)
  | caught (next handler : Prog α ℓ)

structure Task (α ℓ : Type) where
  prog : Prog α ℓ
  frames : List (Frame α ℓ)
  register : ℓ

namespace Task

def start (prog : Prog α ℓ) (label : ℓ) : Task α ℓ := ⟨prog, [], label⟩

/-- The action that the next step performs. -/
def performs (t : Task α ℓ) : Option α :=
  match t.prog with
  | .act a _ => some a
  | _ => none

def step : Task α ℓ → Option (Task α ℓ)
  | ⟨.act _ next, frames, label⟩ => some ⟨next, frames, label⟩
  | ⟨.scope inner body next, frames, label⟩ => some ⟨body, .restore label next :: frames, inner⟩
  | ⟨.attempt body next handler, frames, label⟩ =>
    some ⟨body, .caught next handler :: frames, label⟩
  | ⟨.done, .restore label next :: frames, _⟩ => some ⟨next, frames, label⟩
  | ⟨.done, .caught next _ :: frames, label⟩ => some ⟨next, frames, label⟩
  -- an error puts the label back as well and goes on from there
  | ⟨.raise, .restore label _ :: frames, _⟩ => some ⟨.raise, frames, label⟩
  | ⟨.raise, .caught _ handler :: frames, label⟩ => some ⟨handler, frames, label⟩
  | ⟨.done, [], _⟩ | ⟨.raise, [], _⟩ => none

/-- What the frames are going to perform, after a program that succeeds or not. -/
def aheadOf (ok : Bool) (label : ℓ) : List (Frame α ℓ) → List (α × ℓ)
  | [] => []
  | .restore outer next :: frames =>
    if ok then next.trace outer ++ aheadOf next.succeeds outer frames
    else aheadOf false outer frames
  | .caught next handler :: frames =>
    let prog := if ok then next else handler
    prog.trace label ++ aheadOf prog.succeeds label frames

/-- What the task is going to perform. -/
def ahead (t : Task α ℓ) : List (α × ℓ) :=
  t.prog.trace t.register ++ aheadOf t.prog.succeeds t.register t.frames

def resultOf (ok : Bool) : List (Frame α ℓ) → Bool
  | [] => ok
  | .restore _ next :: frames => resultOf (ok && next.succeeds) frames
  | .caught next handler :: frames =>
    resultOf (if ok then next.succeeds else handler.succeeds) frames

/-- The task will end without an error. -/
def result (t : Task α ℓ) : Bool := resultOf t.prog.succeeds t.frames

def homeOf (label : ℓ) : List (Frame α ℓ) → ℓ
  | [] => label
  | .restore outer _ :: frames => homeOf outer frames
  | .caught _ _ :: frames => homeOf label frames

/-- The label outside all scopes. -/
def home (t : Task α ℓ) : ℓ := homeOf t.register t.frames

def frameSize : Frame α ℓ → Nat
  | .restore _ next => next.size + 1
  | .caught next handler => next.size + handler.size + 1

def rank (t : Task α ℓ) : Nat := t.prog.size + (t.frames.map frameSize).sum

/-- What the next step performs, with the label in the register. -/
def emits (t : Task α ℓ) : List (α × ℓ) := t.performs.toList.map (·, t.register)

/-- One step takes what it performs off what is ahead and changes nothing else that was settled. -/
structure Follows (t t' : Task α ℓ) : Prop where
  ahead : t.ahead = t.emits ++ t'.ahead
  result : t'.result = t.result
  home : t'.home = t.home
  rank : t'.rank < t.rank

theorem follows_of_step {t t' : Task α ℓ} (taken : t.step = some t') : Follows t t' := by
  obtain ⟨prog, frames, label⟩ := t
  cases prog with
  | act a next =>
    cases taken
    exact ⟨rfl, rfl, rfl, by simp [rank, Prog.size]⟩
  | scope inner body next =>
    cases taken
    refine ⟨?_, ?_, rfl, ?_⟩
    · -- what follows the body is read under the old label, which the new frame holds
      simp only [ahead, Prog.trace, Prog.succeeds, emits, performs, aheadOf, Option.toList,
        List.map_nil, List.nil_append, List.append_assoc]
      cases body.succeeds <;> simp
    · simp [result, resultOf, Prog.succeeds]
    · simp only [rank, Prog.size, frameSize, List.map_cons, List.sum_cons]
      omega
  | attempt body next handler =>
    cases taken
    refine ⟨?_, ?_, rfl, ?_⟩
    · simp only [ahead, Prog.trace, Prog.succeeds, emits, performs, aheadOf, Option.toList,
        List.map_nil, List.nil_append, List.append_assoc]
      cases body.succeeds <;> simp
    · simp [result, resultOf, Prog.succeeds]
    · simp only [rank, Prog.size, frameSize, List.map_cons, List.sum_cons]
      omega
  | done =>
    cases frames with
    | nil => cases taken
    | cons frame frames =>
      -- what is ahead is by definition what the frame says
      have smaller (next : Prog α ℓ) (outer : ℓ) (fits : next.size ≤ frameSize frame) :
          rank ⟨next, frames, outer⟩ < rank ⟨.done, frame :: frames, label⟩ := by
        simp only [rank, Prog.size, List.map_cons, List.sum_cons]
        omega
      cases frame with
      | restore outer next =>
        cases taken
        exact ⟨rfl, rfl, rfl, smaller next outer (by simp [frameSize])⟩
      | caught next handler =>
        cases taken
        exact ⟨rfl, rfl, rfl, smaller next label (by simp only [frameSize]; omega)⟩
  | raise =>
    cases frames with
    | nil => cases taken
    | cons frame frames =>
      cases frame with
      | restore outer next =>
        cases taken
        refine ⟨rfl, rfl, rfl, ?_⟩
        simp only [rank, frameSize, List.map_cons, List.sum_cons]
        omega
      | caught next handler =>
        cases taken
        refine ⟨rfl, rfl, rfl, ?_⟩
        simp only [rank, Prog.size, frameSize, List.map_cons, List.sum_cons]
        omega

/-- A task without a next step has ended: nothing is ahead and the register is at home. -/
theorem ended_of_stuck {t : Task α ℓ} (stuck : t.step = none) :
    t.ahead = [] ∧ t.home = t.register ∧
      (t.prog = .done ∧ t.result = true ∨ t.prog = .raise ∧ t.result = false) := by
  obtain ⟨prog, frames, label⟩ := t
  cases prog with
  | act a next => cases stuck
  | scope inner body next => cases stuck
  | attempt body next handler => cases stuck
  | done =>
    cases frames with
    | nil => exact ⟨rfl, rfl, .inl ⟨rfl, rfl⟩⟩
    | cons frame frames => cases frame <;> cases stuck
  | raise =>
    cases frames with
    | nil => exact ⟨rfl, rfl, .inr ⟨rfl, rfl⟩⟩
    | cons frame frames => cases frame <;> cases stuck

end Task

/-! ### Interleavings -/

structure State (ι α ℓ σ : Type) where
  task : ι → Task α ℓ
  shared : σ
  /-- Ghost: what was performed, by whom and under which label. -/
  log : List (ι × α × ℓ)

section System

variable [DecidableEq ι] (perform : ι → α × ℓ → σ → σ)

/-- The tasks read their registers when they act. -/
def stepTask (s : State ι α ℓ σ) (i : ι) : Option (State ι α ℓ σ) :=
  (s.task i).step.map fun t =>
    ⟨Function.update s.task i t,
      (s.task i).emits.foldl (fun shared call => perform i call shared) s.shared,
      s.log ++ (s.task i).emits.map (i, ·)⟩

def machine (progs : ι → Prog α ℓ) (label : ι → ℓ) (shared : σ) :
    Machine (State ι α ℓ σ) ι where
  init s := s = ⟨fun i => .start (progs i) (label i), shared, []⟩
  step s i := stepTask perform s i

/-- The part of a log that is one task's. -/
def callsOf (i : ι) (log : List (ι × α × ℓ)) : List (α × ℓ) :=
  (log.filter fun entry => entry.1 = i).map Prod.snd

/-- The shared state after the entries of a log. -/
def replay (log : List (ι × α × ℓ)) (shared : σ) : σ :=
  log.foldl (fun shared entry => perform entry.1 entry.2 shared) shared

/-- Every task is in the middle of the lexical reading of its program, and what the tasks share
came about by the logged actions. -/
structure Lexical (progs : ι → Prog α ℓ) (label : ι → ℓ) (shared : σ) (s : State ι α ℓ σ) :
    Prop where
  calls : ∀ i, callsOf i s.log ++ (s.task i).ahead = (progs i).trace (label i)
  result : ∀ i, (s.task i).result = (progs i).succeeds
  home : ∀ i, (s.task i).home = label i
  shared : s.shared = replay perform s.log shared

variable {perform} {progs : ι → Prog α ℓ} {label : ι → ℓ} {shared : σ} {s s' : State ι α ℓ σ}

theorem callsOf_append (i : ι) (log later : List (ι × α × ℓ)) :
    callsOf i (log ++ later) = callsOf i log ++ callsOf i later :=
  ownOf_append i log later

theorem callsOf_tagged (i j : ι) (calls : List (α × ℓ)) :
    callsOf j (calls.map (i, ·)) = if i = j then calls else [] :=
  ownOf_tagged i j calls

theorem lexical_initial : Lexical perform progs label shared
    ⟨fun i => .start (progs i) (label i), shared, []⟩ := by
  refine ⟨fun i => ?_, fun i => rfl, fun i => rfl, rfl⟩
  simp [callsOf, Task.ahead, Task.start, Task.aheadOf]

theorem Lexical.step {i : ι} (lexical : Lexical perform progs label shared s)
    (taken : stepTask perform s i = some s') : Lexical perform progs label shared s' := by
  obtain ⟨t, next, rfl⟩ := Option.map_eq_some_iff.mp taken
  have follows := Task.follows_of_step next
  -- what the step of the task keeps is kept for every task
  have kept {β : Type} (view : Task α ℓ → β) (same : view t = view (s.task i)) (j : ι) :
      view (Function.update s.task i t j) = view (s.task j) := by
    rcases eq_or_ne j i with rfl | other
    · rw [Function.update_self, same]
    · rw [Function.update_of_ne other]
  refine ⟨fun j => ?_, fun j => ?_, fun j => ?_, ?_⟩
  · dsimp only
    rw [callsOf_append, callsOf_tagged]
    rcases eq_or_ne i j with rfl | other
    · rw [if_pos rfl, Function.update_self, List.append_assoc, ← follows.ahead]
      exact lexical.calls i
    · rw [if_neg other, Function.update_of_ne other.symm, List.append_nil]
      exact lexical.calls j
  · exact (kept Task.result follows.result j).trans (lexical.result j)
  · exact (kept Task.home follows.home j).trans (lexical.home j)
  · simp only [replay, List.foldl_append, List.foldl_map]
    rw [lexical.shared]
    rfl

/-- A task that has ended did what its program says, and its register is as it was at first. -/
theorem Lexical.ended {i : ι} (lexical : Lexical perform progs label shared s)
    (stuck : (s.task i).step = none) :
    callsOf i s.log = (progs i).trace (label i) ∧ (s.task i).register = label i ∧
      ((s.task i).prog = .done ↔ (progs i).succeeds = true) := by
  obtain ⟨nothing, home, ending⟩ := Task.ended_of_stuck stuck
  have calls := lexical.calls i
  rw [nothing, List.append_nil] at calls
  refine ⟨calls, home ▸ lexical.home i, ?_⟩
  rw [← lexical.result i]
  rcases ending with ⟨prog, result⟩ | ⟨prog, result⟩ <;> simp [prog, result]

/-- What is added up over a log is what the tasks add up to. -/
theorem sum_log [Fintype ι] (amount : ι → α × ℓ → Nat) (log : List (ι × α × ℓ)) :
    (log.map fun entry => amount entry.1 entry.2).sum =
      ∑ i, ((callsOf i log).map (amount i)).sum := by
  induction log with
  | nil => simp [callsOf]
  | cons entry rest ih =>
    have each (i : ι) : ((callsOf i (entry :: rest)).map (amount i)).sum =
        (if entry.1 = i then amount i entry.2 else 0) + ((callsOf i rest).map (amount i)).sum := by
      by_cases same : entry.1 = i <;> simp [callsOf, same]
    rw [List.map_cons, List.sum_cons, ih, Finset.sum_congr rfl fun i _ => each i,
      Finset.sum_add_distrib, Finset.sum_ite_eq]
    simp

end System

end Wrkr.Lib.Scopes
