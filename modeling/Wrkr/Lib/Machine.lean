import Mathlib.Logic.Basic

/-!
# Interleaving machines

A system of concurrent tasks is a partial step function: `step s a` is the state after the
atomic step `a`, and `none` when the step is not enabled in `s`. An interleaving is a sequence
of enabled steps from an initial state. `ReachableBy ok` collects the states of the
interleavings whose every step meets `ok` in the state it is taken from; the unrestricted
notion is `Reachable`.
-/
namespace Wrkr.Lib

structure Machine (σ α : Type) where
  init : σ → Prop
  step : σ → α → Option σ

namespace Machine

variable {σ α : Type} {M : Machine σ α} {ok : σ → α → Prop}

inductive ReachableBy (M : Machine σ α) (ok : σ → α → Prop) : σ → Prop
  | init {s : σ} : M.init s → ReachableBy M ok s
  | step {s s' : σ} {a : α} :
      ReachableBy M ok s → ok s a → M.step s a = some s' → ReachableBy M ok s'

/-- The states of all interleavings. -/
def Reachable (M : Machine σ α) : σ → Prop :=
  M.ReachableBy fun _ _ => True

/-- One step lemma carries an invariant through every interleaving. -/
theorem ReachableBy.invariant {s : σ} (run : M.ReachableBy ok s) (Inv : σ → Prop)
    (initial : ∀ s, M.init s → Inv s)
    (preserved : ∀ s a s', Inv s → ok s a → M.step s a = some s' → Inv s') : Inv s := by
  induction run with
  | init start => exact initial _ start
  | step _ allowed taken ih => exact preserved _ _ _ ih allowed taken

theorem Reachable.invariant {s : σ} (run : M.Reachable s) (Inv : σ → Prop)
    (initial : ∀ s, M.init s → Inv s)
    (preserved : ∀ s a s', Inv s → M.step s a = some s' → Inv s') : Inv s :=
  ReachableBy.invariant run Inv initial fun s a s' inv _ taken => preserved s a s' inv taken

/-- A machine whose every step is one of `N` on what `abs` sees of the state, or leaves that as it
is, reaches nothing that `N` does not reach. -/
theorem Reachable.simulate {τ β : Type} {N : Machine τ β} (abs : σ → τ) (Inv : σ → Prop)
    (initial : ∀ s, M.init s → Inv s ∧ N.init (abs s))
    (step : ∀ s a s', Inv s → N.Reachable (abs s) → M.step s a = some s' →
      Inv s' ∧ (abs s' = abs s ∨ ∃ b, N.step (abs s) b = some (abs s')))
    {s : σ} (run : M.Reachable s) : Inv s ∧ N.Reachable (abs s) := by
  refine run.invariant (fun s => Inv s ∧ N.Reachable (abs s)) ?_ ?_
  · intro s start
    obtain ⟨inv, abstract_start⟩ := initial s start
    exact ⟨inv, .init abstract_start⟩
  · rintro s a s' ⟨inv, reached⟩ taken
    obtain ⟨inv', same | ⟨b, abstract_taken⟩⟩ := step s a s' inv reached taken
    · exact ⟨inv', same ▸ reached⟩
    · exact ⟨inv', .step reached trivial abstract_taken⟩

/-- Replay a list of steps, stopping at the first that is disabled or not allowed. -/
def exec (M : Machine σ α) (ok : σ → α → Prop) [∀ s a, Decidable (ok s a)] :
    σ → List α → Option σ
  | s, [] => some s
  | s, a :: rest =>
    if ok s a then
      match M.step s a with
      | some s' => exec M ok s' rest
      | none => none
    else none

theorem exec_reachableBy [∀ s a, Decidable (ok s a)] {s s' : σ} {trace : List α}
    (start : M.ReachableBy ok s) (replayed : M.exec ok s trace = some s') :
    M.ReachableBy ok s' := by
  induction trace generalizing s with
  | nil =>
    simp only [exec, Option.some.injEq] at replayed
    exact replayed ▸ start
  | cons a rest ih =>
    simp only [exec] at replayed
    split at replayed
    next allowed =>
      split at replayed
      next next taken => exact ih (.step start allowed taken) replayed
      next => simp at replayed
    next => simp at replayed

/-- A replayed trace reaches a state with any property its end is checked for. -/
theorem exists_reachableBy_of_exec (M : Machine σ α) (ok : σ → α → Prop)
    [∀ s a, Decidable (ok s a)] (p : σ → Prop) [DecidablePred p] (trace : List α) {s : σ}
    (start : M.init s)
    (checked : (M.exec ok s trace).any (fun s' => decide (p s')) = true) :
    ∃ s', M.ReachableBy ok s' ∧ p s' := by
  cases replayed : M.exec ok s trace with
  | none => simp [replayed] at checked
  | some s' =>
    refine ⟨s', exec_reachableBy (.init start) replayed, ?_⟩
    simpa [replayed] using checked

/-- Every maximal interleaving from the state comes to a state with `P`: none stops before, and
none goes on forever without one. -/
inductive Inevitable (M : Machine σ α) (P : σ → Prop) : σ → Prop
  | here {s : σ} : P s → Inevitable M P s
  | later {s : σ} : (∃ a s', M.step s a = some s') →
      (∀ a s', M.step s a = some s' → Inevitable M P s') → Inevitable M P s

/-- As long as a run is not done some step is enabled, and every step makes the rank smaller. -/
theorem inevitable_of_rank {P : σ → Prop} (Inv Done : σ → Prop) (rank : σ → Nat)
    (preserved : ∀ s a s', Inv s → M.step s a = some s' → Inv s')
    (reached : ∀ s, Inv s → Done s → P s)
    (enabled : ∀ s, Inv s → ¬Done s → ∃ a s', M.step s a = some s')
    (smaller : ∀ s a s', Inv s → ¬Done s → M.step s a = some s' → rank s' < rank s)
    {s : σ} (inv : Inv s) : M.Inevitable P s := by
  induction bound : rank s using Nat.strongRecOn generalizing s with
  | ind n ih =>
    by_cases done : Done s
    · exact .here (reached s inv done)
    · refine .later (enabled s inv done) fun a s' taken => ?_
      exact ih (rank s') (bound ▸ smaller s a s' inv done taken) (preserved s a s' inv taken) rfl

end Machine

end Wrkr.Lib
