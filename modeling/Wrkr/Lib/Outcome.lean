import Mathlib.Init

/-!
# Outcomes of stateful computations that may fail

`Outcome x s ok err` says how the computation `x` ends from the state `s`: with a result and a
state as `ok` says, or with an error as `err` says. The rules follow the structure of the
computation.
-/
namespace Wrkr.Lib

variable {σ ε α β : Type}

def Outcome (x : StateT σ (Except ε) α) (s : σ) (ok : α → σ → Prop) (err : ε → Prop) : Prop :=
  match x s with
  | .ok (a, s') => ok a s'
  | .error e => err e

namespace Outcome

variable {x : StateT σ (Except ε) α} {s : σ} {ok ok' : α → σ → Prop} {err err' : ε → Prop}

theorem pure {a : α} (holds : ok a s) : Outcome (Pure.pure a) s ok err := holds

theorem throw {e : ε} (holds : err e) :
    Outcome (throw e : StateT σ (Except ε) α) s ok err := holds

theorem get_bind {f : σ → StateT σ (Except ε) α} (rest : Outcome (f s) s ok err) :
    Outcome (get >>= f) s ok err := rest

theorem set_bind {s' : σ} {f : PUnit → StateT σ (Except ε) α} (rest : Outcome (f ⟨⟩) s' ok err) :
    Outcome (set s' >>= f) s ok err := rest

theorem modify_bind {update : σ → σ} {f : PUnit → StateT σ (Except ε) α}
    (rest : Outcome (f ⟨⟩) (update s) ok err) : Outcome (modify update >>= f) s ok err := rest

theorem bind {f : α → StateT σ (Except ε) β} {result : β → σ → Prop} (first : Outcome x s ok err)
    (rest : ∀ a s', ok a s' → Outcome (f a) s' result err) : Outcome (x >>= f) s result err := by
  simp only [Outcome, Bind.bind, StateT.bind, Except.bind] at first ⊢
  cases done : x s with
  | error e =>
    rw [done] at first
    exact first
  | ok next =>
    rw [done] at first
    exact rest next.1 next.2 first

theorem map {f : α → β} {result : β → σ → Prop} (outcome : Outcome x s ok err)
    (after : ∀ a s', ok a s' → result (f a) s') : Outcome (f <$> x) s result err := by
  rw [map_eq_pure_bind]
  exact outcome.bind fun a s' holds => Outcome.pure (after a s' holds)

theorem mono (outcome : Outcome x s ok err) (weaker : ∀ a s', ok a s' → ok' a s')
    (weakerErr : ∀ e, err e → err' e) : Outcome x s ok' err' := by
  unfold Outcome at outcome ⊢
  split at outcome
  · exact weaker _ _ outcome
  · exact weakerErr _ outcome

theorem of_ok (outcome : Outcome x s ok err) {a : α} {s' : σ} (done : x s = .ok (a, s')) :
    ok a s' := by
  rw [Outcome, done] at outcome
  exact outcome

theorem of_error (outcome : Outcome x s ok err) {e : ε} (failed : x s = .error e) : err e := by
  rw [Outcome, failed] at outcome
  exact outcome

end Outcome

end Wrkr.Lib
