import Mathlib.Logic.Relation
import Mathlib.Order.Basic

/-!
# Waiting threads

`waits t u` says that `t` cannot go on before `u` has. Threads on a cycle of the relation never go
on again. A rank that falls along it excludes cycles.
-/
namespace Wrkr.Lib

variable {ι : Type} {waits : ι → ι → Prop}

/-- Some threads wait for each other in a cycle. -/
def Deadlock (waits : ι → ι → Prop) : Prop := ∃ t, Relation.TransGen waits t t

theorem Deadlock.of_pair {t u : ι} (tu : waits t u) (ut : waits u t) : Deadlock waits :=
  ⟨t, .tail (.single tu) ut⟩

theorem not_deadlock_of_rank (rank : ι → Nat) (falls : ∀ t u, waits t u → rank u < rank t) :
    ¬Deadlock waits := by
  have along {t u : ι} (path : Relation.TransGen waits t u) : rank u < rank t := by
    induction path with
    | single edge => exact falls _ _ edge
    | tail _ edge ih => exact Nat.lt_trans (falls _ _ edge) ih
  rintro ⟨t, cycle⟩
  exact Nat.lt_irrefl _ (along cycle)

end Wrkr.Lib
