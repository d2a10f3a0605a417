import Mathlib.Algebra.BigOperators.Group.Finset.Basic
import Mathlib.Algebra.BigOperators.Group.Finset.Piecewise
import Mathlib.Algebra.Order.BigOperators.Group.Finset
import Mathlib.Data.Fintype.BigOperators

/-!
# Several tasks

A step moves one task at a time, so a total over all tasks changes by the difference that the
moved task makes. A log of what tasks did is, up to its order, what each of them did.
-/
namespace Wrkr.Lib

variable {ι β M : Type} [Fintype ι] [DecidableEq ι]

/-- Moving task `i` from `f i` to `b` trades its old contribution for the new one. -/
theorem sum_moved_task [AddCommMonoid M] (weight : ι → β → M) (f : ι → β) (i : ι) (b : β) :
    (∑ j, weight j (Function.update f i b j)) + weight i (f i) =
      (∑ j, weight j (f j)) + weight i b := by
  have split (g : ι → β) :
      ∑ j, weight j (g j) = weight i (g i) + ∑ j ∈ Finset.univ.erase i, weight j (g j) :=
    (Finset.add_sum_erase Finset.univ (fun j => weight j (g j)) (Finset.mem_univ i)).symm
  have rest : ∑ j ∈ Finset.univ.erase i, weight j (Function.update f i b j) =
      ∑ j ∈ Finset.univ.erase i, weight j (f j) := by
    refine Finset.sum_congr rfl fun j member => ?_
    rw [Function.update_of_ne (Finset.ne_of_mem_erase member)]
  rw [split (Function.update f i b), split f, rest, Function.update_self]
  ac_rfl

/-- How many tasks are in a position that satisfies `p`. -/
def tally (p : β → Prop) [DecidablePred p] (f : ι → β) : Nat :=
  ∑ j, if p (f j) then 1 else 0

omit [DecidableEq ι] in
theorem tally_le_card (p : β → Prop) [DecidablePred p] (f : ι → β) :
    tally p f ≤ Fintype.card ι := by
  unfold tally
  calc ∑ j, (if p (f j) then 1 else 0) ≤ ∑ _j : ι, 1 :=
        Finset.sum_le_sum fun j _ => by split <;> omega
    _ = Fintype.card ι := by simp

omit [DecidableEq ι] in
/-- A task outside `p` leaves room below the number of tasks. -/
theorem tally_lt_card {p : β → Prop} [DecidablePred p] {f : ι → β} {i : ι} (outside : ¬ p (f i)) :
    tally p f < Fintype.card ι := by
  unfold tally
  calc ∑ j, (if p (f j) then 1 else 0) < ∑ _j : ι, 1 :=
        Finset.sum_lt_sum (fun j _ => by split <;> omega)
          ⟨i, Finset.mem_univ i, by simp [outside]⟩
    _ = Fintype.card ι := by simp

theorem tally_update {p : β → Prop} [DecidablePred p] {f : ι → β} {i : ι} (outside : ¬ p (f i))
    (b : β) : tally p (Function.update f i b) = tally p f + if p b then 1 else 0 := by
  have moved := sum_moved_task (fun _ pc => if p pc then 1 else 0) f i b
  simpa [tally, outside] using moved

/-- A task that stays inside or outside `p` changes no tally. -/
theorem tally_update_of_iff {p : β → Prop} [DecidablePred p] {f : ι → β} {i : ι} {b : β}
    (same : p b ↔ p (f i)) : tally p (Function.update f i b) = tally p f := by
  have moved := sum_moved_task (fun _ pc => if p pc then 1 else 0) f i b
  simp only [same] at moved
  exact Nat.add_right_cancel moved

section Logs

variable {ι α : Type} [DecidableEq ι]

/-- The part of a log that is one task's. -/
def ownOf (i : ι) (log : List (ι × α)) : List α :=
  (log.filter fun entry => entry.1 = i).map Prod.snd

theorem ownOf_append (i : ι) (log later : List (ι × α)) :
    ownOf i (log ++ later) = ownOf i log ++ ownOf i later := by
  simp [ownOf]

theorem ownOf_tagged (i j : ι) (entries : List α) :
    ownOf j (entries.map (i, ·)) = if i = j then entries else [] := by
  by_cases same : i = j <;> simp [ownOf, List.filter_map, Function.comp_def, same]

theorem mem_ownOf {i : ι} {a : α} {log : List (ι × α)} : a ∈ ownOf i log ↔ (i, a) ∈ log := by
  simp [ownOf]

theorem count_ownOf [DecidableEq α] (entry : ι × α) (log : List (ι × α)) :
    (ownOf entry.1 log).count entry.2 = log.count entry := by
  induction log with
  | nil => rfl
  | cons first rest ih =>
    by_cases own : first.1 = entry.1
    · have same : first.2 = entry.2 ↔ first = entry :=
        ⟨fun second => Prod.ext own second, congrArg Prod.snd⟩
      have split : ownOf entry.1 (first :: rest) = first.2 :: ownOf entry.1 rest := by
        simp [ownOf, own]
      rw [split, List.count_cons, List.count_cons, ih]
      simp [same]
    · have split : ownOf entry.1 (first :: rest) = ownOf entry.1 rest := by simp [ownOf, own]
      have other : first ≠ entry := fun same => own (congrArg Prod.fst same)
      rw [split, ih, List.count_cons_of_ne other]

/-- Two logs in which every task did the same differ in their order only. -/
theorem perm_of_ownOf {log log' : List (ι × α)} (same : ∀ i, ownOf i log = ownOf i log') :
    log.Perm log' := by
  classical
  rw [List.perm_iff_count]
  intro entry
  rw [← count_ownOf, same, count_ownOf]

end Logs

end Wrkr.Lib
