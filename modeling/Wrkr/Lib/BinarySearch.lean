import Mathlib.Order.Basic
import Mathlib.Order.Defs.LinearOrder
import Mathlib.Tactic.SplitIfs

/-!
# Binary search

What the standard library promises of `binary_search_by`: any index of a match, or the index at
which one could be inserted. Where several elements match, a caller cannot know which of them it
gets, so what is proved over `BinarySearch` holds of every implementation.
-/
namespace Wrkr.Lib

variable {α : Type}

/-- A list that a comparison divides: what is less comes first, and what is greater last. -/
def Divided (cmp : α → Ordering) (xs : List α) : Prop :=
  xs.Pairwise fun a b => (cmp b = .lt → cmp a = .lt) ∧ (cmp a = .gt → cmp b = .gt)

theorem Divided.lt_before {cmp : α → Ordering} {xs : List α} (divided : Divided cmp xs) {i j : Nat}
    {a b : α} (le : i ≤ j) (at_i : xs[i]? = some a) (at_j : xs[j]? = some b) (lt : cmp b = .lt) :
    cmp a = .lt := by
  obtain ⟨hi, rfl⟩ := List.getElem?_eq_some_iff.mp at_i
  obtain ⟨hj, rfl⟩ := List.getElem?_eq_some_iff.mp at_j
  rcases Nat.eq_or_lt_of_le le with rfl | before
  · exact lt
  · exact (List.pairwise_iff_getElem.mp divided i j hi hj before).1 lt

theorem Divided.gt_after {cmp : α → Ordering} {xs : List α} (divided : Divided cmp xs) {i j : Nat}
    {a b : α} (le : i ≤ j) (at_i : xs[i]? = some a) (at_j : xs[j]? = some b) (gt : cmp a = .gt) :
    cmp b = .gt := by
  obtain ⟨hi, rfl⟩ := List.getElem?_eq_some_iff.mp at_i
  obtain ⟨hj, rfl⟩ := List.getElem?_eq_some_iff.mp at_j
  rcases Nat.eq_or_lt_of_le le with rfl | before
  · exact gt
  · exact (List.pairwise_iff_getElem.mp divided i j hi hj before).2 gt

/-- `slice::binary_search_by`. -/
structure BinarySearch (α : Type) where
  search : (α → Ordering) → List α → Except Nat Nat
  found : ∀ cmp xs i, Divided cmp xs → search cmp xs = .ok i → ∃ x, xs[i]? = some x ∧ cmp x = .eq
  missing : ∀ cmp xs i, Divided cmp xs → search cmp xs = .error i →
    i ≤ xs.length ∧ ∀ j x, xs[j]? = some x → (j < i → cmp x = .lt) ∧ (i ≤ j → cmp x = .gt)

namespace BinarySearch

/-- Either result, as callers use it that insert or find at the same place. -/
def index (b : BinarySearch α) (cmp : α → Ordering) (xs : List α) : Nat :=
  match b.search cmp xs with
  | .ok i => i
  | .error i => i

/-- The index is that of a match, or everything before it is less and the rest is greater. -/
theorem index_cases (b : BinarySearch α) {cmp : α → Ordering} {xs : List α}
    (divided : Divided cmp xs) :
    (∃ x, xs[b.index cmp xs]? = some x ∧ cmp x = .eq) ∨
      (b.index cmp xs ≤ xs.length ∧ ∀ j x, xs[j]? = some x →
        (j < b.index cmp xs → cmp x = .lt) ∧ (b.index cmp xs ≤ j → cmp x = .gt)) := by
  simp only [index]
  cases result : b.search cmp xs with
  | ok i => exact .inl (b.found cmp xs i divided result)
  | error i => exact .inr (b.missing cmp xs i divided result)

/-- What lies before the index is not greater, and what lies from it on is not less. -/
theorem index_spec (b : BinarySearch α) {cmp : α → Ordering} {xs : List α}
    (divided : Divided cmp xs) :
    b.index cmp xs ≤ xs.length ∧ ∀ j x, xs[j]? = some x →
      (j < b.index cmp xs → cmp x ≠ .gt) ∧ (b.index cmp xs ≤ j → cmp x ≠ .lt) := by
  rcases b.index_cases divided with ⟨m, here, eq⟩ | ⟨bound, sides⟩
  · refine ⟨Nat.le_of_lt (List.getElem?_eq_some_iff.mp here).1, fun j x at_j =>
      ⟨fun before gt => ?_, fun after lt => ?_⟩⟩
    · exact Ordering.noConfusion
        ((divided.gt_after (Nat.le_of_lt before) at_j here gt).symm.trans eq)
    · exact Ordering.noConfusion ((divided.lt_before after here at_j lt).symm.trans eq)
  · refine ⟨bound, fun j x at_j => ⟨fun before gt => ?_, fun after lt => ?_⟩⟩
    · exact Ordering.noConfusion (((sides j x at_j).1 before).symm.trans gt)
    · exact Ordering.noConfusion (((sides j x at_j).2 after).symm.trans lt)

/-! ### The implementation of the standard library -/

/-- One turn of the loop: the lower half is left unless the middle is too large. -/
def nextBase (cmp : α → Ordering) (xs : List α) (base mid : Nat) : Nat :=
  if xs[mid]?.any (cmp · == .gt) then base else mid

/-- The loop that halves `size` until one element is left. -/
def narrow (cmp : α → Ordering) (xs : List α) (base size : Nat) : Nat :=
  if size ≤ 1 then base
  else
    let half := size / 2
    let mid := base + half
    narrow cmp xs (nextBase cmp xs base mid) (size - half)
termination_by size

/-- The element that is left is not greater, or the first; all behind it are greater. -/
theorem narrow_spec {cmp : α → Ordering} {xs : List α} (divided : Divided cmp xs) (base size : Nat)
    (positive : 0 < size) (within : base + size ≤ xs.length)
    (below : base = 0 ∨ ∀ x, xs[base]? = some x → cmp x ≠ .gt)
    (above : ∀ j x, base + size ≤ j → xs[j]? = some x → cmp x = .gt) :
    narrow cmp xs base size < xs.length ∧
      (narrow cmp xs base size = 0 ∨
        ∀ x, xs[narrow cmp xs base size]? = some x → cmp x ≠ .gt) ∧
      ∀ j x, narrow cmp xs base size < j → xs[j]? = some x → cmp x = .gt := by
  fun_induction narrow cmp xs base size with
  | case1 base size small =>
    exact ⟨by omega, below, fun j x after => above j x (by omega)⟩
  | case2 base size large half mid ih =>
    have inside : mid < xs.length := by omega
    have here : xs[mid]? = some xs[mid] := List.getElem?_eq_getElem inside
    by_cases greater : cmp xs[mid] = .gt
    -- the upper half is greater with its first element
    · have kept : nextBase cmp xs base mid = base := by simp [nextBase, here, greater]
      rw [kept] at ih ⊢
      refine ih (by omega) (by omega) below fun j x after at_j => ?_
      exact divided.gt_after (by omega) here at_j greater
    · have moved : nextBase cmp xs base mid = mid := by simp [nextBase, here, greater]
      rw [moved] at ih ⊢
      refine ih (by omega) (by omega) (.inr fun x at_mid => ?_)
        fun j x after => above j x (by omega)
      rw [here] at at_mid
      cases at_mid
      exact greater

/-- `slice::binary_search_by` as the standard library has it. -/
def stdSearch (cmp : α → Ordering) (xs : List α) : Except Nat Nat :=
  if xs.length = 0 then .error 0
  else
    let base := narrow cmp xs 0 xs.length
    match xs[base]?.map cmp with
    | some .eq => .ok base
    | some .lt => .error (base + 1)
    | _ => .error base

/-- The standard library keeps its promise. -/
def std : BinarySearch α where
  search := stdSearch
  found := by
    intro cmp xs i divided result
    simp only [stdSearch] at result
    split_ifs at result
    split at result <;> cases result
    rename_i eq
    exact Option.map_eq_some_iff.mp eq
  missing := by
    intro cmp xs i divided result
    simp only [stdSearch] at result
    split_ifs at result with empty
    · cases result
      exact ⟨Nat.zero_le _, fun j x at_j => by
        rw [List.length_eq_zero_iff.mp empty] at at_j
        cases at_j⟩
    · obtain ⟨inside, notGreater, behind⟩ := narrow_spec divided 0 xs.length (by omega) (by omega)
        (.inl rfl) (fun j x after at_j => by
          have := (List.getElem?_eq_some_iff.mp at_j).1
          omega)
      generalize narrow cmp xs 0 xs.length = base at result inside notGreater behind
      have here : xs[base]? = some xs[base] := List.getElem?_eq_getElem inside
      rw [here, Option.map_some] at result
      split at result <;> cases result
      · rename_i lt
        have less : cmp xs[base] = .lt := Option.some.inj lt
        exact ⟨inside, fun j x at_j => ⟨fun before =>
          divided.lt_before (by omega) at_j here less, fun after => behind j x after at_j⟩⟩
      · rename_i eq lt
        -- the element that is left is greater, so it is the first
        have greater : cmp xs[i] = .gt := by
          cases result : cmp xs[i] with
          | lt => exact absurd (congrArg some result) lt
          | eq => exact absurd (congrArg some result) eq
          | gt => rfl
        have first : i = 0 := notGreater.resolve_right fun sides => sides _ here greater
        subst first
        exact ⟨Nat.zero_le _, fun j x at_j => ⟨fun before => absurd before (Nat.not_lt_zero j),
          fun after => divided.gt_after after here at_j greater⟩⟩

end BinarySearch

end Wrkr.Lib
