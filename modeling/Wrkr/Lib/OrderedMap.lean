import Mathlib.Data.List.Induction
import Mathlib.Data.List.Perm.Basic
import Mathlib.Data.String.Basic

/-!
# Ordered maps filled from a list

A `BTreeMap` is a `Std.TreeMap`. What the loops that fill one by `insert` leave in it: one entry
for each key, and with distinct keys every entry.
-/
namespace Wrkr.Lib

variable {α β : Type} [Ord α]

/-- The map after `insert(k, v)` for the entries in order. -/
def collect (entries : List (α × β)) : Std.TreeMap α β :=
  entries.foldl (fun map e => map.insert e.1 e.2) ∅

theorem collect_concat (entries : List (α × β)) (e : α × β) :
    collect (entries ++ [e]) = (collect entries).insert e.1 e.2 := by
  simp [collect]

variable [Std.TransOrd α] [Std.LawfulEqOrd α]

theorem mem_collect (entries : List (α × β)) (k : α) :
    k ∈ collect entries ↔ k ∈ entries.map Prod.fst := by
  induction entries using List.reverseRecOn with
  | nil => simp [collect]
  | append_singleton entries e ih =>
    rw [collect_concat, Std.TreeMap.mem_insert, ih, Std.compare_eq_iff_eq, List.map_append,
      List.mem_append, List.map_singleton, List.mem_singleton, or_comm, eq_comm]

theorem mem_of_mem_collect {entries : List (α × β)} {e : α × β}
    (member : e ∈ (collect entries).toList) : e ∈ entries := by
  obtain ⟨k, v⟩ := e
  rw [Std.TreeMap.mem_toList_iff_getElem?_eq_some] at member
  induction entries using List.reverseRecOn with
  | nil => simp [collect] at member
  | append_singleton entries e ih =>
    rw [collect_concat, Std.TreeMap.getElem?_insert] at member
    rw [List.mem_append, List.mem_singleton]
    split at member
    case isTrue same =>
      cases member
      exact .inr (Prod.ext (Std.compare_eq_iff_eq.mp same).symm rfl)
    case isFalse => exact .inl (ih member)

theorem nodup_keys_toList (map : Std.TreeMap α β) : (map.toList.map Prod.fst).Nodup := by
  rw [List.Nodup, List.pairwise_map]
  refine Std.TreeMap.distinct_keys_toList.imp fun apart same => apart ?_
  simpa using same

variable [DecidableEq α]

/-- Entries with distinct keys are all there. -/
theorem toList_collect_perm {entries : List (α × β)} (distinct : (entries.map Prod.fst).Nodup) :
    (collect entries).toList.Perm entries := by
  induction entries using List.reverseRecOn with
  | nil =>
    have empty : (collect ([] : List (α × β))).toList = [] := by
      rw [← List.isEmpty_iff, Std.TreeMap.isEmpty_toList]
      rfl
    rw [empty]
  | append_singleton entries e ih =>
    rw [List.map_append, List.nodup_append] at distinct
    obtain ⟨nodup, -, apart⟩ := distinct
    -- the key of `e` is new, so its insertion removes nothing
    have kept : (collect entries).toList.filter (fun x => decide ¬(e.1 == x.1) = true) =
        (collect entries).toList := by
      rw [List.filter_eq_self]
      rintro ⟨k, v⟩ member
      have present : k ∈ collect entries := by
        rw [Std.TreeMap.mem_iff_isSome_getElem?,
          Std.TreeMap.mem_toList_iff_getElem?_eq_some.mp member]
        rfl
      have new : e.1 ≠ k := by
        rintro rfl
        exact apart _ ((mem_collect entries _).mp present) _ (by simp) rfl
      simpa using new
    have inserted := Std.TreeMap.toList_insert_perm (t := collect entries) (k := e.1) (v := e.2)
    rw [kept] at inserted
    rw [collect_concat]
    exact (inserted.trans ((ih nodup).cons e)).trans (List.perm_append_singleton e entries).symm

end Wrkr.Lib
