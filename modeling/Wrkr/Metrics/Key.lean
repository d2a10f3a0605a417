import Wrkr.Lib.HashTable

/-!
# Interned keys

The `Interner` numbers strings by first use. An id is the length of the vector cast to `u32`,
so ids are reused from the 2^32-th string on; `Interner.Wf.injective` holds below that bound.
Nothing is ever removed: every later interner extends the earlier ones.
-/
namespace Wrkr.Metrics

open Wrkr.Lib

/-- The position among the strings. -/
abbrev KeyId := UInt32

/-- The map from strings to ids, and the strings in the order of these. -/
structure Interner where
  map : HashTable String KeyId
  vec : List String

namespace Interner

def new : Interner := ⟨HashTable.empty, []⟩

/-- The section under both write locks, which looks the string up once more. -/
def internLocked (n : Interner) (s : String) : Interner × KeyId :=
  match n.map.get? s with
  | some id => (n, id)
  | none =>
    let id := UInt32.ofNat n.vec.length
    (⟨n.map.insert s id, n.vec ++ [s]⟩, id)

/-- The fast path under the read lock, or else the slow one. -/
def getOrIntern (n : Interner) (s : String) : Interner × KeyId :=
  match n.map.get? s with
  | some id => (n, id)
  | none => n.internLocked s

def resolve (n : Interner) (id : KeyId) : Option String := n.vec[id.toNat]?

/-- The map holds exactly the strings of the vector, each under its position. -/
structure Wf (n : Interner) : Prop where
  nodup : n.vec.Nodup
  agree : ∀ s id, n.map.get? s = some id ↔ ∃ i, n.vec[i]? = some s ∧ id = UInt32.ofNat i

/-- Every string keeps its id. -/
def Extends (a b : Interner) : Prop :=
  ∀ s id, a.map.get? s = some id → b.map.get? s = some id

theorem Extends.refl (a : Interner) : Extends a a := fun _ _ found => found

theorem Extends.trans {a b c : Interner} (ab : Extends a b) (bc : Extends b c) : Extends a c :=
  fun s id found => bc s id (ab s id found)

theorem wf_new : new.Wf := by
  constructor
  · exact List.nodup_nil
  · intro s id
    simp [new]

/-- The two lookups of `get_or_intern` see the same map when nobody runs in between. -/
theorem getOrIntern_eq (n : Interner) (s : String) : n.getOrIntern s = n.internLocked s := by
  unfold getOrIntern internLocked
  cases n.map.get? s <;> rfl

theorem getOrIntern_of_some {n : Interner} {s : String} {id : KeyId}
    (found : n.map.get? s = some id) : n.getOrIntern s = (n, id) := by
  simp [getOrIntern, found]

theorem getOrIntern_of_none {n : Interner} {s : String} (absent : n.map.get? s = none) :
    n.getOrIntern s = (⟨n.map.insert s (UInt32.ofNat n.vec.length), n.vec ++ [s]⟩,
      UInt32.ofNat n.vec.length) := by
  rw [getOrIntern_eq]
  simp [internLocked, absent]

theorem getOrIntern_extends (n : Interner) (s : String) : Extends n (n.getOrIntern s).1 := by
  intro s' id found
  cases known : n.map.get? s with
  | some _ => simpa [getOrIntern_of_some known] using found
  | none =>
    have other : s' ≠ s := by
      rintro rfl
      simp [known] at found
    simpa [getOrIntern_of_none known, HashTable.get?_insert_of_ne _ _ other] using found

/-- The id returned is the one the map then holds. -/
theorem getOrIntern_get? (n : Interner) (s : String) :
    (n.getOrIntern s).1.map.get? s = some (n.getOrIntern s).2 := by
  cases known : n.map.get? s with
  | some id => simp [getOrIntern_of_some known, known]
  | none => simp [getOrIntern_of_none known]

theorem getElem?_append_singleton {xs : List String} {x y : String} {i : Nat} :
    (xs ++ [x])[i]? = some y ↔ xs[i]? = some y ∨ i = xs.length ∧ y = x := by
  rcases Nat.lt_trichotomy i xs.length with old | last | outside
  · rw [List.getElem?_append_left old]
    simp [Nat.ne_of_lt old]
  · subst last
    simp [eq_comm]
  · rw [List.getElem?_eq_none (by simp; omega), List.getElem?_eq_none (Nat.le_of_lt outside)]
    simp [Nat.ne_of_gt outside]

/-- Interning keeps map and list inverse to each other. -/
theorem Wf.getOrIntern {n : Interner} (wf : n.Wf) (s : String) : (n.getOrIntern s).1.Wf := by
  cases known : n.map.get? s with
  | some id => simpa [getOrIntern_of_some known] using wf
  | none =>
    rw [getOrIntern_of_none known]
    -- a string without an id is not in the list either
    have fresh : s ∉ n.vec := by
      intro member
      obtain ⟨i, here⟩ := List.getElem?_of_mem member
      have found := (wf.agree s _).mpr ⟨i, here, rfl⟩
      simp [known] at found
    constructor
    · rw [List.nodup_append]
      refine ⟨wf.nodup, by simp, ?_⟩
      rintro a member b last rfl
      rw [List.mem_singleton] at last
      exact fresh (last ▸ member)
    · intro s' id
      simp only [HashTable.get?_insert, getElem?_append_singleton]
      split
      -- the new string has the last place, and only it has
      next same =>
        subst same
        constructor
        · intro stored
          cases stored
          exact ⟨n.vec.length, .inr ⟨rfl, rfl⟩, rfl⟩
        · rintro ⟨i, old | ⟨last, -⟩, rfl⟩
          · exact absurd (List.mem_of_getElem? old) fresh
          · rw [last]
      next other => simp [wf.agree, other]

/-- Below 2^32 strings no id stands for two of them. -/
theorem Wf.injective {n : Interner} (wf : n.Wf) (few : n.vec.length ≤ 2 ^ 32) {s s' : String}
    {id : KeyId} (found : n.map.get? s = some id) (found' : n.map.get? s' = some id) : s = s' := by
  obtain ⟨i, here, rfl⟩ := (wf.agree s id).mp found
  obtain ⟨j, there, same⟩ := (wf.agree s' _).mp found'
  have low : i < n.vec.length := (List.getElem?_eq_some_iff.mp here).1
  have low' : j < n.vec.length := (List.getElem?_eq_some_iff.mp there).1
  have ids : i = j := by
    have numbers := congrArg UInt32.toNat same
    simp only [UInt32.toNat_ofNat'] at numbers
    omega
  subst ids
  rw [here] at there
  exact Option.some.inj there

end Interner

end Wrkr.Metrics
