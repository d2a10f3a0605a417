import Mathlib.Data.List.Nodup

/-!
# Tables with the same keys

Two lists of entries agree when they have the same keys and related values under each key. The
order of the entries does not matter.
-/
namespace Wrkr.Lib

variable {κ κ' ν ν' ν'' : Type}

structure Agree (R : ν → ν' → Prop) (es : List (κ × ν)) (es' : List (κ × ν')) : Prop where
  keys (k : κ) : k ∈ es.map Prod.fst ↔ k ∈ es'.map Prod.fst
  values {k : κ} {v : ν} {v' : ν'} : (k, v) ∈ es → (k, v') ∈ es' → R v v'

theorem exists_value {es : List (κ × ν)} {k : κ} (present : k ∈ es.map Prod.fst) :
    ∃ v, (k, v) ∈ es := by
  obtain ⟨⟨k, v⟩, member, rfl⟩ := List.mem_map.mp present
  exact ⟨v, member⟩

/-- With distinct keys, a key has one value. -/
theorem eq_of_mem_of_nodup {es : List (κ × ν)} (distinct : (es.map Prod.fst).Nodup) {k : κ}
    {v v' : ν} (first : (k, v) ∈ es) (second : (k, v') ∈ es) : v = v' := by
  have same : (k, v) = (k, v') := List.inj_on_of_nodup_map distinct first second rfl
  exact congrArg Prod.snd same

namespace Agree

variable {R : ν → ν' → Prop} {es : List (κ × ν)} {es' : List (κ × ν')}

theorem exists_right (agree : Agree R es es') {k : κ} {v : ν} (member : (k, v) ∈ es) :
    ∃ v', (k, v') ∈ es' ∧ R v v' := by
  obtain ⟨v', member'⟩ := exists_value ((agree.keys k).mp (List.mem_map_of_mem member))
  exact ⟨v', member', agree.values member member'⟩

theorem symm {S : ν' → ν → Prop} (agree : Agree R es es') (swap : ∀ v v', R v v' → S v' v) :
    Agree S es' es :=
  ⟨fun k => (agree.keys k).symm, fun member member' => swap _ _ (agree.values member' member)⟩

theorem exists_left (agree : Agree R es es') {k : κ} {v' : ν'} (member : (k, v') ∈ es') :
    ∃ v, (k, v) ∈ es ∧ R v v' :=
  (agree.symm (S := fun v' v => R v v') fun _ _ => id).exists_right member

theorem mono {S : ν → ν' → Prop} (agree : Agree R es es')
    (weaker : ∀ k v v', (k, v) ∈ es → (k, v') ∈ es' → R v v' → S v v') : Agree S es es' :=
  ⟨agree.keys, fun member member' => weaker _ _ _ member member' (agree.values member member')⟩

theorem trans {S : ν' → ν'' → Prop} {es'' : List (κ × ν'')} (first : Agree R es es')
    (second : Agree S es' es'') : Agree (fun v v'' => ∃ v', R v v' ∧ S v' v'') es es'' := by
  refine ⟨fun k => (first.keys k).trans (second.keys k), fun member member'' => ?_⟩
  obtain ⟨v', member', related⟩ := first.exists_right member
  exact ⟨v', related, second.values member' member''⟩

theorem of_perm {R : ν → ν → Prop} {es es' : List (κ × ν)} (distinct : (es.map Prod.fst).Nodup)
    (perm : es'.Perm es) (refl : ∀ v, R v v) : Agree R es es' := by
  refine ⟨fun k => (perm.map Prod.fst).mem_iff.symm, fun member member' => ?_⟩
  rw [eq_of_mem_of_nodup distinct member (perm.mem_iff.mp member')]
  exact refl _

/-- Renaming the keys, as long as no two of them get the same name. -/
theorem mapKeysOn (agree : Agree R es es') {f : κ → κ'}
    (injective : ∀ k ∈ es.map Prod.fst, ∀ k' ∈ es.map Prod.fst, f k = f k' → k = k') :
    Agree R (es.map fun e => (f e.1, e.2)) (es'.map fun e => (f e.1, e.2)) := by
  have keysOf {μ : Type} (fs : List (κ × μ)) :
      (fs.map fun e => (f e.1, e.2)).map Prod.fst = (fs.map Prod.fst).map f := by
    simp [Function.comp_def]
  constructor
  · intro k
    rw [keysOf, keysOf, List.mem_map, List.mem_map]
    simp only [agree.keys]
  · intro k v v' member member'
    obtain ⟨⟨k₁, v₁⟩, inside, here⟩ := List.mem_map.mp member
    obtain ⟨⟨k₂, v₂⟩, inside', here'⟩ := List.mem_map.mp member'
    simp only [Prod.mk.injEq] at here here'
    obtain ⟨rfl, rfl⟩ := here
    obtain ⟨same, rfl⟩ := here'
    have isKey := (agree.keys k₂).mpr (List.mem_map_of_mem inside')
    cases injective _ isKey _ (List.mem_map_of_mem inside) same
    exact agree.values inside inside'

theorem mapKeys (agree : Agree R es es') {f : κ → κ'} (injective : Function.Injective f) :
    Agree R (es.map fun e => (f e.1, e.2)) (es'.map fun e => (f e.1, e.2)) :=
  agree.mapKeysOn fun _ _ _ _ same => injective same

end Agree

end Wrkr.Lib
