import Wrkr.Metrics.Recordings

/-!
# Registries with nothing but registered metrics

Registering metrics under different names numbers them in order, starting from an empty registry.
-/
namespace Wrkr.Metrics

open Wrkr.Lib

namespace Registry

variable {H : Type}

/-- Exactly these metrics have been registered, in this order, and nothing has been recorded. -/
structure Catalog (r : Registry H) (metrics : List (String × MetricKind)) : Prop where
  interner : r.interner.Wf
  names : r.interner.vec = metrics.map Prod.fst
  numbered : r.defs.map MetricDef.name = (List.range metrics.length).map UInt32.ofNat
  kinds : r.defs.map MetricDef.kind = metrics.map Prod.snd
  stored : ∀ i < metrics.length, r.storage.get? (UInt32.ofNat i) = some HashTable.empty
  wf : r.Wf

theorem catalog_default : (default : Registry H).Catalog [] :=
  ⟨Interner.wf_new, rfl, rfl, rfl, by simp, wf_default⟩

theorem Catalog.length_defs {r : Registry H} {metrics : List (String × MetricKind)}
    (catalog : r.Catalog metrics) : r.defs.length = metrics.length := by
  simpa using congrArg List.length catalog.kinds

theorem ofNat_inj {i j : Nat} (low : i < 2 ^ 32) (low' : j < 2 ^ 32)
    (same : UInt32.ofNat i = UInt32.ofNat j) : i = j := by
  have numbers := congrArg UInt32.toNat same
  simp only [UInt32.toNat_ofNat'] at numbers
  omega

/-- A new name gets the next number. -/
theorem Catalog.register {r : Registry H} {metrics : List (String × MetricKind)}
    (catalog : r.Catalog metrics) (name : String) (kind : MetricKind)
    (new : name ∉ metrics.map Prod.fst) (few : metrics.length < 2 ^ 32) :
    ∃ r', r.register name kind = (r', UInt32.ofNat metrics.length) ∧
      r'.Catalog (metrics ++ [(name, kind)]) := by
  have unknown : r.interner.map.get? name = none := by
    cases found : r.interner.map.get? name with
    | none => rfl
    | some id =>
      obtain ⟨i, here, -⟩ := (catalog.interner.agree name id).mp found
      rw [catalog.names] at here
      exact absurd (List.mem_of_getElem? here) new
  have length : r.interner.vec.length = metrics.length := by rw [catalog.names, List.length_map]
  have interned := Interner.getOrIntern_of_none unknown
  rw [length] at interned
  -- the id of the name is new, and so is in no definition
  have notDefined : (r.defs.findIdx? fun d => d.name = UInt32.ofNat metrics.length) = none := by
    rw [List.findIdx?_eq_none_iff]
    intro d member
    have inNames : d.name ∈ (List.range metrics.length).map UInt32.ofNat := by
      rw [← catalog.numbered]
      exact List.mem_map_of_mem member
    rw [List.mem_map] at inNames
    obtain ⟨i, inRange, isName⟩ := inNames
    rw [List.mem_range] at inRange
    rw [decide_eq_false_iff_not, ← isName]
    intro same
    exact Nat.ne_of_lt inRange (ofNat_inj (by omega) few same)
  have wf := catalog.wf.register name kind
  have wfInterner := catalog.interner.getOrIntern name
  rw [Registry.register, interned] at wf ⊢
  rw [interned] at wfInterner
  simp only [notDefined, catalog.length_defs] at wf ⊢
  refine ⟨_, rfl, wfInterner, ?_, ?_, ?_, ?_, wf⟩
  · simp [catalog.names]
  · simp [catalog.numbered, List.range_succ]
  · simp [catalog.kinds]
  · intro i low
    simp only [List.length_append, List.length_singleton] at low
    rw [HashTable.get?_insert]
    split
    · rfl
    -- the earlier metrics keep their storage
    next other =>
      apply catalog.stored i
      have notLast : i ≠ metrics.length := by
        rintro rfl
        exact other rfl
      omega

/-- A catalogued metric is found by its name as long as the definitions stay the same. -/
theorem Catalog.lookupMetric {r r' : Registry H} {metrics : List (String × MetricKind)}
    (catalog : r.Catalog metrics) (few : metrics.length ≤ 2 ^ 32) (defs : r'.defs = r.defs)
    (ext : Interner.Extends r.interner r'.interner) {i : Nat} {name : String} {kind : MetricKind}
    (here : metrics[i]? = some (name, kind)) :
    (r'.lookupMetric name).2 = some (UInt32.ofNat i, kind) := by
  have low : i < metrics.length := (List.getElem?_eq_some_iff.mp here).1
  have inVec : r.interner.vec[i]? = some name := by rw [catalog.names, List.getElem?_map, here]; rfl
  have known := ext name _ ((catalog.interner.agree name _).mpr ⟨i, inVec, rfl⟩)
  have names (j : Nat) (inDefs : j < r.defs.length) : r.defs[j].name = UInt32.ofNat j := by
    have same := congrArg (fun names => names[j]?) catalog.numbered
    rw [catalog.length_defs] at inDefs
    simpa [catalog.length_defs, inDefs] using same
  have inDefs : i < r.defs.length := by rw [catalog.length_defs]; exact low
  -- the names are numbered in the order of the definitions, so the first hit is the `i`-th
  have found : (r.defs.findIdx? fun d => d.name = UInt32.ofNat i) = some i := by
    rw [List.findIdx?_eq_some_iff_getElem]
    refine ⟨inDefs, by simp [names i inDefs], fun j before => ?_⟩
    rw [names j (by omega), decide_eq_true_eq]
    rw [catalog.length_defs] at inDefs
    intro same
    exact Nat.ne_of_lt before (ofNat_inj (by omega) (by omega) same)
  have kinds : r.defs[i].kind = kind := by
    have same := congrArg (fun kinds => kinds[i]?) catalog.kinds
    simpa [inDefs, here] using same
  rw [Registry.lookupMetric, Interner.getOrIntern_of_some known]
  simp [defs, found, inDefs, kinds]

/-- A catalogued metric can be recorded on and has no series yet. -/
theorem Catalog.tracks {r : Registry H} {metrics : List (String × MetricKind)}
    (catalog : r.Catalog metrics) (few : metrics.length ≤ 2 ^ 32) {i : Nat} {name : String}
    {kind : MetricKind} (here : metrics[i]? = some (name, kind)) :
    r.Tracks (UInt32.ofNat i) kind ∧ r.visitSeries (UInt32.ofNat i) = [] := by
  have low : i < metrics.length := (List.getElem?_eq_some_iff.mp here).1
  have empty : r.visitSeries (UInt32.ofNat i) = [] := by
    rw [visitSeries_of_some (catalog.stored i low)]
    rfl
  have number : (UInt32.ofNat i).toNat = i := by
    rw [UInt32.toNat_ofNat']
    omega
  refine ⟨⟨⟨by simp [catalog.stored i low], ?_⟩, by simp [empty]⟩, empty⟩
  rw [metricKind, number, ← List.getElem?_map, catalog.kinds, List.getElem?_map, here]
  rfl

end Registry

end Wrkr.Metrics
