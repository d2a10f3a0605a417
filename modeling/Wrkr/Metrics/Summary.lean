import Mathlib.Data.Fintype.Card
import Wrkr.Metrics.Catalog

/-!
# Registry summaries

`Registry::summarize` lists every series of every metric with its strings resolved. A consumer of
the list finds the series of a metric by the name of the metric, which works because a registry
defines no name twice (`Orderly`) and, as long as no id is reused, resolves the ids back to the
strings they were interned from.
-/
namespace Wrkr.Metrics

open Wrkr.Lib

variable {H F : Type} (hdr : HdrHistogram H F) (ratio : UInt64 → UInt64 → F)

/-- The value of a series, by the kind of its metric. -/
inductive MetricValue (F : Type)
  | counter (v : UInt64)
  | gauge (v : Int64)
  | rate (total hits : UInt64) (rate : Option F)
  | histogram (summary : HistogramSummary F)

/-- A series with names for its ids. -/
structure MetricSeriesSummary (F : Type) where
  name : String
  kind : MetricKind
  tags : List (String × String)
  values : MetricValue F

/-- `ratio` is the quotient of two counts as `f64`. -/
def Cell.summarize : Cell H → MetricValue F
  | .counter v => .counter v
  | .gauge v => .gauge v
  | .rate total hits => .rate total hits (if total > 0 then some (ratio hits total) else none)
  | .histogram h => .histogram (summarizeHistogram hdr h)

/-- The tags with their strings; an id without a string becomes the empty one. -/
def Interner.resolveTagSet (n : Interner) (tags : TagSet) : List (String × String) :=
  tags.tags.map fun tag => ((n.resolve tag.1).getD "", (n.resolve tag.2).getD "")

/-- A tag set resolves to the tags it came from. -/
theorem Interner.Ample.resolveTagSet {n : Interner} (ample : n.Ample) {tags : List (String × String)}
    (knows : ∀ tag ∈ tags, n.Knows tag.1 ∧ n.Knows tag.2) :
    (n.resolveTagSet (n.tagSet tags)).Perm tags := by
  have perm := (List.perm_insertionSort TagLe (tags.map n.idsOf)).map
    fun ids => ((n.resolve ids.1).getD "", (n.resolve ids.2).getD "")
  have back : ((tags.map n.idsOf).map
      fun ids => ((n.resolve ids.1).getD "", (n.resolve ids.2).getD "")) = tags := by
    rw [List.map_map]
    conv_rhs => rw [← List.map_id tags]
    apply List.map_congr_left
    intro tag member
    have key := ample.resolve (knows tag member).1.get?
    have value := ample.resolve (knows tag member).2.get?
    simp [Interner.idsOf, key, value]
  rw [back] at perm
  exact perm

namespace Registry

/-- An id without a name would give an empty one. -/
def summarizeSeries (r : Registry H) (metricDef : MetricDef) (series : TagSet × Cell H) :
    MetricSeriesSummary F where
  name := (r.interner.resolve metricDef.name).getD ""
  kind := metricDef.kind
  tags := r.interner.resolveTagSet series.1
  values := series.2.summarize hdr ratio

/-- The series of one entry of the storage. -/
def summarizeMetric (r : Registry H) (metric : MetricId) : List (MetricSeriesSummary F) :=
  match r.defs[metric.toNat]? with
  | none => []
  | some metricDef => (r.visitSeries metric).map (r.summarizeSeries hdr ratio metricDef)

/-- All series of all metrics, sorted by name. The sort is stable. -/
def summarize (r : Registry H) : List (MetricSeriesSummary F) :=
  (r.storage.entries.flatMap fun entry => r.summarizeMetric hdr ratio entry.1).mergeSort
    fun a b => a.name ≤ b.name

/-! ### Orderly registries -/

/-- Definitions have different names, which are interned, and every series map belongs to one. -/
structure Orderly (r : Registry H) : Prop where
  wf : r.Wf
  names : (r.defs.map MetricDef.name).Nodup
  known : ∀ d ∈ r.defs, ∃ s, r.interner.map.get? s = some d.name
  defined : ∀ metric, (r.storage.get? metric).isSome → metric.toNat < r.defs.length

theorem orderly_default : (default : Registry H).Orderly :=
  ⟨wf_default, List.nodup_nil, nofun, by simp [default]⟩

theorem Orderly.withInterner {r : Registry H} (orderly : r.Orderly) {interner : Interner}
    (ext : Interner.Extends r.interner interner) : (r.withInterner interner).Orderly := by
  refine ⟨⟨orderly.wf.valid, orderly.wf.distinct⟩, orderly.names, ?_, orderly.defined⟩
  intro d member
  obtain ⟨s, found⟩ := orderly.known d member
  exact ⟨s, ext s _ found⟩

/-- There are not more names than ids. -/
theorem length_le_of_nodup {ids : List KeyId} (distinct : ids.Nodup) : ids.length ≤ 2 ^ 32 := by
  have numbers : (ids.map fun id => id.toFin).Nodup :=
    distinct.map fun a b same => UInt32.toFin_inj.mp same
  have bound := numbers.length_le_card
  simpa using bound

theorem findIdx?_name_none {defs : List MetricDef} {id : KeyId}
    (absent : (defs.findIdx? fun d => d.name = id) = none) : id ∉ defs.map MetricDef.name := by
  intro member
  obtain ⟨d, inDefs, isName⟩ := List.mem_map.mp member
  have other := List.findIdx?_eq_none_iff.mp absent d inDefs
  simp [isName] at other

/-- The registry with one more definition. -/
def define (r : Registry H) (name : String) (kind : MetricKind) : Registry H :=
  { r with
    interner := (r.interner.getOrIntern name).1
    defs := r.defs ++ [⟨(r.interner.getOrIntern name).2, kind⟩]
    storage := r.storage.insert (UInt32.ofNat r.defs.length) HashTable.empty }

/-- A registration finds the metric or defines it under the next number. -/
theorem register_cases (r : Registry H) (name : String) (kind : MetricKind) :
    (r.register name kind).1 = r.withInterner (r.interner.getOrIntern name).1 ∨
      ((r.interner.getOrIntern name).2 ∉ r.defs.map MetricDef.name ∧
        (r.register name kind).1 = r.define name kind) := by
  rw [register]
  dsimp only
  split
  next => exact .inl rfl
  next absent => exact .inr ⟨findIdx?_name_none absent, rfl⟩

section Define

variable {r : Registry H} (orderly : r.Orderly) {name : String} (kind : MetricKind)
  (new : (r.interner.getOrIntern name).2 ∉ r.defs.map MetricDef.name)

include orderly new

theorem Orderly.names_define : ((r.define name kind).defs.map MetricDef.name).Nodup := by
  rw [define, List.map_append, List.nodup_append]
  refine ⟨orderly.names, List.nodup_singleton _, ?_⟩
  rintro id member _ last rfl
  have isName : id = (r.interner.getOrIntern name).2 := List.mem_singleton.mp last
  exact new (isName ▸ member)

/-- There is always a number left for the next definition. -/
theorem Orderly.room : r.defs.length < 2 ^ 32 := by
  have few := length_le_of_nodup (orderly.names_define .counter new)
  simp only [define, List.length_map, List.length_append, List.length_singleton] at few
  omega

theorem Orderly.get?_define {metric : MetricId} (stored : (r.storage.get? metric).isSome) :
    (r.define name kind).storage.get? metric = r.storage.get? metric := by
  have low := orderly.defined metric stored
  have room := orderly.room new
  have other : metric ≠ UInt32.ofNat r.defs.length := by
    rintro rfl
    rw [UInt32.toNat_ofNat'] at low
    omega
  rw [define, HashTable.get?_insert, if_neg other]

/-- A new definition keeps the registry in order: its number is the next one and its name is new. -/
theorem Orderly.define : (r.define name kind).Orderly := by
  have ext := Interner.getOrIntern_extends r.interner name
  -- the number of a new definition does not wrap
  have room := orderly.room new
  refine ⟨orderly.wf.of_seriesGet rfl ?_, orderly.names_define kind new, ?_, ?_⟩
  · intro metric tags st found
    simp only [seriesGet, Registry.define, HashTable.get?_insert] at found ⊢
    split at found
    · simp at found
    · exact found
  · intro d member
    rcases List.mem_append.mp member with old | last
    · obtain ⟨s, found⟩ := orderly.known d old
      exact ⟨s, ext s _ found⟩
    · rw [List.mem_singleton.mp last]
      exact ⟨name, Interner.getOrIntern_get? r.interner name⟩
  · intro metric stored
    simp only [Registry.define, HashTable.get?_insert, List.length_append,
      List.length_singleton] at stored ⊢
    split at stored
    next same =>
      rw [same, UInt32.toNat_ofNat']
      omega
    next =>
      have bound := orderly.defined metric stored
      omega

end Define

theorem Orderly.register {r : Registry H} (orderly : r.Orderly) (name : String) (kind : MetricKind) :
    (r.register name kind).1.Orderly := by
  rcases r.register_cases name kind with same | ⟨new, same⟩
  · rw [same]
    exact orderly.withInterner (Interner.getOrIntern_extends r.interner name)
  · rw [same]
    exact orderly.define kind new

/-- A registration leaves the metrics there are alone. -/
theorem Tracks.register {r : Registry H} (orderly : r.Orderly) {metric : MetricId}
    {kind : MetricKind} (tracks : r.Tracks metric kind) (name : String) (kind' : MetricKind) :
    (r.register name kind').1.Tracks metric kind ∧
      (r.register name kind').1.visitSeries metric = r.visitSeries metric := by
  rcases r.register_cases name kind' with same | ⟨new, same⟩
  · rw [same]
    exact ⟨⟨⟨tracks.registered.stored, tracks.registered.defined⟩, tracks.typed⟩, rfl⟩
  · rw [same]
    have stored := orderly.get?_define kind' new tracks.registered.stored
    -- the new definition is appended, so the old ones keep their places
    have low := orderly.defined metric tracks.registered.stored
    have visited : (r.define name kind').visitSeries metric = r.visitSeries metric := by
      rw [visitSeries, stored]
      rfl
    refine ⟨⟨⟨stored ▸ tracks.registered.stored, ?_⟩, visited ▸ tracks.typed⟩, visited⟩
    have isKind := tracks.registered.defined
    rw [metricKind] at isKind ⊢
    rwa [Registry.define, List.getElem?_append_left low]

/-- A stored metric is registered. -/
theorem Orderly.registered {r : Registry H} (orderly : r.Orderly) {metric : MetricId}
    (stored : (r.storage.get? metric).isSome) : ∃ kind, r.Registered metric kind := by
  have low := orderly.defined metric stored
  exact ⟨r.defs[metric.toNat].kind, stored, by simp [metricKind, low]⟩

/-- What is recorded on a metric that does not exist is dropped. -/
theorem touch_of_absent {r : Registry H} {metric : MetricId} (absent : r.storage.get? metric = none)
    (tags : TagSet) (op : Cell H → Cell H) : r.touch hdr metric tags op = r := by
  rw [touch, getHandle, absent]

theorem touch_storage {r : Registry H} {metric : MetricId} {kind : MetricKind}
    (registered : r.Registered metric kind) (tags : TagSet) (op : Cell H → Cell H)
    (metric' : MetricId) :
    ((r.touch hdr metric tags op).storage.get? metric').isSome = (r.storage.get? metric').isSome := by
  rcases touch_cases hdr registered tags op with ⟨handle, -, same⟩ | ⟨-, same⟩
  · rw [same]
    rfl
  · rw [same]
    simp only [update, insertSeries, HashTable.get?_insert]
    split
    next here => rw [here, registered.stored]; rfl
    next => rfl

/-- And so does a recording. -/
theorem Orderly.touch {r : Registry H} (orderly : r.Orderly) (metric : MetricId) (tags : TagSet)
    (op : Cell H → Cell H) : (r.touch hdr metric tags op).Orderly := by
  cases stored : r.storage.get? metric with
  | none =>
    rw [touch_of_absent hdr stored]
    exact orderly
  | some series =>
    obtain ⟨kind, registered⟩ := orderly.registered (by simp [stored] : (r.storage.get? metric).isSome)
    refine ⟨orderly.wf.touch hdr registered tags op, ?_, ?_, ?_⟩
    · rw [touch_defs]
      exact orderly.names
    · rw [touch_defs, touch_interner]
      exact orderly.known
    · intro metric' isStored
      rw [touch_storage hdr registered] at isStored
      rw [touch_defs]
      exact orderly.defined metric' isStored

/-- Recording on one metric leaves the others alone. -/
theorem Orderly.visitSeries_touch_of_ne {r : Registry H} (orderly : r.Orderly)
    {metric metric' : MetricId} (other : metric' ≠ metric) (tags : TagSet) (op : Cell H → Cell H) :
    (r.touch hdr metric tags op).visitSeries metric' = r.visitSeries metric' := by
  cases stored : r.storage.get? metric with
  | none => rw [touch_of_absent hdr stored]
  | some series =>
    obtain ⟨kind, registered⟩ := orderly.registered (by simp [stored] : (r.storage.get? metric).isSome)
    rw [visitSeries_touch hdr orderly.wf registered, if_neg other]

/-! ### The series of one name -/

theorem sum_map_flatMap {α β : Type} (g : α → List β) (f : β → Nat) (xs : List α) :
    ((xs.flatMap g).map f).sum = (xs.map fun x => ((g x).map f).sum).sum := by
  induction xs with
  | nil => rfl
  | cons x rest ih => simp [ih]

/-- The metric is defined under the name. -/
structure Defines (r : Registry H) (metric : MetricId) (name : String) (metricDef : MetricDef) :
    Prop where
  stored : (r.storage.get? metric).isSome
  defined : r.defs[metric.toNat]? = some metricDef
  named : r.interner.map.get? name = some metricDef.name

/-- The metrics of a catalogue have their positions as numbers. -/
theorem Catalog.defines {r : Registry H} {metrics : List (String × MetricKind)}
    (catalog : r.Catalog metrics) (few : metrics.length ≤ 2 ^ 32) {i : Nat} {name : String}
    {kind : MetricKind} (here : metrics[i]? = some (name, kind)) :
    r.Defines (UInt32.ofNat i) name ⟨UInt32.ofNat i, kind⟩ := by
  have low : i < metrics.length := (List.getElem?_eq_some_iff.mp here).1
  have number : (UInt32.ofNat i).toNat = i := by
    rw [UInt32.toNat_ofNat']
    omega
  have names := congrArg (fun names => names[i]?) catalog.numbered
  have kinds := congrArg (fun kinds => kinds[i]?) catalog.kinds
  have inDefs : i < r.defs.length := by
    rw [catalog.length_defs]
    exact low
  simp only [List.getElem?_map, inDefs, low, here, getElem?_pos, List.getElem?_range,
    Option.map_some, Option.some.injEq] at names kinds
  refine ⟨by simp [catalog.stored i low], ?_, ?_⟩
  · rw [number, List.getElem?_eq_getElem inDefs, ← names, ← kinds]
  · refine (catalog.interner.agree name _).mpr ⟨i, ?_, rfl⟩
    rw [catalog.names, List.getElem?_map, here]
    rfl

/-- Two metrics do not have one name. -/
theorem Orderly.metric_of_name {r : Registry H} (orderly : r.Orderly) {metric metric' : MetricId}
    {metricDef metricDef' : MetricDef} (defined : r.defs[metric.toNat]? = some metricDef)
    (defined' : r.defs[metric'.toNat]? = some metricDef') (same : metricDef'.name = metricDef.name) :
    metric' = metric := by
  have isName : (r.defs.map MetricDef.name)[metric.toNat]? = some metricDef.name := by
    rw [List.getElem?_map, defined]
    rfl
  have isName' : (r.defs.map MetricDef.name)[metric'.toNat]? = some metricDef.name := by
    rw [List.getElem?_map, defined', ← same]
    rfl
  obtain ⟨low, name⟩ := List.getElem?_eq_some_iff.mp isName
  obtain ⟨low', name'⟩ := List.getElem?_eq_some_iff.mp isName'
  exact UInt32.toNat_inj.mp (orderly.names.getElem_inj_iff.mp (name'.trans name.symm))

/-- What a consumer that asks for one name adds up over the summary. -/
theorem Orderly.sum_summarize {r : Registry H} (orderly : r.Orderly) (ample : r.interner.Ample)
    {metric : MetricId} {name : String} {metricDef : MetricDef}
    (defines : r.Defines metric name metricDef) {f : MetricSeriesSummary F → Nat}
    (ignores : ∀ m, m.name ≠ name → f m = 0) :
    ((r.summarize hdr ratio).map f).sum =
      ((r.visitSeries metric).map fun e => f (r.summarizeSeries hdr ratio metricDef e)).sum := by
  have perm := List.mergeSort_perm
    (r.storage.entries.flatMap fun entry => r.summarizeMetric hdr ratio entry.1)
    (fun a b => decide (a.name ≤ b.name))
  have here : r.summarizeMetric hdr ratio metric =
      (r.visitSeries metric).map (r.summarizeSeries hdr ratio metricDef) := by
    rw [summarizeMetric, defines.defined]
  -- another metric has another name
  have others (metric' : MetricId) (other : metric' ≠ metric) :
      ((r.summarizeMetric hdr ratio metric').map f).sum = 0 := by
    rw [summarizeMetric]
    split
    · rfl
    next metricDef' defined' =>
      apply List.sum_eq_zero
      intro count member
      rw [List.map_map] at member
      obtain ⟨series, -, rfl⟩ := List.mem_map.mp member
      apply ignores
      obtain ⟨s, known⟩ := orderly.known metricDef' (List.mem_of_getElem? defined')
      intro same
      have isName : s = name := by
        rwa [summarizeSeries, ample.resolve known, Option.getD_some] at same
      rw [isName, defines.named] at known
      exact other (orderly.metric_of_name defines.defined defined' (Option.some.inj known).symm)
  rw [summarize, (perm.map f).sum_eq, sum_map_flatMap]
  have single : (r.storage.entries.map fun entry =>
      ((r.summarizeMetric hdr ratio entry.1).map f).sum).sum =
      ((r.storage.get? metric).map fun _ => ((r.summarizeMetric hdr ratio metric).map f).sum).getD 0 :=
    r.storage.sumOf_of_single fun metric' _ => others metric'
  obtain ⟨series, stored⟩ := Option.isSome_iff_exists.mp defines.stored
  rw [single, stored, Option.map_some, Option.getD_some, here, List.map_map]
  rfl

end Registry

end Wrkr.Metrics
