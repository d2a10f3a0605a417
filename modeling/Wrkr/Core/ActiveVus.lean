import Wrkr.Core.Accounting
import Wrkr.Core.RunScenarios
import Wrkr.Lib.HighWater
import Wrkr.Lib.Saturating
import Wrkr.Metrics.Definitions

/-!
# Active VUs

`enter_active_vu` registers two gauges, counts the VU in the first and raises the second to the
count; the guard it returns takes the VU out again when it is dropped. One step of the machine is
one access to the registry. On the values of the two gauges these steps are those of
`HighWater`, whose results are therefore results about the gauges.
-/
namespace Wrkr.Core

open Wrkr.Lib Wrkr.Metrics

/-- `i64::saturating_add`. -/
def saturatingAddI64 (a b : Int64) : Int64 := Int64.ofInt (saturate 64 (a.toInt + b.toInt))

namespace ActiveVus

/-- What the guard keeps, and the id of the other gauge. -/
structure Ids where
  active : MetricId
  peak : MetricId
  tags : TagSet
  deriving DecidableEq

/-- A VU: the accesses of `enter_active_vu`, the guard, and the two of its drop. -/
inductive Pc
  | outside
  | namedActive (name : KeyId)
  | hasActive (active : MetricId)
  | namedPeak (active : MetricId) (name : KeyId)
  | hasPeak (active peak : MetricId)
  | hasKey (active peak : MetricId) (key : KeyId)
  | resolved (ids : Ids)
  | holding (ids : Ids) (g : MetricHandle)
  | counted (ids : Ids) (newActive : Int64)
  | publishing (ids : Ids) (newActive : Int64) (peak : MetricHandle)
  | comparing (ids : Ids) (newActive : Int64) (peak : MetricHandle) (cur : Int64)
  | entered (ids : Ids)
  | leaving (ids : Ids) (g : MetricHandle)
  deriving DecidableEq

variable {ι H F : Type}

/-- The registry that the VUs share, and where each of them is. -/
structure State (ι H : Type) where
  registry : Registry H
  pc : ι → Pc
  /-- Ghost: the largest value that `vu_active` has had. -/
  highest : Int

/-- The gauge that a handle of the variant `Gauge` points to. -/
def loadGauge (r : Registry H) (handle : MetricHandle) : Option Int64 :=
  r.heap[handle.cell]?.bind Cell.gauge?

/-- What the registry reports of a gauge for the scenario; without a series this is 0. -/
def value (r : Registry H) (scenario name : String) : Int :=
  (((r.metricNamed name).bind fun metric =>
    r.series metric (r.interner.tagSet [("scenario", scenario)])).bind Cell.gauge?).elim 0 Int64.toInt

variable [DecidableEq ι] (hdr : HdrHistogram H F) (scenario : String)

/-- A step of VU `i`, and whether a weak compare-exchange fails spuriously in it. -/
def vuStep (s : State ι H) : ι × Bool → Option (State ι H)
  | (i, spurious) =>
    let goto (r : Registry H) (pc : Pc) : State ι H :=
      ⟨r, Function.update s.pc i pc, max s.highest (value r scenario "vu_active")⟩
    let r := s.registry
    match s.pc i with
    -- `register("vu_active", MetricKind::Gauge)`
    | .outside =>
      let (r, name) := r.resolveKey "vu_active"
      some (goto r (.namedActive name))
    | .namedActive name =>
      let (r, active) := r.defineId name .gauge
      some (goto r (.hasActive active))
    -- `register("vu_active_max", MetricKind::Gauge)`
    | .hasActive active =>
      let (r, name) := r.resolveKey "vu_active_max"
      some (goto r (.namedPeak active name))
    | .namedPeak active name =>
      let (r, peak) := r.defineId name .gauge
      some (goto r (.hasPeak active peak))
    -- `resolve_tags(&[("scenario", ..)])`
    | .hasPeak active peak =>
      let (r, key) := r.resolveKey "scenario"
      some (goto r (.hasKey active peak key))
    | .hasKey active peak key =>
      let (r, tag) := r.resolveKey scenario
      some (goto r (.resolved ⟨active, peak, .fromSortedIter ([(key, tag)].insertionSort TagLe)⟩))
    | .resolved ids =>
      match r.getHandle hdr ids.active ids.tags with
      | (r, some g) => some (goto r (if (loadGauge r g).isSome then .holding ids g else .entered ids))
      | (r, none) => some (goto r (.entered ids))
    | .holding ids g =>
      (loadGauge r g).map fun v => goto (r.update g (Cell.gaugeAdd 1)) (.counted ids (saturatingAddI64 v 1))
    | .counted ids newActive =>
      match r.getHandle hdr ids.peak ids.tags with
      | (r, some peak) =>
        some (goto r (if (loadGauge r peak).isSome then .publishing ids newActive peak else .entered ids))
      | (r, none) => some (goto r (.entered ids))
    | .publishing ids newActive peak =>
      (loadGauge r peak).map fun cur => goto r (.comparing ids newActive peak cur)
    | .comparing ids newActive peak cur =>
      if newActive ≤ cur then some (goto r (.entered ids))
      else
        -- `compare_exchange_weak`
        (loadGauge r peak).map fun observed =>
          if observed = cur ∧ ¬spurious then
            goto (r.update peak (Cell.gaugeStore newActive)) (.entered ids)
          else goto r (.comparing ids newActive peak observed)
    -- the guard is dropped
    | .entered ids =>
      match r.getHandle hdr ids.active ids.tags with
      | (r, some g) => some (goto r (if (loadGauge r g).isSome then .leaving ids g else .outside))
      | (r, none) => some (goto r .outside)
    | .leaving _ g =>
      (loadGauge r g).map fun _ => goto (r.update g (Cell.gaugeSub 1)) .outside

/-- All VUs of a scenario, from the registry of `RunScenariosContext::new` on. -/
def machine (ι : Type) [DecidableEq ι] : Machine (State ι H) (ι × Bool) where
  init s := s = ⟨(Accounting.registerMetrics .default).1, fun _ => .outside, 0⟩
  step := vuStep hdr scenario

/-! ### The registry -/

section Registry

variable {scenario} {r r' : Registry H}

/-- Both gauges and the tags of the scenario are known, and these are their ids. -/
structure Prepared (scenario : String) (r : Registry H) (ids : Ids) : Prop where
  active : r.metricNamed "vu_active" = some ids.active
  peak : r.metricNamed "vu_active_max" = some ids.peak
  key : r.interner.Knows "scenario"
  tag : r.interner.Knows scenario
  tags : ids.tags = r.interner.tagSet [("scenario", scenario)]

theorem tagSet_eq (grows : r.Grows r') (key : r.interner.Knows "scenario")
    (tag : r.interner.Knows scenario) :
    r'.interner.tagSet [("scenario", scenario)] = r.interner.tagSet [("scenario", scenario)] := by
  simp only [Interner.tagSet, List.map_cons, Interner.idsOf, grows.interner.idOf_eq key,
    grows.interner.idOf_eq tag, List.map_nil]

theorem Prepared.grows {ids : Ids} (prepared : Prepared scenario r ids) (grows : r.Grows r') :
    Prepared scenario r' ids where
  active := grows.metricNamed prepared.active
  peak := grows.metricNamed prepared.peak
  key := grows.interner.knows prepared.key
  tag := grows.interner.knows prepared.tag
  tags := prepared.tags.trans (tagSet_eq grows prepared.key prepared.tag).symm

/-- The two gauges that `ActiveVuGuard` keeps. -/
def gaugeNames : List String := ["vu_active", "vu_active_max"]

/-- All strings that are ever interned. -/
def strings (scenario : String) : List String :=
  Accounting.runMetrics.map Prod.fst ++ gaugeNames ++ ["scenario", scenario]

/-- Of the registry only this matters: its strings are those of a run of the scenario, the two names
belong to gauges, and their series were opened by VUs that are entering. -/
structure RegistryOk (scenario : String) (r : Registry H) : Prop where
  defined : r.Defined
  within : r.interner.vec ⊆ strings scenario
  gauges : ∀ name ∈ gaugeNames, ∀ metric, r.metricNamed name = some metric →
    r.metricKind metric = some .gauge
  /-- A series is opened by a VU that has prepared everything. -/
  prepared : ∀ metric tags st, r.seriesGet metric tags = some st →
    ∃ ids, Prepared scenario r ids

theorem ample_of_within (wf : r.interner.Wf) (within : r.interner.vec ⊆ strings scenario) :
    r.interner.Ample := by
  refine ⟨wf, (List.subperm_of_subset wf.nodup within).length_le.trans ?_⟩
  simp [strings, Accounting.runMetrics, gaugeNames]

theorem RegistryOk.ample (ok : RegistryOk scenario r) : r.interner.Ample :=
  ample_of_within ok.defined.interner ok.within

/-- What is found under the name of a gauge is registered as one. -/
theorem RegistryOk.registered (ok : RegistryOk scenario r) {name : String}
    (gauge : name ∈ gaugeNames) {metric : MetricId} (found : r.metricNamed name = some metric) :
    r.Registered metric .gauge := by
  obtain ⟨nameId, -, isMetric⟩ := Option.bind_eq_some_iff.mp found
  obtain ⟨kind, registered⟩ := ok.defined.registered isMetric
  have kinds := ok.gauges name gauge metric found
  rw [registered.defined] at kinds
  cases kinds
  exact registered

/-- The two gauges are different metrics. -/
theorem RegistryOk.active_ne_peak (ok : RegistryOk scenario r) {ids : Ids}
    (prepared : Prepared scenario r ids) : ids.active ≠ ids.peak := by
  intro same
  obtain ⟨id, known, active⟩ := Option.bind_eq_some_iff.mp prepared.active
  obtain ⟨id', known', peak⟩ := Option.bind_eq_some_iff.mp prepared.peak
  rw [same] at active
  rw [ok.defined.find_inj active peak] at known
  have names := ok.ample.wf.injective ok.ample.few known known'
  simp at names

/-- Interning one of the strings of the scenario. -/
theorem RegistryOk.resolveKey (ok : RegistryOk scenario r) {key : String}
    (listed : key ∈ strings scenario) : RegistryOk scenario (r.resolveKey key).1 := by
  have grows := Registry.grows_resolveKey r key
  have within : (r.resolveKey key).1.interner.vec ⊆ strings scenario := by
    change (r.interner.getOrIntern key).1.vec ⊆ _
    -- the interner gets the string once, and it is one of the few that a scenario uses
    rw [ok.defined.interner.vec_getOrIntern, Interner.appendNew]
    split
    · exact ok.within
    · exact List.append_subset.mpr ⟨ok.within, List.cons_subset.mpr ⟨listed, List.nil_subset _⟩⟩
  have defined := ok.defined.resolveKey key
  refine ⟨defined, within, ?_, ?_⟩
  · intro name gauge metric found
    rw [ok.defined.metricNamed_resolveKey key (ample_of_within defined.interner within)] at found
    exact ok.gauges name gauge metric found
  · intro metric tags st found
    obtain ⟨ids, prepared⟩ := ok.prepared metric tags st found
    exact ⟨ids, prepared.grows grows⟩

/-- Registering one of the two gauges. -/
theorem RegistryOk.defineId (ok : RegistryOk scenario r) {name : String} {nameId : KeyId}
    (named : r.interner.map.get? name = some nameId) :
    RegistryOk scenario (r.defineId nameId .gauge).1 := by
  have grows := ok.defined.grows_defineId nameId .gauge
  refine ⟨ok.defined.defineId named .gauge, ?_, ?_, ?_⟩
  · rw [Registry.interner_defineId]
    exact ok.within
  · intro other gauge metric found
    cases before : r.metricNamed other with
    | some old =>
      rw [grows.metricNamed before] at found
      cases found
      exact grows.metricKind (ok.gauges other gauge _ before)
    | none =>
      -- the name is the one that has just been defined, as a gauge
      obtain ⟨id, known, isMetric⟩ := Option.bind_eq_some_iff.mp found
      rw [Registry.interner_defineId] at known
      rw [Registry.metricNamed, known, Option.bind_some] at before
      by_cases same : id = nameId
      · subst same
        rw [Registry.find_defineId id .gauge] at isMetric
        cases isMetric
        exact ok.defined.metricKind_defineId before .gauge
      · rw [Registry.find_defineId_of_ne same .gauge, before] at isMetric
        cases isMetric
  · intro metric tags st found
    rw [ok.defined.seriesGet_defineId] at found
    obtain ⟨ids, prepared⟩ := ok.prepared metric tags st found
    exact ⟨ids, prepared.grows grows⟩

/-- A change of the series only. -/
theorem RegistryOk.grow (ok : RegistryOk scenario r) (grows : r.Grows r') (defined : r'.Defined)
    (interner : r'.interner = r.interner) (defs : r'.defs = r.defs)
    (prepared : ∃ ids, Prepared scenario r ids) : RegistryOk scenario r' := by
  refine ⟨defined, interner ▸ ok.within, ?_, fun _ _ _ _ => ?_⟩
  · intro name gauge metric found
    have same : r'.metricNamed name = r.metricNamed name := by
      have finds : r'.find = r.find := by
        funext nameId
        rw [Registry.find, Registry.find, defs]
      rw [Registry.metricNamed, Registry.metricNamed, interner, finds]
    exact grows.metricKind (ok.gauges name gauge metric (same ▸ found))
  · obtain ⟨ids, prepared⟩ := prepared
    exact ⟨ids, prepared.grows grows⟩

/-! ### Values -/

/-- The value of a gauge whose cell is known. -/
theorem value_eq {name : String} {metric : MetricId} (found : r.metricNamed name = some metric)
    {cell : Option (Cell H)}
    (series : r.series metric (r.interner.tagSet [("scenario", scenario)]) = cell) :
    value r scenario name = (cell.bind Cell.gauge?).elim 0 Int64.toInt := by
  rw [value, found, Option.bind_some, series]

/-- Without any series all values are 0. -/
theorem value_eq_zero (empty : ∀ metric tags, r.series metric tags = none) (name : String) :
    value r scenario name = 0 := by
  simp [value, empty]

/-- While nothing is opened and no cell changes, neither does a value. -/
theorem RegistryOk.value_eq_of_series (ok : RegistryOk scenario r) (grows : r.Grows r')
    (series : ∀ metric tags, r'.series metric tags = r.series metric tags) {name : String}
    (gauge : name ∈ gaugeNames) : value r' scenario name = value r scenario name := by
  -- with no series at all both values are 0, whatever the keys of the tag set
  by_cases opened : ∃ metric tags st, r.seriesGet metric tags = some st
  · obtain ⟨metric, tags, st, found⟩ := opened
    obtain ⟨ids, prepared⟩ := ok.prepared metric tags st found
    obtain ⟨metric, named⟩ : ∃ metric, r.metricNamed name = some metric := by
      rcases List.mem_pair.mp gauge with rfl | rfl
      · exact ⟨_, prepared.active⟩
      · exact ⟨_, prepared.peak⟩
    rw [value_eq named rfl, value_eq (grows.metricNamed named) (series _ _),
      tagSet_eq grows prepared.key prepared.tag]
  · have empty (metric : MetricId) (tags : TagSet) : r.series metric tags = none := by
      rw [Registry.series]
      cases found : r.seriesGet metric tags with
      | none => rfl
      | some st => exact absurd ⟨metric, tags, st, found⟩ opened
    rw [value_eq_zero empty, value_eq_zero fun metric tags => (series metric tags).trans
      (empty metric tags)]

/-- The handle of a gauge: opening a series does not change any value, as a new gauge is 0. -/
theorem RegistryOk.getHandle (hdr : HdrHistogram H F) (ok : RegistryOk scenario r) {ids : Ids}
    (prepared : Prepared scenario r ids) {name : String} (gauge : name ∈ gaugeNames)
    {metric : MetricId} (named : r.metricNamed name = some metric) :
    ∃ r' handle, r.getHandle hdr metric ids.tags = (r', some handle) ∧ RegistryOk scenario r' ∧
      r.Grows r' ∧ r'.seriesGet metric ids.tags = some handle ∧ (loadGauge r' handle).isSome ∧
      ∀ name ∈ gaugeNames, value r' scenario name = value r scenario name := by
  have registered := ok.registered gauge named
  obtain ⟨r', handle, got, defined, grows, interner, defs, here, series, others⟩ :=
    ok.defined.getHandle hdr registered ids.tags
  have ok' := ok.grow grows defined interner defs ⟨ids, prepared⟩
  -- a cell has the kind that its metric is registered with
  have kind : ((r.series metric ids.tags).getD (Cell.new hdr .gauge)).kind = .gauge := by
    have kinds := defined.kinds metric ids.tags _ series
    rw [grows.metricKind registered.defined] at kinds
    exact (Option.some.inj kinds).symm
  obtain ⟨v, isGauge⟩ : ∃ v, (r.series metric ids.tags).getD (Cell.new hdr .gauge) = .gauge v := by
    cases cell : (r.series metric ids.tags).getD (Cell.new hdr .gauge) <;>
      simp_all [Cell.kind]
  refine ⟨r', handle, got, ok', grows, here, ?_, ?_⟩
  · rw [Registry.series, here, Option.bind_some] at series
    rw [loadGauge, series, isGauge]
    rfl
  · intro other other_gauge
    obtain ⟨metric', named'⟩ : ∃ metric', r.metricNamed other = some metric' := by
      rcases List.mem_pair.mp other_gauge with rfl | rfl
      · exact ⟨_, prepared.active⟩
      · exact ⟨_, prepared.peak⟩
    have tags := tagSet_eq grows prepared.key prepared.tag
    rw [value_eq named' rfl, value_eq (grows.metricNamed named') rfl, tags, ← prepared.tags]
    -- the series itself is the old cell or a new gauge, the other series are as they were
    by_cases same : metric' = metric
    · rw [same, series]
      cases r.series metric ids.tags with
      | none => rfl
      | some cell => rfl
    · rw [others metric' ids.tags fun both => same both.1]

/-- The load through a handle is the value of its gauge. -/
theorem value_of_load {ids : Ids} (prepared : Prepared scenario r ids) {name : String}
    {metric : MetricId} (named : r.metricNamed name = some metric) {handle : MetricHandle}
    (here : r.seriesGet metric ids.tags = some handle) {v : Int64}
    (loaded : loadGauge r handle = some v) : value r scenario name = v.toInt := by
  have series : r.series metric (r.interner.tagSet [("scenario", scenario)]) =
      r.heap[handle.cell]? := by
    rw [← prepared.tags, Registry.series, here, Option.bind_some]
  rw [value_eq named series]
  change (loadGauge r handle).elim _ _ = _
  rw [loaded]
  rfl

/-- An operation on a gauge changes the value of that gauge and not of the other. -/
theorem RegistryOk.update (ok : RegistryOk scenario r) {ids : Ids}
    (prepared : Prepared scenario r ids) {name other : String} {metric metric' : MetricId}
    (named : r.metricNamed name = some metric) (named' : r.metricNamed other = some metric')
    (ne : metric' ≠ metric) {handle : MetricHandle}
    (here : r.seriesGet metric ids.tags = some handle) {v v' : Int64}
    (loaded : loadGauge r handle = some v) {op : Cell H → Cell H}
    (kind : ∀ cell, (op cell).kind = cell.kind) (result : op (.gauge v) = .gauge v') :
    RegistryOk scenario (r.update handle op) ∧ r.Grows (r.update handle op) ∧
      value (r.update handle op) scenario name = v'.toInt ∧
      value (r.update handle op) scenario other = value r scenario other := by
  have grows := Registry.grows_update r handle op
  -- a load is only possible from a gauge
  have cell : r.heap[handle.cell]? = some (.gauge v) := by
    simp only [loadGauge, Option.bind_eq_some_iff] at loaded
    obtain ⟨cell, at_cell, isGauge⟩ := loaded
    cases cell with
    | gauge w =>
      cases isGauge
      exact at_cell
    | counter _ => cases isGauge
    | rate _ _ => cases isGauge
    | histogram _ => cases isGauge
  refine ⟨ok.grow grows (ok.defined.update here kind) rfl rfl ⟨ids, prepared⟩, grows, ?_, ?_⟩
  · have after : loadGauge (r.update handle op) handle = some v' := by
      rw [loadGauge, Registry.update, List.getElem?_modify_eq, cell]
      change (some (op (.gauge v))).bind Cell.gauge? = some v'
      rw [result]
      rfl
    exact value_of_load (prepared.grows grows) named here after
  · have apart := Registry.series_update_of_ne ok.defined.wf here op
      (m := metric') (t := ids.tags) fun both => ne both.1
    rw [value_eq named' rfl, value_eq (grows.metricNamed named') rfl,
      tagSet_eq grows prepared.key prepared.tag, ← prepared.tags, apart]

/-- What a VU knows at its place. -/
def Pc.Ok (scenario : String) (r : Registry H) : Pc → Prop
  | .outside => True
  | .namedActive name => r.interner.map.get? "vu_active" = some name
  | .hasActive active => r.metricNamed "vu_active" = some active
  | .namedPeak active name =>
    r.metricNamed "vu_active" = some active ∧ r.interner.map.get? "vu_active_max" = some name
  | .hasPeak active peak =>
    r.metricNamed "vu_active" = some active ∧ r.metricNamed "vu_active_max" = some peak
  | .hasKey active peak key =>
    r.metricNamed "vu_active" = some active ∧ r.metricNamed "vu_active_max" = some peak ∧
      r.interner.map.get? "scenario" = some key
  | .resolved ids | .counted ids _ | .entered ids => Prepared scenario r ids
  | .holding ids g | .leaving ids g =>
    Prepared scenario r ids ∧ r.seriesGet ids.active ids.tags = some g
  | .publishing ids _ peak | .comparing ids _ peak _ =>
    Prepared scenario r ids ∧ r.seriesGet ids.peak ids.tags = some peak

/-- Nothing that is known is ever taken back. -/
theorem Pc.Ok.grows {pc : Pc} (ok : pc.Ok scenario r) (grows : r.Grows r') :
    pc.Ok scenario r' := by
  cases pc with
  | outside => trivial
  | namedActive name => exact grows.interner _ _ ok
  | hasActive active => exact grows.metricNamed ok
  | namedPeak active name => exact ⟨grows.metricNamed ok.1, grows.interner _ _ ok.2⟩
  | hasPeak active peak => exact ⟨grows.metricNamed ok.1, grows.metricNamed ok.2⟩
  | hasKey active peak key =>
    exact ⟨grows.metricNamed ok.1, grows.metricNamed ok.2.1, grows.interner _ _ ok.2.2⟩
  | resolved ids => exact Prepared.grows ok grows
  | counted ids newActive => exact Prepared.grows ok grows
  | entered ids => exact Prepared.grows ok grows
  | holding ids g => exact ⟨ok.1.grows grows, grows.series _ _ _ ok.2⟩
  | leaving ids g => exact ⟨ok.1.grows grows, grows.series _ _ _ ok.2⟩
  | publishing ids newActive peak => exact ⟨ok.1.grows grows, grows.series _ _ _ ok.2⟩
  | comparing ids newActive peak cur => exact ⟨ok.1.grows grows, grows.series _ _ _ ok.2⟩

end Registry

/-! ### The abstract machine -/

/-- Where the VU is for the abstract counter with its high-water mark: before it has counted itself
it is outside. -/
def Pc.abs : Pc → HighWater.Pc
  | .counted _ newActive | .publishing _ newActive _ => .counted newActive.toInt
  | .comparing _ newActive _ cur => .comparing newActive.toInt cur.toInt
  | .entered _ | .leaving _ _ => .inside
  | .outside | .namedActive _ | .hasActive _ | .namedPeak _ _ | .hasPeak _ _ | .hasKey _ _ _
  | .resolved _ | .holding _ _ => .outside

/-- The values of the two gauges, and where each VU is between them. -/
def State.abs (s : State ι H) : HighWater.State ι :=
  ⟨value s.registry scenario "vu_active", value s.registry scenario "vu_active_max", s.highest,
    fun i => (s.pc i).abs⟩

/-- The registry and what every VU knows of it. -/
structure Inv (scenario : String) (s : State ι H) : Prop where
  registry : RegistryOk scenario s.registry
  ok : ∀ i, (s.pc i).Ok scenario s.registry

variable {hdr scenario} in
/-- A VU goes on, with a registry that grows. -/
theorem Inv.goto {s : State ι H} (inv : Inv scenario s) {r : Registry H} (i : ι) {pc : Pc}
    (highest : Int) (registry : RegistryOk scenario r) (grows : s.registry.Grows r)
    (ok : pc.Ok scenario r) :
    Inv scenario ⟨r, Function.update s.pc i pc, highest⟩ := by
  refine ⟨registry, fun j => ?_⟩
  by_cases same : j = i
  · simpa [same] using ok
  · simpa [same] using (inv.ok j).grows grows

theorem abs_update (pc : ι → Pc) (i : ι) (pc' : Pc) :
    (fun j => (Function.update pc i pc' j).abs) =
      Function.update (fun j => (pc j).abs) i pc'.abs := by
  funext j
  by_cases same : j = i
  · subst same
    simp
  · simp [same]

/-- A step that changes no value, and nothing about the VU that the abstract machine sees. -/
theorem abs_stutter {s : State ι H} {r : Registry H} {i : ι} {pc : Pc} (seen : pc.abs = (s.pc i).abs)
    (values : ∀ name ∈ gaugeNames, value r scenario name = value s.registry scenario name)
    (high : value s.registry scenario "vu_active" ≤ s.highest) :
    State.abs scenario ⟨r, Function.update s.pc i pc,
      max s.highest (value r scenario "vu_active")⟩ = s.abs scenario := by
  rw [State.abs, State.abs, abs_update, seen, values _ (by simp [gaugeNames]),
    values _ (by simp [gaugeNames]), max_eq_left high, Function.update_eq_self]

theorem int64_add_one {v : Int64} (low : 0 ≤ v.toInt) (high : v.toInt + 1 < 2 ^ 63) :
    (v + 1).toInt = v.toInt + 1 ∧ (saturatingAddI64 v 1).toInt = v.toInt + 1 := by
  have one : (1 : Int64).toInt = 1 := rfl
  constructor
  · rw [Int64.toInt_add, one]
    exact Int.bmod_eq_of_le (by omega) (by omega)
  · rw [saturatingAddI64, one, saturate_eq (by omega) (by omega),
      Int64.toInt_ofInt_of_le (by omega) high]

theorem int64_sub_one {v : Int64} (low : 0 ≤ v.toInt) : (v - 1).toInt = v.toInt - 1 := by
  have one : (1 : Int64).toInt = 1 := rfl
  have high := v.toInt_lt
  rw [Int64.toInt_sub, one]
  exact Int.bmod_eq_of_le (by omega) (by omega)

variable [Fintype ι] {hdr scenario}

/-- A step of the code that is a step of the abstract machine, or none. -/
def Simulated (scenario : String) (s s' : State ι H) : Prop :=
  Inv scenario s' ∧ (s'.abs scenario = s.abs scenario ∨
    ∃ b, (HighWater.machine ι).step (s.abs scenario) b = some (s'.abs scenario))

/-- The state in which VU `i` has gone on to `pc`. -/
def State.goto (scenario : String) (s : State ι H) (i : ι) (r : Registry H) (pc : Pc) : State ι H :=
  ⟨r, Function.update s.pc i pc, max s.highest (value r scenario "vu_active")⟩

section Simulation

variable {s : State ι H} (inv : Inv scenario s)
  (reached : (HighWater.machine ι).Reachable (s.abs scenario)) {i : ι} {pc : Pc}

include inv reached

/-- The VU goes on without a step of the abstract machine. -/
theorem simulated_stay {r : Registry H} (seen : pc.abs = (s.pc i).abs)
    (registry : RegistryOk scenario r) (grows : s.registry.Grows r)
    (values : ∀ name ∈ gaugeNames, value r scenario name = value s.registry scenario name)
    (ok : pc.Ok scenario r) : Simulated scenario s (s.goto scenario i r pc) :=
  ⟨inv.goto i _ registry grows ok,
    .inl (abs_stutter scenario seen values (HighWater.inv_reachable reached).level_le)⟩

theorem simulated_resolveKey {key : String} (listed : key ∈ strings scenario)
    (seen : pc.abs = (s.pc i).abs) (ok : pc.Ok scenario (s.registry.resolveKey key).1) :
    Simulated scenario s (s.goto scenario i (s.registry.resolveKey key).1 pc) := by
  have grows := Registry.grows_resolveKey s.registry key
  exact simulated_stay inv reached seen (inv.registry.resolveKey listed) grows
    (fun _ => inv.registry.value_eq_of_series grows fun _ _ => rfl) ok

/-- Registering a gauge is no step of the abstract counter. -/
theorem simulated_defineId {name : String} {nameId : KeyId}
    (named : s.registry.interner.map.get? name = some nameId) (seen : pc.abs = (s.pc i).abs)
    (ok : s.registry.Grows (s.registry.defineId nameId .gauge).1 →
      (s.registry.defineId nameId .gauge).1.metricNamed name =
        some (s.registry.defineId nameId .gauge).2 →
      pc.Ok scenario (s.registry.defineId nameId .gauge).1) :
    Simulated scenario s (s.goto scenario i (s.registry.defineId nameId .gauge).1 pc) := by
  have grows := inv.registry.defined.grows_defineId nameId .gauge
  -- what was defined is found under its name from now on
  have defined : (s.registry.defineId nameId .gauge).1.metricNamed name =
      some (s.registry.defineId nameId .gauge).2 :=
    Option.bind_eq_some_iff.mpr
      ⟨nameId, grows.interner _ _ named, Registry.find_defineId nameId .gauge⟩
  exact simulated_stay inv reached seen (inv.registry.defineId named) grows
    (fun _ => inv.registry.value_eq_of_series grows
      (inv.registry.defined.series_defineId nameId .gauge)) (ok grows defined)

/-- The handle of a gauge is found, and it loads. -/
theorem simulated_getHandle (hdr : HdrHistogram H F) {ids : Ids}
    (prepared : Prepared scenario s.registry ids) {name : String} (gauge : name ∈ gaugeNames)
    {metric : MetricId} (named : s.registry.metricNamed name = some metric)
    {next : MetricHandle → Pc} (seen : ∀ g, (next g).abs = (s.pc i).abs)
    (ok : ∀ (r' : Registry H) g, Prepared scenario r' ids → r'.seriesGet metric ids.tags = some g →
      (next g).Ok scenario r') :
    ∃ r' g, s.registry.getHandle hdr metric ids.tags = (r', some g) ∧ (loadGauge r' g).isSome ∧
      Simulated scenario s (s.goto scenario i r' (next g)) := by
  obtain ⟨r', g, got, registry', grows, opened, loads, values⟩ :=
    inv.registry.getHandle hdr prepared gauge named
  exact ⟨r', g, got, loads, simulated_stay inv reached (seen g) registry' grows values
    (ok r' g (prepared.grows grows) opened)⟩

/-- The VU counts itself. -/
theorem simulated_holding (few : Fintype.card ι < 2 ^ 63) {ids : Ids} {g : MetricHandle}
    (holding : s.pc i = .holding ids g) {v : Int64} (loaded : loadGauge s.registry g = some v) :
    Simulated scenario s (s.goto scenario i (s.registry.update g (Cell.gaugeAdd 1))
      (.counted ids (saturatingAddI64 v 1))) := by
  obtain ⟨prepared, opened⟩ : (Pc.holding ids g).Ok scenario s.registry := holding ▸ inv.ok i
  have level := value_of_load prepared prepared.active opened loaded
  have outside : (s.abs scenario).pc i = .outside := by simp [State.abs, holding, Pc.abs]
  -- this VU is still outside, so fewer than all of them are counted and the sum cannot saturate
  have room := HighWater.level_lt_card reached outside
  have positive := HighWater.level_eq_entered reached
  change value s.registry scenario "vu_active" < _ at room
  change value s.registry scenario "vu_active" = _ at positive
  obtain ⟨sum, saturating⟩ := int64_add_one (v := v) (by omega) (by omega)
  obtain ⟨registry', grows, value', other⟩ := inv.registry.update prepared prepared.active
    prepared.peak (inv.registry.active_ne_peak prepared).symm opened loaded
    (fun cell => by cases cell <;> rfl)
    (show Cell.gaugeAdd 1 (.gauge v) = .gauge (v + 1) from rfl)
  refine ⟨inv.goto i _ registry' grows (prepared.grows grows), .inr ⟨(i, false), ?_⟩⟩
  change HighWater.step (s.abs scenario) (i, false) = _
  rw [HighWater.step_outside outside, State.goto, State.abs, State.abs, abs_update, value', other,
    sum, level]
  simp only [Pc.abs, saturating]

/-- Reading the peak, before the loop that raises it. -/
theorem simulated_publishing {ids : Ids} {newActive : Int64} {peak : MetricHandle}
    (publishing : s.pc i = .publishing ids newActive peak) {cur : Int64}
    (loaded : loadGauge s.registry peak = some cur) :
    Simulated scenario s (s.goto scenario i s.registry (.comparing ids newActive peak cur)) := by
  have high : value s.registry scenario "vu_active" ≤ s.highest :=
    (HighWater.inv_reachable reached).level_le
  obtain ⟨prepared, opened⟩ : (Pc.publishing ids newActive peak).Ok scenario s.registry :=
    publishing ▸ inv.ok i
  have level := value_of_load prepared prepared.peak opened loaded
  have counted : (s.abs scenario).pc i = .counted newActive.toInt := by
    simp [State.abs, publishing, Pc.abs]
  -- the value was added before, so this is the abstract step that raises the highest level
  refine ⟨inv.goto i _ inv.registry (.refl _) ⟨prepared, opened⟩, .inr ⟨(i, false), ?_⟩⟩
  change HighWater.step (s.abs scenario) (i, false) = _
  rw [HighWater.step_counted counted, State.goto, State.abs, State.abs, abs_update,
    max_eq_left high]
  simp only [Pc.abs, level]

/-- One round of the compare-exchange. -/
theorem simulated_comparing {ids : Ids} {newActive cur : Int64} {peak : MetricHandle}
    (comparing : s.pc i = .comparing ids newActive peak cur) (spurious : Bool) {s' : State ι H}
    (taken : (if newActive ≤ cur then some (s.goto scenario i s.registry (.entered ids))
      else (loadGauge s.registry peak).map fun observed =>
        if observed = cur ∧ ¬spurious then
          s.goto scenario i (s.registry.update peak (Cell.gaugeStore newActive)) (.entered ids)
        else s.goto scenario i s.registry (.comparing ids newActive peak observed)) = some s') :
    Simulated scenario s s' := by
  have high : value s.registry scenario "vu_active" ≤ s.highest :=
    (HighWater.inv_reachable reached).level_le
  obtain ⟨prepared, opened⟩ : (Pc.comparing ids newActive peak cur).Ok scenario s.registry :=
    comparing ▸ inv.ok i
  have abstract : (s.abs scenario).pc i = .comparing newActive.toInt cur.toInt := by
    simp [State.abs, comparing, Pc.abs]
  have step : HighWater.step (s.abs scenario) (i, spurious) = _ :=
    HighWater.step_comparing abstract
  split_ifs at taken with published
  -- the peak is already as high
  · cases taken
    refine ⟨inv.goto i _ inv.registry (.refl _) prepared, .inr ⟨(i, spurious), ?_⟩⟩
    rw [if_pos (Int64.le_iff_toInt_le.mp published)] at step
    refine step.trans ?_
    rw [State.goto, State.abs, State.abs, abs_update, max_eq_left high]
    rfl
  · obtain ⟨observed, loaded, rfl⟩ := Option.map_eq_some_iff.mp taken
    have level := value_of_load prepared prepared.peak opened loaded
    have swaps : (s.abs scenario).peak = cur.toInt ∧ ¬spurious ↔ observed = cur ∧ ¬spurious := by
      rw [← Int64.toInt_inj, ← level]
      rfl
    rw [if_neg fun le => published (Int64.le_iff_toInt_le.mpr le), if_congr swaps rfl rfl] at step
    -- the exchange succeeds, or another round follows with the value observed, also after a
    -- spurious failure
    split_ifs at step ⊢ with swapped
    · obtain ⟨registry', grows, value', other⟩ := inv.registry.update prepared prepared.peak
        prepared.active (inv.registry.active_ne_peak prepared) opened loaded
        (fun cell => by cases cell <;> rfl)
        (show Cell.gaugeStore newActive (.gauge observed) = .gauge newActive from rfl)
      refine ⟨inv.goto i _ registry' grows (prepared.grows grows), .inr ⟨(i, spurious), ?_⟩⟩
      refine step.trans ?_
      rw [State.goto, State.abs, State.abs, abs_update, value', other, max_eq_left high]
      rfl
    · refine ⟨inv.goto i _ inv.registry (.refl _) ⟨prepared, opened⟩, .inr ⟨(i, spurious), ?_⟩⟩
      refine step.trans ?_
      rw [State.goto, State.abs, State.abs, abs_update, max_eq_left high]
      simp only [Pc.abs, level]

/-- The guard takes the VU out again. -/
theorem simulated_leaving {ids : Ids} {g : MetricHandle} (leaving : s.pc i = .leaving ids g)
    {v : Int64} (loaded : loadGauge s.registry g = some v) :
    Simulated scenario s (s.goto scenario i (s.registry.update g (Cell.gaugeSub 1)) .outside) := by
  have high : value s.registry scenario "vu_active" ≤ s.highest :=
    (HighWater.inv_reachable reached).level_le
  obtain ⟨prepared, opened⟩ : (Pc.leaving ids g).Ok scenario s.registry := leaving ▸ inv.ok i
  have level := value_of_load prepared prepared.active opened loaded
  have inside : (s.abs scenario).pc i = .inside := by simp [State.abs, leaving, Pc.abs]
  -- the VU counted itself, so the gauge is above 0 and the subtraction cannot saturate
  have positive := HighWater.level_eq_entered reached
  change value s.registry scenario "vu_active" = _ at positive
  have difference := int64_sub_one (v := v) (by omega)
  obtain ⟨registry', grows, value', other⟩ := inv.registry.update prepared prepared.active
    prepared.peak (inv.registry.active_ne_peak prepared).symm opened loaded
    (fun cell => by cases cell <;> rfl)
    (show Cell.gaugeSub 1 (.gauge v) = .gauge (v - 1) from rfl)
  refine ⟨inv.goto i _ registry' grows trivial, .inr ⟨(i, false), ?_⟩⟩
  change HighWater.step (s.abs scenario) (i, false) = _
  rw [HighWater.step_inside inside, State.goto, State.abs, State.abs, abs_update, value', other,
    difference, level, max_eq_left (by omega)]
  rfl

/-- Every access is a step of the abstract machine, or none. -/
theorem step_simulates (few : Fintype.card ι < 2 ^ 63) {s' : State ι H} {a : ι × Bool}
    (taken : vuStep hdr scenario s a = some s') : Simulated scenario s s' := by
  obtain ⟨i, spurious⟩ := a
  have here := inv.ok i
  simp only [vuStep] at taken
  split at taken
  -- the VU registers the two gauges and interns the tags: nothing that the abstract machine sees
  next outside =>
    cases taken
    exact simulated_resolveKey inv reached (by simp [strings, gaugeNames]) (by rw [outside]; rfl)
      (Interner.getOrIntern_get? _ _)
  next name namedActive =>
    rw [namedActive] at here
    cases taken
    exact simulated_defineId inv reached here (by rw [namedActive]; rfl) fun _ defined => defined
  next active hasActive =>
    rw [hasActive] at here
    cases taken
    have grows := Registry.grows_resolveKey s.registry "vu_active_max"
    exact simulated_resolveKey inv reached (by simp [strings, gaugeNames]) (by rw [hasActive]; rfl)
      ⟨grows.metricNamed here, Interner.getOrIntern_get? _ _⟩
  next active name namedPeak =>
    rw [namedPeak] at here
    cases taken
    exact simulated_defineId inv reached here.2 (by rw [namedPeak]; rfl) fun grows defined =>
      ⟨grows.metricNamed here.1, defined⟩
  next active peak hasPeak =>
    rw [hasPeak] at here
    cases taken
    have grows := Registry.grows_resolveKey s.registry "scenario"
    exact simulated_resolveKey inv reached (by simp [strings, gaugeNames]) (by rw [hasPeak]; rfl)
      ⟨grows.metricNamed here.1, grows.metricNamed here.2, Interner.getOrIntern_get? _ _⟩
  next active peak key hasKey =>
    rw [hasKey] at here
    cases taken
    have grows := Registry.grows_resolveKey s.registry scenario
    have knowsKey := grows.interner _ _ here.2.2
    refine simulated_resolveKey inv reached (by simp [strings, gaugeNames]) (by rw [hasKey]; rfl)
      ⟨grows.metricNamed here.1, grows.metricNamed here.2.1, ?_, Interner.knows_getOrIntern _ _, ?_⟩
    · exact Option.isSome_iff_exists.mpr ⟨key, knowsKey⟩
    · have isKey : (s.registry.resolveKey scenario).1.interner.idOf "scenario" = key := by
        rw [Interner.idOf, knowsKey]
        rfl
      have tag := Interner.getOrIntern_snd s.registry.interner scenario
      change TagSet.fromSortedIter
        ([(key, (s.registry.interner.getOrIntern scenario).2)].insertionSort TagLe) = _
      rw [tag, ← isKey]
      rfl
  -- `vu_active` goes up, and the high-water mark follows in a loop
  next ids resolved =>
    rw [resolved] at here
    obtain ⟨r', g, got, loads, simulated⟩ := simulated_getHandle inv reached hdr here
      (by simp [gaugeNames]) here.active (i := i) (fun _ => by rw [resolved]; rfl)
      fun _ _ prepared opened => show (Pc.holding ids _).Ok _ _ from ⟨prepared, opened⟩
    rw [got] at taken
    simp only [loads, if_true] at taken
    cases taken
    exact simulated
  next ids g holding =>
    obtain ⟨v, loaded, rfl⟩ := Option.map_eq_some_iff.mp taken
    exact simulated_holding inv reached few holding loaded
  next ids newActive counted =>
    rw [counted] at here
    obtain ⟨r', peak, got, loads, simulated⟩ := simulated_getHandle inv reached hdr here
      (by simp [gaugeNames]) here.peak (i := i) (fun _ => by rw [counted]; rfl)
      fun _ _ prepared opened =>
        show (Pc.publishing ids newActive _).Ok _ _ from ⟨prepared, opened⟩
    rw [got] at taken
    simp only [loads, if_true] at taken
    cases taken
    exact simulated
  next ids newActive peak publishing =>
    obtain ⟨cur, loaded, rfl⟩ := Option.map_eq_some_iff.mp taken
    exact simulated_publishing inv reached publishing loaded
  next ids newActive peak cur comparing =>
    exact simulated_comparing inv reached comparing spurious taken
  -- and down again when the VU leaves
  next ids entered =>
    rw [entered] at here
    obtain ⟨r', g, got, loads, simulated⟩ := simulated_getHandle inv reached hdr here
      (by simp [gaugeNames]) here.active (i := i) (fun _ => by rw [entered]; rfl)
      fun _ _ prepared opened => show (Pc.leaving ids _).Ok _ _ from ⟨prepared, opened⟩
    rw [got] at taken
    simp only [loads, if_true] at taken
    cases taken
    exact simulated
  next ids g leaving =>
    obtain ⟨v, loaded, rfl⟩ := Option.map_eq_some_iff.mp taken
    exact simulated_leaving inv reached leaving loaded

end Simulation

/-! ### Runs -/

omit [DecidableEq ι] [Fintype ι] in
/-- The registry of `RunScenariosContext::new` has neither gauge, and no series at all. -/
theorem registryOk_init (scenario : String) :
    RegistryOk scenario (Accounting.registerMetrics (.default : Registry H)).1 ∧
      ∀ metric tags,
        (Accounting.registerMetrics (.default : Registry H)).1.series metric tags = none := by
  obtain ⟨catalog, -⟩ := Accounting.registerMetrics_catalog (Registry.catalog_default (H := H))
  have defined := Accounting.defined_registerMetrics (Registry.defined_default (H := H))
  generalize (Accounting.registerMetrics (.default : Registry H)).1 = r at catalog defined
  -- every metric of the catalog is stored empty
  have unopened (metric : MetricId) (tags : TagSet) : r.seriesGet metric tags = none := by
    rw [Registry.seriesGet]
    cases stored : r.storage.get? metric with
    | none => rfl
    | some series =>
      have low := defined.only metric (by rw [stored]; rfl)
      rw [catalog.length_defs] at low
      have empty := catalog.stored metric.toNat low
      rw [UInt32.ofNat_toNat, stored] at empty
      rw [Option.some.inj empty]
      rfl
  refine ⟨⟨defined, ?_, ?_, ?_⟩, fun metric tags => by rw [Registry.series, unopened]; rfl⟩
  · rw [catalog.names, strings, List.append_assoc]
    exact List.subset_append_left _ _
  · intro name gauge metric found
    obtain ⟨id, known, -⟩ := Option.bind_eq_some_iff.mp found
    -- the gauges are registered by the first VU, and are none of the catalog
    have unknown : r.interner.map.get? name = none := by
      rw [catalog.interner.get?_eq_none_iff, catalog.names]
      rcases List.mem_pair.mp gauge with rfl | rfl <;> decide
    rw [unknown] at known
    cases known
  · intro metric tags st found
    rw [unopened] at found
    cases found

/-- The VU has executed its increment of `vu_active` and not yet its decrement. -/
def Pc.Counted : Pc → Bool
  | .counted _ _ | .publishing _ _ _ | .comparing _ _ _ _ | .entered _ | .leaving _ _ => true
  | .outside | .namedActive _ | .hasActive _ | .namedPeak _ _ | .hasPeak _ _ | .hasKey _ _ _
  | .resolved _ | .holding _ _ => false

/-- The VU is in `enter_active_vu`. -/
def Pc.Entering : Pc → Bool
  | .outside | .entered _ | .leaving _ _ => false
  | .namedActive _ | .hasActive _ | .namedPeak _ _ | .hasPeak _ _ | .hasKey _ _ _ | .resolved _
  | .holding _ _ | .counted _ _ | .publishing _ _ _ | .comparing _ _ _ _ => true

theorem abs_ne_outside (pc : Pc) : pc.abs ≠ .outside ↔ pc.Counted = true := by
  cases pc <;> simp [Pc.abs, Pc.Counted]

theorem publishing_abs {pc : Pc} (idle : pc.Entering = false) : pc.abs.publishing = none := by
  cases pc <;> first | rfl | cases idle

/-- Every run of the VUs is, seen from the counter, a run of the abstract machine. -/
theorem reachable_abs (few : Fintype.card ι < 2 ^ 63) {s : State ι H}
    (run : (machine hdr scenario ι).Reachable s) :
    (HighWater.machine ι).Reachable (s.abs scenario) := by
  refine (run.simulate (State.abs scenario) (Inv scenario) ?_ ?_).2
  · intro s start
    obtain ⟨registry, empty⟩ := registryOk_init (H := H) scenario
    change s = ⟨(Accounting.registerMetrics .default).1, fun _ => .outside, 0⟩ at start
    -- only that it has no series matters of the first registry
    generalize (Accounting.registerMetrics (.default : Registry H)).1 = r at start registry empty
    subst start
    refine ⟨⟨registry, fun _ => trivial⟩, ?_⟩
    change State.abs scenario _ = _
    rw [State.abs, value_eq_zero empty, value_eq_zero empty]
    rfl
  · intro s a s' inv reached taken
    exact step_simulates inv reached few taken

/-- The gauge is the number of VUs that count themselves, and the peak the most there have been,
unless a VU is about to raise it. -/
theorem gauges_exact (few : Fintype.card ι < 2 ^ 63) {s : State ι H}
    (run : (machine hdr scenario ι).Reachable s) :
    value s.registry scenario "vu_active" = tally (·.Counted) s.pc ∧
      ((∀ i, (s.pc i).Entering = false) →
        value s.registry scenario "vu_active_max" = s.highest) := by
  have reached := reachable_abs few run
  constructor
  · refine (HighWater.level_eq_entered reached).trans ?_
    simp only [HighWater.entered, tally, State.abs, abs_ne_outside]
  · exact fun idle => HighWater.peak_eq_highest reached fun i => publishing_abs (idle i)

/-- In every interleaving of the VUs of a scenario `vu_active` counts those that have entered and
not left, and whenever none is entering `vu_active_max` is the largest count so far. -/
theorem vu_gauges_exact (hdr : HdrHistogram H F) (launch : Launch) (c : ScenarioConfig)
    (launched : c ∈ launch.scenarios) (s : State (Fin (scenarioMaxVus c).toNat) H)
    (run : (machine hdr c.metricsCtx.scenario (Fin (scenarioMaxVus c).toNat)).Reachable s) :
    value s.registry c.metricsCtx.scenario "vu_active" =
        (Finset.univ.filter fun i => (s.pc i).Counted).card ∧
      ((∀ i, (s.pc i).Entering = false) →
        value s.registry c.metricsCtx.scenario "vu_active_max" = s.highest) := by
  -- the handles of all VUs were allocated, so they are far fewer than the counter can hold
  have few : Fintype.card (Fin (scenarioMaxVus c).toNat) < 2 ^ 63 := by
    have within := List.single_le_sum (fun _ _ => Nat.zero_le _) _
      (List.mem_map_of_mem (f := fun c => (scenarioMaxVus c).toNat) launched)
    have allocated := launch.allocated
    rw [Fintype.card_fin]
    omega
  have exact_values := gauges_exact few run
  rw [tally, ← Finset.card_filter] at exact_values
  exact exact_values

/-- A scenario with two VUs. -/
def twoVus : ScenarioConfig := ⟨"Default", ⟨"smoke", []⟩, .constantVus 2, some 1, none⟩

/-- Its launch. -/
def twoVusLaunch : Launch := ⟨[twoVus], by decide⟩

/-- The first of two VUs has entered, and both gauges are at 1. -/
theorem vu_gauges_exact_one :
    ∃ s : State (Fin (scenarioMaxVus twoVus).toNat) (List UInt64),
      (machine HdrHistogram.exact "smoke" (Fin (scenarioMaxVus twoVus).toNat)).Reachable s ∧
        value s.registry "smoke" "vu_active" = 1 ∧
        value s.registry "smoke" "vu_active_max" = s.highest := by
  obtain ⟨s, run, one, idle⟩ := Machine.exists_reachableBy_of_exec
    (machine HdrHistogram.exact "smoke" (Fin (scenarioMaxVus twoVus).toNat)) (fun _ _ => True)
    (fun s => (Finset.univ.filter fun i => (s.pc i).Counted).card = 1 ∧
      ∀ i, (s.pc i).Entering = false)
    (List.replicate 11 (⟨0, by decide⟩, false)) rfl (by decide +kernel)
  obtain ⟨active, peak⟩ := vu_gauges_exact HdrHistogram.exact twoVusLaunch twoVus
    (List.mem_singleton.mpr rfl) s run
  exact ⟨s, run, by rw [one] at active; exact active, peak idle⟩

end ActiveVus

end Wrkr.Core
