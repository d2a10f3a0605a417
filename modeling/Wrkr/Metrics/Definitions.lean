import Wrkr.Metrics.Recordings

/-!
# Metrics by name

A name is interned once and defined once: the first `register` of a name decides its kind, and
later ones get the same metric whatever kind they ask for. `Defined` is what every registry
keeps, `Grows` what no operation takes back.
-/
namespace Wrkr.Metrics

open Wrkr.Lib

namespace Registry

variable {H F : Type} {hdr : HdrHistogram H F}

def find (r : Registry H) (nameId : KeyId) : Option MetricId :=
  (r.defs.findIdx? fun d => d.name = nameId).map UInt32.ofNat

/-- The section of `register` under the write lock of the definitions. -/
def defineId (r : Registry H) (nameId : KeyId) (kind : MetricKind) : Registry H × MetricId :=
  match r.defs.findIdx? fun d => d.name = nameId with
  | some idx => (r, UInt32.ofNat idx)
  | none =>
    let id := UInt32.ofNat r.defs.length
    ({ r with
        defs := r.defs ++ [⟨nameId, kind⟩]
        storage := r.storage.insert id HashTable.empty }, id)

theorem register_eq (r : Registry H) (name : String) (kind : MetricKind) :
    r.register name kind = (r.resolveKey name).1.defineId (r.resolveKey name).2 kind :=
  rfl

/-- The metric of a name, as `lookup_metric` finds it. -/
def metricNamed (r : Registry H) (name : String) : Option MetricId :=
  (r.interner.map.get? name).bind r.find

/-- What every registry keeps: one definition for each name, one series map for each definition,
and in it only cells of the kind of the definition. -/
structure Defined (r : Registry H) : Prop where
  interner : r.interner.Wf
  wf : r.Wf
  nodup : (r.defs.map MetricDef.name).Nodup
  stored : ∀ i < r.defs.length, (r.storage.get? (UInt32.ofNat i)).isSome
  only : ∀ metric, (r.storage.get? metric).isSome → metric.toNat < r.defs.length
  known : ∀ d ∈ r.defs, ∃ name, r.interner.map.get? name = some d.name
  kinds : ∀ metric tags cell, r.series metric tags = some cell →
    r.metricKind metric = some cell.kind

/-- What no operation takes back: ids of strings, definitions, and the cells of series. -/
structure Grows (r r' : Registry H) : Prop where
  interner : Interner.Extends r.interner r'.interner
  defs : r.defs <+: r'.defs
  series : ∀ metric tags st, r.seriesGet metric tags = some st →
    r'.seriesGet metric tags = some st

theorem defined_default : (default : Registry H).Defined where
  interner := Interner.wf_new
  wf := wf_default
  nodup := List.nodup_nil
  stored := by simp [default]
  only := by simp [default]
  known := by simp [default]
  kinds := by simp [default, series, seriesGet]

namespace Grows

theorem refl (r : Registry H) : Grows r r :=
  ⟨Interner.Extends.refl _, List.prefix_rfl, fun _ _ _ found => found⟩

theorem trans {r r' r'' : Registry H} (first : Grows r r') (second : Grows r' r'') :
    Grows r r'' :=
  ⟨first.interner.trans second.interner, first.defs.trans second.defs,
    fun _ _ _ found => second.series _ _ _ (first.series _ _ _ found)⟩

variable {r r' : Registry H}

theorem find (grows : Grows r r') {nameId : KeyId} {metric : MetricId}
    (found : r.find nameId = some metric) : r'.find nameId = some metric := by
  obtain ⟨added, appended⟩ := grows.defs
  simp only [Registry.find, Option.map_eq_some_iff] at found ⊢
  obtain ⟨idx, first, same⟩ := found
  exact ⟨idx, by rw [← appended, List.findIdx?_append, first]; rfl, same⟩

theorem metricNamed (grows : Grows r r') {name : String} {metric : MetricId}
    (found : r.metricNamed name = some metric) : r'.metricNamed name = some metric := by
  simp only [Registry.metricNamed, Option.bind_eq_some_iff] at found ⊢
  obtain ⟨nameId, known, metric⟩ := found
  exact ⟨nameId, grows.interner name nameId known, grows.find metric⟩

theorem metricKind (grows : Grows r r') {metric : MetricId} {kind : MetricKind}
    (found : r.metricKind metric = some kind) : r'.metricKind metric = some kind := by
  obtain ⟨added, appended⟩ := grows.defs
  simp only [Registry.metricKind, Option.map_eq_some_iff] at found ⊢
  obtain ⟨d, here, same⟩ := found
  have low := (List.getElem?_eq_some_iff.mp here).1
  exact ⟨d, by rw [← appended, List.getElem?_append_left low, here], same⟩

end Grows

variable {r : Registry H}

theorem find_ne_none_iff (nameId : KeyId) :
    (r.defs.findIdx? fun d => d.name = nameId) = none ↔ nameId ∉ r.defs.map MetricDef.name := by
  rw [List.findIdx?_eq_none_iff, List.mem_map, not_exists]
  simp only [not_and, decide_eq_false_iff_not]

theorem heap_defineId (nameId : KeyId) (kind : MetricKind) :
    (r.defineId nameId kind).1.heap = r.heap := by
  rw [Registry.defineId]
  split <;> rfl

theorem interner_defineId (nameId : KeyId) (kind : MetricKind) :
    (r.defineId nameId kind).1.interner = r.interner := by
  rw [Registry.defineId]
  split <;> rfl

theorem defs_defineId (nameId : KeyId) (kind : MetricKind) :
    r.defs <+: (r.defineId nameId kind).1.defs := by
  rw [Registry.defineId]
  split
  · exact List.prefix_rfl
  · exact List.prefix_append _ _

/-- The name is found from then on. -/
theorem find_defineId (nameId : KeyId) (kind : MetricKind) :
    (r.defineId nameId kind).1.find nameId = some (r.defineId nameId kind).2 := by
  rw [Registry.defineId]
  cases missing : r.defs.findIdx? fun d => d.name = nameId with
  | some idx => simp [find, missing]
  | none => simp [find, List.findIdx?_append, missing]

theorem find_defineId_of_ne {nameId other : KeyId} (ne : other ≠ nameId) (kind : MetricKind) :
    (r.defineId nameId kind).1.find other = r.find other := by
  rw [Registry.defineId]
  split
  · rfl
  · simp only [find, List.findIdx?_append]
    cases r.defs.findIdx? fun d => d.name = other <;> simp [ne.symm]

theorem grows_withInterner {r : Registry H} {interner : Interner}
    (ext : Interner.Extends r.interner interner) : Grows r { r with interner } :=
  ⟨ext, List.prefix_rfl, fun _ _ _ found => found⟩

theorem grows_resolveKey (r : Registry H) (key : String) : Grows r (r.resolveKey key).1 :=
  grows_withInterner (Interner.getOrIntern_extends _ key)

theorem grows_resolveTags (r : Registry H) (tags : List (String × String)) :
    Grows r (r.resolveTags tags).1 :=
  grows_withInterner (Interner.internPairs_extends _ tags)

theorem series_insertSeries (wf : r.Wf) (metric : MetricId) (tags : TagSet) (cell : Cell H)
    (metric' : MetricId) (tags' : TagSet) :
    (r.insertSeries metric tags cell).1.series metric' tags' =
      if metric' = metric ∧ tags' = tags then some cell else r.series metric' tags' := by
  rw [series, seriesGet_insertSeries]
  split
  · simp [insertSeries]
  · rw [series]
    cases found : r.seriesGet metric' tags' with
    | none => rfl
    | some st =>
      simp only [Option.bind_some, insertSeries]
      exact List.getElem?_append_left (wf.valid metric' tags' st found)

/-- An operation on a cell changes the series of its handle alone. -/
theorem series_update_of_ne (wf : r.Wf) {metric : MetricId} {tags : TagSet} {handle : MetricHandle}
    (found : r.seriesGet metric tags = some handle) (op : Cell H → Cell H) {m : MetricId}
    {t : TagSet} (other : ¬(m = metric ∧ t = tags)) :
    (r.update handle op).series m t = r.series m t := by
  rw [series, series, seriesGet_update]
  cases there : r.seriesGet m t with
  | none => rfl
  | some st =>
    have apart : handle.cell ≠ st.cell := by
      intro same
      have shared : st = handle := by cases st; cases handle; simp_all
      exact other (wf.distinct m t metric tags handle (shared ▸ there) found)
    simp [update, apart]

theorem grows_update (r : Registry H) (handle : MetricHandle) (op : Cell H → Cell H) :
    Grows r (r.update handle op) :=
  ⟨Interner.Extends.refl _, List.prefix_rfl, fun _ _ _ found => found⟩

namespace Defined

/-- Names are numbered in 32 bits, so there are no more definitions than numbers. -/
theorem length_le (defined : r.Defined) : r.defs.length ≤ 2 ^ 32 := by
  have distinct : ((r.defs.map MetricDef.name).map UInt32.toNat).Nodup :=
    defined.nodup.map fun _ _ same => UInt32.toNat_inj.mp same
  have within : (r.defs.map MetricDef.name).map UInt32.toNat ⊆ List.range (2 ^ 32) := by
    intro n member
    obtain ⟨id, -, rfl⟩ := List.mem_map.mp member
    exact List.mem_range.mpr id.toNat_lt
  simpa using (List.subperm_of_subset distinct within).length_le

/-- A definition without series is new as a number, too. -/
theorem fresh (defined : r.Defined) {nameId : KeyId}
    (unnamed : nameId ∉ r.defs.map MetricDef.name) :
    (UInt32.ofNat r.defs.length).toNat = r.defs.length ∧
      r.storage.get? (UInt32.ofNat r.defs.length) = none := by
  have room : r.defs.length < 2 ^ 32 := by
    -- one more name would still be a list of different numbers
    have distinct : ((nameId :: r.defs.map MetricDef.name).map UInt32.toNat).Nodup :=
      (defined.nodup.cons unnamed).map fun _ _ same => UInt32.toNat_inj.mp same
    have within : (nameId :: r.defs.map MetricDef.name).map UInt32.toNat ⊆
        List.range (2 ^ 32) := by
      intro n member
      obtain ⟨id, -, rfl⟩ := List.mem_map.mp member
      exact List.mem_range.mpr id.toNat_lt
    have le := (List.subperm_of_subset distinct within).length_le
    simp only [List.length_map, List.length_cons, List.length_range] at le
    omega
  have number : (UInt32.ofNat r.defs.length).toNat = r.defs.length := by
    rw [UInt32.toNat_ofNat', Nat.mod_eq_of_lt room]
  refine ⟨number, ?_⟩
  by_contra stored
  have low := defined.only _ (Option.ne_none_iff_isSome.mp stored)
  omega

/-- A new series map is empty, so the series are as before. -/
theorem seriesGet_defineId (defined : r.Defined) (nameId : KeyId) (kind : MetricKind)
    (metric : MetricId) (tags : TagSet) :
    (r.defineId nameId kind).1.seriesGet metric tags = r.seriesGet metric tags := by
  rw [Registry.defineId]
  split
  · rfl
  next missing =>
    have empty := (defined.fresh ((find_ne_none_iff nameId).mp missing)).2
    simp only [seriesGet, HashTable.get?_insert]
    split
    next same => rw [same, empty]; rfl
    next => rfl

theorem series_defineId (defined : r.Defined) (nameId : KeyId) (kind : MetricKind)
    (metric : MetricId) (tags : TagSet) :
    (r.defineId nameId kind).1.series metric tags = r.series metric tags := by
  rw [series, series, defined.seriesGet_defineId, heap_defineId]

theorem grows_defineId (defined : r.Defined) (nameId : KeyId) (kind : MetricKind) :
    Grows r (r.defineId nameId kind).1 where
  interner := interner_defineId (r := r) nameId kind ▸ Interner.Extends.refl _
  defs := defs_defineId nameId kind
  series metric tags _ found := (defined.seriesGet_defineId nameId kind metric tags).trans found

theorem defineId (defined : r.Defined) {name : String} {nameId : KeyId}
    (named : r.interner.map.get? name = some nameId) (kind : MetricKind) :
    (r.defineId nameId kind).1.Defined := by
  have grows := defined.grows_defineId nameId kind
  have wf : (r.defineId nameId kind).1.Wf :=
    defined.wf.of_seriesGet (heap_defineId nameId kind) fun metric tags st found =>
      (defined.seriesGet_defineId nameId kind metric tags).symm.trans found
  have kinds : ∀ metric tags cell, (r.defineId nameId kind).1.series metric tags = some cell →
      (r.defineId nameId kind).1.metricKind metric = some cell.kind := fun metric tags cell found =>
    grows.metricKind (defined.kinds metric tags cell
      ((defined.series_defineId nameId kind metric tags).symm.trans found))
  cases missing : r.defs.findIdx? fun d => d.name = nameId with
  | some idx =>
    have same : (r.defineId nameId kind).1 = r := by rw [Registry.defineId, missing]
    rw [same]
    exact defined
  | none =>
    have same : (r.defineId nameId kind).1 =
        { r with
          defs := r.defs ++ [⟨nameId, kind⟩]
          storage := r.storage.insert (UInt32.ofNat r.defs.length) HashTable.empty } := by
      rw [Registry.defineId, missing]
    rw [same] at wf kinds ⊢
    -- a new definition gets the number of those there are, which no storage has yet
    have unnamed := (find_ne_none_iff nameId).mp missing
    obtain ⟨number, -⟩ := defined.fresh unnamed
    refine ⟨defined.interner, wf, ?_, ?_, ?_, ?_, kinds⟩
    · simpa using List.nodup_append.mpr ⟨defined.nodup, List.nodup_singleton nameId, by
        rintro a member b last rfl
        rw [List.mem_singleton.mp last] at member
        exact unnamed member⟩
    · intro i low
      simp only [List.length_append, List.length_singleton] at low
      rw [HashTable.get?_insert]
      split
      next => rfl
      next other =>
        apply defined.stored i
        have notLast : i ≠ r.defs.length := fun last => other (congrArg UInt32.ofNat last)
        omega
    · intro metric stored
      rw [HashTable.get?_insert] at stored
      simp only [List.length_append, List.length_singleton]
      split at stored
      next same => rw [same, number]; omega
      next => exact Nat.lt_succ_of_lt (defined.only metric stored)
    · intro d member
      rcases List.mem_append.mp member with old | new
      · exact defined.known d old
      · rw [List.mem_singleton.mp new]
        exact ⟨name, named⟩

/-- A metric that is found can be recorded on. -/
theorem registered (defined : r.Defined) {nameId : KeyId} {metric : MetricId}
    (found : r.find nameId = some metric) : ∃ kind, r.Registered metric kind := by
  simp only [find, Option.map_eq_some_iff] at found
  obtain ⟨idx, first, rfl⟩ := found
  have low := (List.findIdx?_eq_some_iff_getElem.mp first).1
  have few := defined.length_le
  refine ⟨r.defs[idx].kind, defined.stored idx low, ?_⟩
  rw [metricKind, UInt32.toNat_ofNat', Nat.mod_eq_of_lt (by omega), List.getElem?_eq_getElem low]
  rfl

/-- Two names have two metrics. -/
theorem find_inj (defined : r.Defined) {nameId other : KeyId} {metric : MetricId}
    (found : r.find nameId = some metric) (found' : r.find other = some metric) :
    nameId = other := by
  simp only [find, Option.map_eq_some_iff] at found found'
  obtain ⟨i, first, rfl⟩ := found
  obtain ⟨j, first', same⟩ := found'
  obtain ⟨low, name, -⟩ := List.findIdx?_eq_some_iff_getElem.mp first
  obtain ⟨low', name', -⟩ := List.findIdx?_eq_some_iff_getElem.mp first'
  have few := defined.length_le
  -- there are fewer definitions than ids, so equal ids are of equal places
  have indices : i = j := by
    have numbers := congrArg UInt32.toNat same
    simp only [UInt32.toNat_ofNat'] at numbers
    omega
  subst indices
  simp only [decide_eq_true_eq] at name name'
  exact name.symm.trans name'

/-- A new definition has the kind that was asked for. -/
theorem metricKind_defineId (defined : r.Defined) {nameId : KeyId} (missing : r.find nameId = none)
    (kind : MetricKind) :
    (r.defineId nameId kind).1.metricKind (r.defineId nameId kind).2 = some kind := by
  have missing := Option.map_eq_none_iff.mp missing
  obtain ⟨number, -⟩ := defined.fresh ((find_ne_none_iff nameId).mp missing)
  rw [Registry.defineId, missing]
  simp only [metricKind, number]
  simp

/-! ### Interning -/

theorem withInterner (defined : r.Defined) {interner : Interner} (wf : interner.Wf)
    (ext : Interner.Extends r.interner interner) : { r with interner }.Defined where
  interner := wf
  wf := defined.wf.of_seriesGet rfl fun _ _ _ found => found
  nodup := defined.nodup
  stored := defined.stored
  only := defined.only
  known d member := by
    obtain ⟨name, known⟩ := defined.known d member
    exact ⟨name, ext name _ known⟩
  kinds := defined.kinds

theorem resolveKey (defined : r.Defined) (key : String) : (r.resolveKey key).1.Defined :=
  defined.withInterner (defined.interner.getOrIntern key) (Interner.getOrIntern_extends _ key)

theorem resolveTags (defined : r.Defined) (tags : List (String × String)) :
    (r.resolveTags tags).1.Defined :=
  defined.withInterner (defined.interner.internPairs tags) (Interner.internPairs_extends _ tags)

theorem register (defined : r.Defined) (name : String) (kind : MetricKind) :
    (r.register name kind).1.Defined := by
  rw [register_eq]
  exact (defined.resolveKey name).defineId (Interner.getOrIntern_get? r.interner name) kind

theorem grows_register (defined : r.Defined) (name : String) (kind : MetricKind) :
    Grows r (r.register name kind).1 := by
  rw [register_eq]
  exact (grows_resolveKey r name).trans ((defined.resolveKey name).grows_defineId _ kind)

/-- A registration returns the metric of the name. -/
theorem metricNamed_register (defined : r.Defined) (name : String) (kind : MetricKind) :
    (r.register name kind).1.metricNamed name = some (r.register name kind).2 := by
  rw [register_eq]
  have grows := (defined.resolveKey name).grows_defineId (r.resolveKey name).2 kind
  have named := Interner.getOrIntern_get? r.interner name
  rw [metricNamed, grows.interner name _ named, Option.bind_some]
  exact find_defineId (r := (r.resolveKey name).1) _ kind

/-- As long as ids are not reused, a string that is interned names no metric. -/
theorem metricNamed_resolveKey (defined : r.Defined) (key : String)
    (ample : (r.resolveKey key).1.interner.Ample) (name : String) :
    (r.resolveKey key).1.metricNamed name = r.metricNamed name := by
  cases known : r.interner.map.get? name with
  | some id =>
    have kept := (grows_resolveKey r key).interner name id known
    rw [metricNamed, metricNamed, kept, known]
    rfl
  | none =>
    rw [metricNamed, metricNamed, known, Option.bind_none, Option.bind_eq_none_iff]
    intro id interned
    change r.find id = none
    rw [find, Option.map_eq_none_iff, find_ne_none_iff]
    intro member
    obtain ⟨d, defines, same⟩ := List.mem_map.mp member
    obtain ⟨other, known_other⟩ := defined.known d defines
    have kept := (grows_resolveKey r key).interner other _ known_other
    rw [same] at kept
    -- the id of a definition belongs to another string
    rw [ample.wf.injective ample.few interned kept, known_other] at known
    cases known

/-! ### Series -/

theorem insertSeries (defined : r.Defined) {metric : MetricId} {kind : MetricKind}
    (registered : r.Registered metric kind) (tags : TagSet) {cell : Cell H}
    (same : cell.kind = kind) : (r.insertSeries metric tags cell).1.Defined where
  interner := defined.interner
  wf := defined.wf.insertSeries metric tags cell
  nodup := defined.nodup
  stored i low := by
    have stored := defined.stored i low
    simp only [Registry.insertSeries, HashTable.get?_insert]
    split
    · rfl
    · exact stored
  only m stored := by
    simp only [Registry.insertSeries, HashTable.get?_insert] at stored
    split at stored
    next here => exact here ▸ defined.only metric registered.stored
    next => exact defined.only m stored
  known := defined.known
  kinds m t c found := by
    rw [series_insertSeries defined.wf] at found
    split at found
    -- the new cell has the kind of the metric
    next here =>
      cases found
      rw [here.1, same]
      exact registered.defined
    next => exact defined.kinds m t c found

/-- The handle of a registered metric: of the series that is there, or of a new one. -/
theorem getHandle (hdr : HdrHistogram H F) (defined : r.Defined) {metric : MetricId}
    {kind : MetricKind} (registered : r.Registered metric kind) (tags : TagSet) :
    ∃ r' handle, r.getHandle hdr metric tags = (r', some handle) ∧ r'.Defined ∧ Grows r r' ∧
      r'.interner = r.interner ∧ r'.defs = r.defs ∧ r'.seriesGet metric tags = some handle ∧
      r'.series metric tags = some ((r.series metric tags).getD (Cell.new hdr kind)) ∧
      ∀ m t, ¬(m = metric ∧ t = tags) → r'.series m t = r.series m t := by
  obtain ⟨series, stored⟩ := Option.isSome_iff_exists.mp registered.stored
  cases found : series.get? tags with
  | some handle =>
    have here : r.seriesGet metric tags = some handle := by simp [seriesGet, stored, found]
    have valid := defined.wf.valid metric tags handle here
    refine ⟨r, handle, by simp [Registry.getHandle, stored, found], defined, .refl r, rfl, rfl, here,
      ?_, fun _ _ _ => rfl⟩
    rw [Registry.series, here, Option.bind_some, List.getElem?_eq_getElem valid, Option.getD_some]
  -- what `or_insert_with` adds is a new cell, which is what the series was without it
  | none =>
    have missing : r.seriesGet metric tags = none := by simp [seriesGet, stored, found]
    refine ⟨(r.insertSeries metric tags (Cell.new hdr kind)).1, ⟨r.heap.length⟩,
      by simp [Registry.getHandle, stored, found, registered.defined, Registry.insertSeries],
      defined.insertSeries registered tags (kind_new hdr kind),
      ⟨Interner.Extends.refl _, List.prefix_rfl, ?_⟩, rfl, rfl, ?_, ?_, ?_⟩
    · intro m t st old
      rw [seriesGet_insertSeries, if_neg ?_]
      · exact old
      · rintro ⟨rfl, rfl⟩
        rw [missing] at old
        cases old
    · rw [seriesGet_insertSeries, if_pos ⟨rfl, rfl⟩]
    · rw [series_insertSeries defined.wf, if_pos ⟨rfl, rfl⟩, Registry.series, missing]
      rfl
    · intro m t other
      rw [series_insertSeries defined.wf, if_neg other]

theorem update (defined : r.Defined) {metric : MetricId} {tags : TagSet} {handle : MetricHandle}
    (found : r.seriesGet metric tags = some handle) {op : Cell H → Cell H}
    (kind : ∀ cell, (op cell).kind = cell.kind) : (r.update handle op).Defined where
  interner := defined.interner
  wf := defined.wf.update handle op
  nodup := defined.nodup
  stored := defined.stored
  only := defined.only
  known := defined.known
  kinds m t c here := by
    by_cases same : m = metric ∧ t = tags
    · obtain ⟨rfl, rfl⟩ := same
      rw [series_update found, Option.map_eq_some_iff] at here
      obtain ⟨cell, before, rfl⟩ := here
      rw [kind]
      exact defined.kinds m t cell before
    · rw [series_update_of_ne defined.wf found op same] at here
      exact defined.kinds m t c here

end Defined

end Registry

end Wrkr.Metrics
