import Mathlib.Data.List.Nodup
import Wrkr.Metrics.Storage
import Wrkr.Metrics.Tags

/-!
# The metrics registry

The registry interns strings, numbers metrics by registration and keeps one `MetricStorage` for
each metric and tag set. A storage is an `Arc` of a cell and a handle is a clone of it; both are
modelled by the place of the cell in `heap`, and the variant of a storage is that of its cell.

`visitSeries_touch` is the specification of a recording: getting the handle of a series and
applying an operation to it changes that series of that metric and nothing else.
-/
namespace Wrkr.Metrics

open Wrkr.Lib

/-- The position among the definitions. -/
abbrev MetricId := UInt32

/-- A metric, by the id of its name. -/
structure MetricDef where
  name : KeyId
  kind : MetricKind
  deriving DecidableEq, Repr

/-- Behind an `Arc`, so two handles of one series share their cell: the cell is a position on the
heap. -/
structure MetricStorage where
  cell : Nat
  deriving DecidableEq, Repr

abbrev MetricHandle := MetricStorage

/-- The strings, the definitions, and a map of series for every metric. -/
structure Registry (H : Type) where
  interner : Interner
  defs : List MetricDef
  storage : HashTable MetricId (HashTable TagSet MetricStorage)
  heap : List (Cell H)

namespace Interner

/-- The loop of `resolve_tags`: key and value of each pair, in order. -/
def internPairs (n : Interner) : List (String × String) → Interner × List (KeyId × KeyId)
  | [] => (n, [])
  | (k, v) :: rest =>
    let (n, key) := n.getOrIntern k
    let (n, value) := n.getOrIntern v
    let (n, resolved) := n.internPairs rest
    (n, (key, value) :: resolved)

end Interner

namespace Registry

variable {H F : Type} (hdr : HdrHistogram H F)

/-- The derived `Default`: nothing is registered. -/
def default : Registry H := ⟨Interner.new, [], HashTable.empty, []⟩

/-- Looking a name up interns it. -/
def lookupMetric (r : Registry H) (name : String) : Registry H × Option (MetricId × MetricKind) :=
  let (interner, nameId) := r.interner.getOrIntern name
  let found := r.defs.findIdx? fun d => d.name = nameId
  ({ r with interner }, found.bind fun idx =>
    r.defs[idx]?.map fun d => (UInt32.ofNat idx, d.kind))

/-- A name that is defined already keeps its number, and its kind, whatever kind is asked for. -/
def register (r : Registry H) (name : String) (kind : MetricKind) : Registry H × MetricId :=
  let (interner, nameId) := r.interner.getOrIntern name
  match r.defs.findIdx? fun d => d.name = nameId with
  | some idx => ({ r with interner }, UInt32.ofNat idx)
  | none =>
    let id := UInt32.ofNat r.defs.length
    ({ r with
        interner
        defs := r.defs ++ [⟨nameId, kind⟩]
        storage := r.storage.insert id HashTable.empty }, id)

def resolveKey (r : Registry H) (key : String) : Registry H × KeyId :=
  let (interner, id) := r.interner.getOrIntern key
  ({ r with interner }, id)

def resolveKeyId (r : Registry H) (id : KeyId) : Option String := r.interner.resolve id

/-- Keys and values are interned in the order given, and the pairs sorted by id. -/
def resolveTags (r : Registry H) (tags : List (String × String)) : Registry H × TagSet :=
  let (interner, resolved) := r.interner.internPairs tags
  ({ r with interner }, TagSet.fromSortedIter (resolved.insertionSort TagLe))

/-! ### Handles -/

/-- The two lookups at the top of `get_handle`. -/
def seriesGet (r : Registry H) (metric : MetricId) (tags : TagSet) : Option MetricStorage :=
  (r.storage.get? metric).bind fun series => series.get? tags

def metricKind (r : Registry H) (metric : MetricId) : Option MetricKind :=
  r.defs[metric.toNat]?.map MetricDef.kind

/-- `series_map.insert(tags, new_storage)`, whatever the series map then holds for the tags. -/
def insertSeries (r : Registry H) (metric : MetricId) (tags : TagSet) (cell : Cell H) :
    Registry H × MetricHandle :=
  let handle : MetricHandle := ⟨r.heap.length⟩
  let series := (r.storage.get? metric).getD HashTable.empty
  ({ r with
      storage := r.storage.insert metric (series.insert tags handle)
      heap := r.heap ++ [cell] }, handle)

/-- `get_handle` as one thread alone sees it: look-up, kind and insert in a row. -/
def getHandle (r : Registry H) (metric : MetricId) (tags : TagSet) :
    Registry H × Option MetricHandle :=
  match r.storage.get? metric with
  | none => (r, none)
  | some series =>
    match series.get? tags with
    | some storage => (r, some storage)
    | none =>
      match r.metricKind metric with
      | none => (r, none)
      | some kind =>
        let (r, handle) := r.insertSeries metric tags (Cell.new hdr kind)
        (r, some handle)

/-- An operation on the cell of a handle. -/
def update (r : Registry H) (handle : MetricHandle) (op : Cell H → Cell H) : Registry H :=
  { r with heap := r.heap.modify handle.cell op }

/-- `if let Some(handle) = metrics.get_handle(metric, tags) { .. }`. -/
def touch (r : Registry H) (metric : MetricId) (tags : TagSet) (op : Cell H → Cell H) :
    Registry H :=
  match r.getHandle hdr metric tags with
  | (r, some handle) => r.update handle op
  | (r, none) => r

/-- The series a visitor sees, with the contents of their cells. -/
def visitSeries (r : Registry H) (metric : MetricId) : List (TagSet × Cell H) :=
  match r.storage.get? metric with
  | none => []
  -- an entry whose cell is not on the heap cannot arise, see `Wf`
  | some series => series.entries.filterMap fun e => r.heap[e.2.cell]?.map fun cell => (e.1, cell)

/-- The sum saturates; a cell of another kind is passed over. -/
def foldCounterSum (r : Registry H) (metric : MetricId) (predicate : TagSet → Bool) : UInt64 :=
  (r.visitSeries metric).foldl (fun total e =>
    if predicate e.1 then
      match e.2.counter? with
      | some c => saturatingAdd total c
      | none => total
    else total) 0

/-- The histograms are merged into a new one. Without any there is no summary. -/
def foldHistogramSummary (r : Registry H) (metric : MetricId) (predicate : TagSet → Bool) :
    Option (HistogramSummary F) :=
  let (acc, any) := (r.visitSeries metric).foldl (fun (acc, any) e =>
    if predicate e.1 then
      match e.2.histogram? with
      | some h => (hdr.add acc h, true)
      | none => (acc, any)
    else (acc, any)) (hdr.newDefaultHistogram, false)
  -- no series at all and only empty ones are told apart
  if any then some (summarizeHistogram hdr acc) else none

/-- `ratio` is the quotient of two counts as `f64`. -/
def foldRateSum (ratio : UInt64 → UInt64 → F) (r : Registry H) (metric : MetricId)
    (predicate : TagSet → Bool) : UInt64 × UInt64 × Option F :=
  let (total, hits) := (r.visitSeries metric).foldl (fun (total, hits) e =>
    if predicate e.1 then
      match e.2 with
      | .rate t h => (saturatingAdd total t, saturatingAdd hits h)
      | _ => (total, hits)
    else (total, hits)) (0, 0)
  (total, hits, if total > 0 then some (ratio hits total) else none)

/-! ### Well-formed registries -/

/-- Every series has a cell of its own. -/
structure Wf (r : Registry H) : Prop where
  valid : ∀ metric tags st, r.seriesGet metric tags = some st → st.cell < r.heap.length
  distinct : ∀ metric tags metric' tags' st, r.seriesGet metric tags = some st →
    r.seriesGet metric' tags' = some st → metric = metric' ∧ tags = tags'

/-- The metric has a definition and a series map. -/
structure Registered (r : Registry H) (metric : MetricId) (kind : MetricKind) : Prop where
  stored : (r.storage.get? metric).isSome
  defined : r.metricKind metric = some kind

/-- The cell of a series. -/
def series (r : Registry H) (metric : MetricId) (tags : TagSet) : Option (Cell H) :=
  (r.seriesGet metric tags).bind fun st => r.heap[st.cell]?

theorem visitSeries_of_some {r : Registry H} {metric : MetricId}
    {series : HashTable TagSet MetricStorage} (stored : r.storage.get? metric = some series) :
    r.visitSeries metric =
      series.entries.filterMap fun e => r.heap[e.2.cell]?.map fun cell => (e.1, cell) := by
  simp [visitSeries, stored]

theorem visitSeries_of_none {r : Registry H} {metric : MetricId}
    (missing : r.storage.get? metric = none) : r.visitSeries metric = [] := by
  simp [visitSeries, missing]

/-- The series that are visited are those that a look-up finds. -/
theorem mem_visitSeries {r : Registry H} {metric : MetricId} {tags : TagSet} {cell : Cell H} :
    (tags, cell) ∈ r.visitSeries metric ↔ r.series metric tags = some cell := by
  unfold visitSeries series seriesGet
  cases r.storage.get? metric with
  | none => simp
  | some series =>
    simp only [List.mem_filterMap, Option.bind_some, Option.bind_eq_some_iff,
      HashTable.get?_eq_some_iff]
    constructor
    · rintro ⟨⟨t, st⟩, member, loaded⟩
      simp only [Option.map_eq_some_iff, Prod.mk.injEq] at loaded
      obtain ⟨c, found, rfl, rfl⟩ := loaded
      exact ⟨st, member, found⟩
    · rintro ⟨st, member, found⟩
      exact ⟨(tags, st), member, by simp [found]⟩

/-- No tag set is visited twice. -/
theorem visitSeries_nodup (r : Registry H) (metric : MetricId) :
    ((r.visitSeries metric).map Prod.fst).Nodup := by
  unfold visitSeries
  split
  · exact List.nodup_nil
  next series _ =>
    refine List.Nodup.sublist ?_ series.nodup
    -- the tags visited are among the keys of the table, in their order
    generalize series.entries = entries
    induction entries with
    | nil => simp
    | cons e rest ih =>
      cases loaded : r.heap[e.2.cell]? with
      | none => simpa [loaded] using ih.cons _
      | some cell => simpa [loaded] using ih

/-! ### Registration -/

theorem wf_default : (default : Registry H).Wf := by
  constructor <;> simp [default, seriesGet]

theorem Wf.of_seriesGet {r r' : Registry H} (wf : r.Wf) (heap : r'.heap = r.heap)
    (kept : ∀ metric tags st, r'.seriesGet metric tags = some st →
      r.seriesGet metric tags = some st) : r'.Wf := by
  constructor
  · intro metric tags st found
    rw [heap]
    exact wf.valid metric tags st (kept _ _ _ found)
  · intro metric tags metric' tags' st found found'
    exact wf.distinct metric tags metric' tags' st (kept _ _ _ found) (kept _ _ _ found')

/-- A new metric starts without series. -/
theorem Wf.register {r : Registry H} (wf : r.Wf) (name : String) (kind : MetricKind) :
    (r.register name kind).1.Wf := by
  unfold Registry.register
  dsimp only
  split
  · exact wf.of_seriesGet rfl fun _ _ _ found => found
  · refine wf.of_seriesGet rfl ?_
    intro metric tags st found
    simp only [seriesGet, HashTable.get?_insert] at found ⊢
    split at found
    · simp at found
    · exact found

/-! ### Operations on one cell -/

theorem seriesGet_update (r : Registry H) (handle : MetricHandle) (op : Cell H → Cell H)
    (metric : MetricId) (tags : TagSet) :
    (r.update handle op).seriesGet metric tags = r.seriesGet metric tags := rfl

theorem series_update {r : Registry H} {metric : MetricId} {tags : TagSet} {handle : MetricHandle}
    (found : r.seriesGet metric tags = some handle) (op : Cell H → Cell H) :
    (r.update handle op).series metric tags = (r.series metric tags).map op := by
  rw [series, series, seriesGet_update, found]
  simp [update]

theorem Wf.update {r : Registry H} (wf : r.Wf) (handle : MetricHandle) (op : Cell H → Cell H) :
    (r.update handle op).Wf := by
  constructor
  · intro metric tags st found
    have valid := wf.valid metric tags st found
    simpa [Registry.update] using valid
  · exact wf.distinct

/-- Apply `op` to the entry of `tags`. -/
def modifyAt (tags : TagSet) (op : Cell H → Cell H) (e : TagSet × Cell H) : TagSet × Cell H :=
  if e.1 = tags then (e.1, op e.2) else e

/-- An update changes one cell of one metric. With two series on one cell this would be false, so
the proof needs that handles are not shared. -/
theorem visitSeries_update {r : Registry H} (wf : r.Wf) {metric : MetricId} {tags : TagSet}
    {handle : MetricHandle} (found : r.seriesGet metric tags = some handle)
    (op : Cell H → Cell H) (metric' : MetricId) :
    (r.update handle op).visitSeries metric' =
      if metric' = metric then (r.visitSeries metric).map (modifyAt tags op)
      else r.visitSeries metric' := by
  -- a cell belongs to one series, so changing it shows up there only
  have owner (m : MetricId) (series : HashTable TagSet MetricStorage)
      (stored : r.storage.get? m = some series) (e : TagSet × MetricStorage)
      (member : e ∈ series.entries) :
      e.2 = handle ↔ m = metric ∧ e.1 = tags := by
    have here : r.seriesGet m e.1 = some e.2 := by
      simpa [seriesGet, stored] using (series.get?_eq_some_iff e.1 e.2).mpr member
    constructor
    · intro same
      rw [same] at here
      exact wf.distinct m e.1 metric tags handle here found
    · rintro ⟨rfl, same⟩
      rw [same, found] at here
      exact (Option.some.inj here).symm
  have elsewhere {e : TagSet × MetricStorage} (other : e.2 ≠ handle) : handle.cell ≠ e.2.cell := by
    intro same
    exact other (by cases e2 : e.2; cases handle; simp_all)
  cases stored : r.storage.get? metric' with
  | none =>
    have other : metric' ≠ metric := by
      rintro rfl
      simp [seriesGet, stored] at found
    rw [if_neg other, visitSeries_of_none stored, visitSeries_of_none (r := r.update handle op) stored]
  | some series =>
    rw [visitSeries_of_some (r := r.update handle op) stored]
    by_cases same : metric' = metric
    · subst same
      rw [if_pos rfl, visitSeries_of_some stored, List.map_filterMap]
      apply List.filterMap_congr
      intro e member
      have isOwner := owner metric' series stored e member
      by_cases here : e.1 = tags
      · have cell : e.2 = handle := isOwner.mpr ⟨rfl, here⟩
        rw [cell]
        cases loaded : r.heap[handle.cell]? <;> simp [Registry.update, loaded, modifyAt, here]
      · have cell := elsewhere fun same => here (isOwner.mp same).2
        cases loaded : r.heap[e.2.cell]? <;> simp [Registry.update, cell, loaded, modifyAt, here]
    · rw [if_neg same, visitSeries_of_some stored]
      apply List.filterMap_congr
      intro e member
      have cell := elsewhere fun isHandle => same ((owner metric' series stored e member).mp isHandle).1
      simp [Registry.update, cell]

/-! ### New series -/

/-- A new series is found under its tags, with a cell of its own. -/
theorem seriesGet_insertSeries (r : Registry H) (metric : MetricId) (tags : TagSet)
    (cell : Cell H) (metric' : MetricId) (tags' : TagSet) :
    (r.insertSeries metric tags cell).1.seriesGet metric' tags' =
      if metric' = metric ∧ tags' = tags then some ⟨r.heap.length⟩
      else r.seriesGet metric' tags' := by
  unfold seriesGet insertSeries
  simp only [HashTable.get?_insert]
  by_cases same : metric' = metric
  · subst same
    by_cases sameTags : tags' = tags
    · simp [sameTags]
    · cases stored : r.storage.get? metric' <;> simp [sameTags, HashTable.get?_insert]
  · simp [same]

/-- The cell of a new series is new, so no other series has it. -/
theorem Wf.insertSeries {r : Registry H} (wf : r.Wf) (metric : MetricId) (tags : TagSet)
    (cell : Cell H) : (r.insertSeries metric tags cell).1.Wf := by
  -- the new place is past the end, so no series had it
  have old {m : MetricId} {t : TagSet} {st : MetricStorage} (found : r.seriesGet m t = some st) :
      st ≠ ⟨r.heap.length⟩ := by
    rintro rfl
    exact Nat.lt_irrefl _ (wf.valid m t _ found)
  constructor
  · intro m t st found
    rw [seriesGet_insertSeries] at found
    simp only [Registry.insertSeries, List.length_append, List.length_singleton]
    split at found
    · cases found
      simp
    · have valid := wf.valid m t st found
      omega
  · intro m t m' t' st found found'
    rw [seriesGet_insertSeries] at found found'
    split at found
    next here =>
      cases found
      split at found'
      next there => exact ⟨here.1.trans there.1.symm, here.2.trans there.2.symm⟩
      next => exact absurd rfl (old found')
    next =>
      split at found'
      next =>
        cases found'
        exact absurd rfl (old found)
      next => exact wf.distinct m t m' t' st found found'

/-- A new series is appended to those of its metric. -/
theorem visitSeries_insertSeries {r : Registry H} (wf : r.Wf) {metric : MetricId} {tags : TagSet}
    (stored : (r.storage.get? metric).isSome) (absent : r.seriesGet metric tags = none)
    (cell : Cell H) (metric' : MetricId) :
    (r.insertSeries metric tags cell).1.visitSeries metric' =
      if metric' = metric then r.visitSeries metric ++ [(tags, cell)]
      else r.visitSeries metric' := by
  -- an old reference reads the same cell from the longer heap
  have loads (m : MetricId) (series : HashTable TagSet MetricStorage)
      (isStored : r.storage.get? m = some series) :
      series.entries.filterMap (fun e =>
          (r.heap ++ [cell])[e.2.cell]?.map fun cell => (e.1, cell)) =
        series.entries.filterMap fun e => r.heap[e.2.cell]?.map fun cell => (e.1, cell) := by
    apply List.filterMap_congr
    intro e member
    have found : r.seriesGet m e.1 = some e.2 := by
      simpa [seriesGet, isStored] using (series.get?_eq_some_iff e.1 e.2).mpr member
    rw [List.getElem?_append_left (wf.valid m e.1 e.2 found)]
  by_cases same : metric' = metric
  · subst same
    -- the series map of the metric gets the new entry at its end
    obtain ⟨series, isStored⟩ := Option.isSome_iff_exists.mp stored
    have missing : series.get? tags = none := by simpa [seriesGet, isStored] using absent
    have appended := HashTable.insert_entries_of_absent missing ⟨r.heap.length⟩
    rw [if_pos rfl, visitSeries_of_some isStored, ← loads metric' series isStored]
    simp [visitSeries, insertSeries, isStored, appended]
  · rw [if_neg same]
    cases isStored : r.storage.get? metric' with
    | none => simp [visitSeries, insertSeries, HashTable.get?_insert, same, isStored]
    | some series =>
      rw [visitSeries_of_some isStored, ← loads metric' series isStored]
      simp [visitSeries, insertSeries, HashTable.get?_insert, same, isStored]

/-! ### Recordings -/

/-- Apply `op` to the entry of `tags`, which is `fresh` when there is none yet. -/
def upsert (tags : TagSet) (fresh : Cell H) (op : Cell H → Cell H)
    (visited : List (TagSet × Cell H)) : List (TagSet × Cell H) :=
  if tags ∈ visited.map Prod.fst then visited.map (modifyAt tags op)
  else visited ++ [(tags, op fresh)]

theorem map_modifyAt_of_not_mem {tags : TagSet} {op : Cell H → Cell H}
    {visited : List (TagSet × Cell H)} (absent : tags ∉ visited.map Prod.fst) :
    visited.map (modifyAt tags op) = visited := by
  conv_rhs => rw [← List.map_id visited]
  apply List.map_congr_left
  intro e member
  have other : e.1 ≠ tags := by
    rintro rfl
    exact absent (List.mem_map_of_mem member)
  simp [modifyAt, other]

/-- The keys that are visited are the tag sets with a series. -/
theorem Wf.mem_visited {r : Registry H} (wf : r.Wf) {metric : MetricId} {tags : TagSet} :
    tags ∈ (r.visitSeries metric).map Prod.fst ↔ (r.seriesGet metric tags).isSome := by
  rw [List.mem_map, Option.isSome_iff_exists]
  constructor
  · rintro ⟨⟨t, cell⟩, member, rfl⟩
    rw [mem_visitSeries, series, Option.bind_eq_some_iff] at member
    obtain ⟨st, found, -⟩ := member
    exact ⟨st, found⟩
  · rintro ⟨st, found⟩
    have valid := wf.valid metric tags st found
    refine ⟨(tags, r.heap[st.cell]), ?_, rfl⟩
    rw [mem_visitSeries, series, found, Option.bind_some, List.getElem?_eq_getElem valid]

/-- Recording on a registered metric finds or creates its series. -/
theorem touch_cases {r : Registry H} {metric : MetricId} {kind : MetricKind}
    (registered : r.Registered metric kind) (tags : TagSet) (op : Cell H → Cell H) :
    (∃ handle, r.seriesGet metric tags = some handle ∧
      r.touch hdr metric tags op = r.update handle op) ∨
    (r.seriesGet metric tags = none ∧
      r.touch hdr metric tags op =
        (r.insertSeries metric tags (Cell.new hdr kind)).1.update ⟨r.heap.length⟩ op) := by
  -- a registered metric has a map of series, maybe an empty one
  obtain ⟨series, stored⟩ := Option.isSome_iff_exists.mp registered.stored
  cases found : series.get? tags with
  | some handle =>
    left
    exact ⟨handle, by simp [seriesGet, stored, found], by simp [touch, getHandle, stored, found]⟩
  | none =>
    right
    refine ⟨by simp [seriesGet, stored, found], ?_⟩
    simp [touch, getHandle, stored, found, registered.defined, insertSeries]

theorem Wf.touch {r : Registry H} (wf : r.Wf) {metric : MetricId} {kind : MetricKind}
    (registered : r.Registered metric kind) (tags : TagSet) (op : Cell H → Cell H) :
    (r.touch hdr metric tags op).Wf := by
  rcases touch_cases hdr registered tags op with ⟨handle, -, same⟩ | ⟨-, same⟩
  · rw [same]
    exact wf.update handle op
  · rw [same]
    exact (wf.insertSeries metric tags _).update _ op

/-- A recording changes the series of its metric and tags, and no other series. -/
theorem visitSeries_touch {r : Registry H} (wf : r.Wf) {metric : MetricId} {kind : MetricKind}
    (registered : r.Registered metric kind) (tags : TagSet) (op : Cell H → Cell H)
    (metric' : MetricId) :
    (r.touch hdr metric tags op).visitSeries metric' =
      if metric' = metric then upsert tags (Cell.new hdr kind) op (r.visitSeries metric)
      else r.visitSeries metric' := by
  rcases touch_cases hdr registered tags op with ⟨handle, found, same⟩ | ⟨absent, same⟩
  · have present : tags ∈ (r.visitSeries metric).map Prod.fst := wf.mem_visited.mpr (by simp [found])
    rw [same, visitSeries_update wf found, upsert, if_pos present]
  -- a new series holds a fresh cell, to which the operation is then applied
  · have missing : tags ∉ (r.visitSeries metric).map Prod.fst := by
      rw [wf.mem_visited]
      simp [absent]
    have here : (r.insertSeries metric tags (Cell.new hdr kind)).1.seriesGet metric tags =
        some ⟨r.heap.length⟩ := by
      simp [seriesGet_insertSeries]
    rw [same, visitSeries_update (wf.insertSeries metric tags _) here,
      visitSeries_insertSeries wf registered.stored absent,
      visitSeries_insertSeries wf registered.stored absent, if_pos rfl, upsert, if_neg missing,
      List.map_append, map_modifyAt_of_not_mem missing]
    split
    · simp [modifyAt]
    · rfl

theorem getHandle_interner (r : Registry H) (metric : MetricId) (tags : TagSet) :
    (r.getHandle hdr metric tags).1.interner = r.interner := by
  unfold getHandle
  split
  · rfl
  · split
    · rfl
    · split <;> rfl

theorem touch_interner (r : Registry H) (metric : MetricId) (tags : TagSet)
    (op : Cell H → Cell H) : (r.touch hdr metric tags op).interner = r.interner := by
  rw [← getHandle_interner hdr r metric tags]
  unfold touch
  split
  next got => rw [got]; rfl
  next got => rw [got]

/-- Recording takes no metric away. -/
theorem Registered.touch {r : Registry H} {metric metric' : MetricId} {kind kind' : MetricKind}
    (registered : r.Registered metric kind) (registered' : r.Registered metric' kind')
    (tags : TagSet) (op : Cell H → Cell H) :
    (r.touch hdr metric tags op).Registered metric' kind' := by
  rcases touch_cases hdr registered tags op with ⟨handle, -, same⟩ | ⟨-, same⟩
  · rw [same]
    exact ⟨registered'.stored, registered'.defined⟩
  · rw [same]
    refine ⟨?_, registered'.defined⟩
    simp only [update, insertSeries, HashTable.get?_insert]
    split
    · rfl
    · exact registered'.stored

end Registry

end Wrkr.Metrics
