import Mathlib.Algebra.BigOperators.Fin
import Wrkr.Lib.Machine
import Wrkr.Lib.Tasks
import Wrkr.Metrics.Totals

/-!
# First-time callers of `get_handle`

`Registry::get_handle` looks a series up and, when there is none, inserts a new one in a separate
step that does not look again. Two first-time callers can therefore both insert, and the cell of
the first is lost with everything added to it. `updates_kept` says that nothing is lost in the
interleavings where every insert still finds the series absent; `update_lost` is one where it
does not.
-/
namespace Wrkr.Metrics

open Wrkr.Lib

namespace SeriesRace

/-- A thread: the atomic steps of `get_handle`, then `c.fetch_add` on the handle. -/
inductive Pc
  | start
  /-- `self.storage.get(&metric)` has found the series map. -/
  | opened
  /-- `series_map.get(&tags)` has found nothing. -/
  | missed
  /-- The kind has been read from `defs`; `series_map.insert` is next. -/
  | creating (kind : MetricKind)
  | holding (handle : MetricHandle)
  | finished
  deriving DecidableEq, Repr

/-- The insert of `get_handle` is the next step. -/
def Pc.Inserting : Pc → Prop
  | .creating _ => True
  | _ => False

instance : (pc : Pc) → Decidable pc.Inserting
  | .creating _ => isTrue trivial
  | .start | .opened | .missed | .holding _ | .finished => isFalse id

variable {ι H F : Type}

/-- The registry that the threads share, and where each of them is in its call. -/
structure State (ι H : Type) where
  registry : Registry H
  pc : ι → Pc

/-- What all threads of a run share: they call `get_handle` for the same series, and thread `i`
adds `amount i`. -/
structure Callers (ι H F : Type) where
  hdr : HdrHistogram H F
  metric : MetricId
  tags : TagSet
  amount : ι → UInt64

variable [DecidableEq ι] (calls : Callers ι H F)

/-- One atomic step of a thread: a look-up, the read of the kind, the insert or the addition. -/
def threadStep (s : State ι H) (i : ι) : Option (State ι H) :=
  let goto (registry : Registry H) (pc : Pc) : State ι H :=
    ⟨registry, Function.update s.pc i pc⟩
  match s.pc i with
  -- a metric that is not registered has no map; the caller gets `None`
  | .start =>
    some (goto s.registry
      (if (s.registry.storage.get? calls.metric).isSome then .opened else .finished))
  | .opened =>
    match s.registry.seriesGet calls.metric calls.tags with
    | some storage => some (goto s.registry (.holding storage))
    | none => some (goto s.registry .missed)
  | .missed =>
    match s.registry.metricKind calls.metric with
    | some kind => some (goto s.registry (.creating kind))
    | none => some (goto s.registry .finished)
  -- `insert` without a second look
  | .creating kind =>
    let (registry, handle) :=
      s.registry.insertSeries calls.metric calls.tags (Cell.new calls.hdr kind)
    some (goto registry (.holding handle))
  | .holding handle =>
    some (goto (s.registry.update handle (Cell.fetchAdd (calls.amount i))) .finished)
  | .finished => none

/-- The threads in any order, from a given registry on. -/
def machine (r₀ : Registry H) : Machine (State ι H) ι where
  init s := s = ⟨r₀, fun _ => .start⟩
  step := threadStep calls

/-- An insert is taken only while the series map has no entry for the tags. -/
def InsertsFresh (s : State ι H) (i : ι) : Prop :=
  (s.pc i).Inserting → s.registry.seriesGet calls.metric calls.tags = none

instance (s : State ι H) (i : ι) : Decidable (InsertsFresh calls s i) :=
  inferInstanceAs (Decidable (_ → _))

/-- The value the registry reports for the series. -/
def reported (r : Registry H) : UInt64 :=
  r.foldCounterSum calls.metric fun tags => tags = calls.tags

/-- The series is a counter at `v`, or absent with `v = 0`. -/
def CounterAt (r : Registry H) (v : UInt64) : Prop :=
  match r.series calls.metric calls.tags with
  | some cell => cell = .counter v
  | none => v = 0

omit [DecidableEq ι] in
/-- The value that a query reports. -/
theorem CounterAt.reported {r : Registry H} {v : UInt64} (value : CounterAt calls r v) :
    reported calls r = v := by
  have sum := foldCounterSum_toNat r calls.metric fun tags => decide (tags = calls.tags)
  unfold CounterAt at value
  apply UInt64.toNat_inj.mp
  rw [SeriesRace.reported, sum]
  split at value
  next cell found =>
    -- one series matches the tags
    rw [total_eq_tags (r.visitSeries_nodup _) (Registry.mem_visitSeries.mpr found), value]
    have bound := v.toNat_lt
    simp only [Cell.counterValue, Cell.counter?, Option.map_some, Option.getD_some]
    omega
  next absent =>
    -- no series matches, and the sum is empty
    have zero : total (fun tags => decide (tags = calls.tags)) Cell.counterValue
        (r.visitSeries calls.metric) = 0 := by
      apply List.sum_eq_zero
      intro n member
      rw [List.mem_map] at member
      obtain ⟨⟨t, cell⟩, visited, rfl⟩ := member
      have other : t ≠ calls.tags := by
        rintro rfl
        rw [Registry.mem_visitSeries, absent] at visited
        simp at visited
      simp [other]
    rw [zero, value]
    rfl

/-! ### Invariant -/

variable [Fintype ι] {calls}

/-- What the threads that have finished have added. -/
def added (calls : Callers ι H F) (pc : ι → Pc) : Nat :=
  ∑ i, if pc i = .finished then (calls.amount i).toNat else 0

/-- In every state: the metric is a counter, its cell holds what has been added, and a thread with a
handle has that of this very cell. -/
structure Inv (calls : Callers ι H F) (v₀ : Nat) (s : State ι H) : Prop where
  wf : s.registry.Wf
  registered : s.registry.Registered calls.metric .counter
  value : CounterAt calls s.registry (UInt64.ofNat (v₀ + added calls s.pc))
  creating : ∀ i kind, s.pc i = .creating kind → kind = .counter
  /-- All handles are clones of the one storage of the series. -/
  holding : ∀ i handle, s.pc i = .holding handle →
    s.registry.seriesGet calls.metric calls.tags = some handle

theorem added_update (pc : ι → Pc) (i : ι) (pc' : Pc) (running : pc i ≠ .finished) :
    added calls (Function.update pc i pc') =
      added calls pc + if pc' = .finished then (calls.amount i).toNat else 0 := by
  -- the summand of `i` is the only one that changes
  have moved := sum_moved_task
    (fun j pc => if pc = Pc.finished then (calls.amount j).toNat else 0) pc i pc'
  simpa [added, running] using moved

/-- A thread moves on without touching the registry. -/
theorem Inv.goto {v₀ : Nat} {s : State ι H} (inv : Inv calls v₀ s) {i : ι} {pc : Pc}
    (running : s.pc i ≠ .finished) (going : pc ≠ .finished)
    (creating : ∀ kind, pc = .creating kind → kind = .counter)
    (holding : ∀ handle, pc = .holding handle →
      s.registry.seriesGet calls.metric calls.tags = some handle) :
    Inv calls v₀ ⟨s.registry, Function.update s.pc i pc⟩ := by
  constructor
  · exact inv.wf
  · exact inv.registered
  · rw [added_update s.pc i pc running, if_neg going, Nat.add_zero]
    exact inv.value
  · intro j kind isCreating
    by_cases same : j = i
    · subst same
      exact creating kind (by simpa using isCreating)
    · exact inv.creating j kind (by simpa [same] using isCreating)
  · intro j handle isHolding
    by_cases same : j = i
    · subst same
      exact holding handle (by simpa using isHolding)
    · exact inv.holding j handle (by simpa [same] using isHolding)

/-- The insert of a fresh series: nobody holds a handle yet, and nothing has been added. -/
theorem Inv.insert {v₀ : Nat} {s : State ι H} (inv : Inv calls v₀ s) {i : ι} {kind : MetricKind}
    (inserting : s.pc i = .creating kind)
    (fresh : s.registry.seriesGet calls.metric calls.tags = none) :
    Inv calls v₀ ⟨(s.registry.insertSeries calls.metric calls.tags (Cell.new calls.hdr kind)).1,
      Function.update s.pc i (.holding ⟨s.registry.heap.length⟩)⟩ := by
  have isCounter := inv.creating i kind inserting
  subst isCounter
  have here : (s.registry.insertSeries calls.metric calls.tags
      (Cell.new calls.hdr .counter)).1.seriesGet calls.metric calls.tags =
      some ⟨s.registry.heap.length⟩ := by
    simp [Registry.seriesGet_insertSeries]
  constructor
  · exact inv.wf.insertSeries _ _ _
  · refine ⟨?_, inv.registered.defined⟩
    simp [Registry.insertSeries]
  -- an absent series reads as 0, so what has been added so far is 0 in 64 bits
  · have unset : UInt64.ofNat (v₀ + added calls s.pc) = 0 := by
      have value := inv.value
      simpa [CounterAt, Registry.series, fresh] using value
    rw [added_update s.pc i _ (by simp [inserting]), if_neg (by simp), Nat.add_zero, unset]
    simp only [CounterAt, Registry.series, here, Option.bind_some]
    simp [Registry.insertSeries, Cell.new]
  · intro j kind isCreating
    by_cases same : j = i
    · subst same
      simp at isCreating
    · exact inv.creating j kind (by simpa [same] using isCreating)
  · intro j handle isHolding
    by_cases same : j = i
    · subst same
      have isNew : (⟨s.registry.heap.length⟩ : MetricHandle) = handle := by simpa using isHolding
      rw [here, isNew]
    -- a handle before the first insert would be one of a series that is absent
    · have old := inv.holding j handle (by simpa [same] using isHolding)
      simp [fresh] at old

/-- The `fetch_add`: the handle is that of the series. -/
theorem Inv.fetchAdd {v₀ : Nat} {s : State ι H} (inv : Inv calls v₀ s) {i : ι}
    {handle : MetricHandle} (isHolding : s.pc i = .holding handle) :
    Inv calls v₀ ⟨s.registry.update handle (Cell.fetchAdd (calls.amount i)),
      Function.update s.pc i .finished⟩ := by
  have here := inv.holding i handle isHolding
  have valid := inv.wf.valid _ _ _ here
  constructor
  · exact inv.wf.update handle _
  · exact ⟨inv.registered.stored, inv.registered.defined⟩
  -- the handle points to the cell of the series, which holds what was added before
  · have cell : s.registry.series calls.metric calls.tags =
        some (.counter (UInt64.ofNat (v₀ + added calls s.pc))) := by
      have value := inv.value
      have loaded : s.registry.series calls.metric calls.tags = some s.registry.heap[handle.cell] := by
        simp [Registry.series, here, List.getElem?_eq_getElem valid]
      simp only [CounterAt, loaded] at value
      rw [loaded, value]
    rw [added_update s.pc i _ (by simp [isHolding]), if_pos rfl, ← Nat.add_assoc, UInt64.ofNat_add,
      UInt64.ofNat_toNat, CounterAt, Registry.series_update here, cell]
    rfl
  · intro j kind isCreating
    by_cases same : j = i
    · subst same
      simp at isCreating
    · exact inv.creating j kind (by simpa [same] using isCreating)
  · intro j handle' isHolding'
    by_cases same : j = i
    · subst same
      simp at isHolding'
    · exact inv.holding j handle' (by simpa [same] using isHolding')

/-- Every step keeps this, if the inserts are fresh. -/
theorem inv_threadStep {v₀ : Nat} {s s' : State ι H} {i : ι} (inv : Inv calls v₀ s)
    (fresh : InsertsFresh calls s i) (taken : threadStep calls s i = some s') :
    Inv calls v₀ s' := by
  unfold threadStep at taken
  dsimp only at taken
  split at taken
  next starting =>
    cases taken
    apply inv.goto (by simp [starting]) <;> simp [inv.registered.stored]
  next opened =>
    split at taken
    next handle found =>
      cases taken
      apply inv.goto (by simp [opened]) <;> simp [found]
    next =>
      cases taken
      apply inv.goto (by simp [opened]) <;> simp
  next missed =>
    -- the kind is that of the registration
    rw [inv.registered.defined] at taken
    cases taken
    apply inv.goto (by simp [missed]) <;> simp
  next kind inserting =>
    cases taken
    exact inv.insert inserting (fresh (by rw [inserting]; trivial))
  next handle isHolding =>
    cases taken
    exact inv.fetchAdd isHolding
  next => simp at taken

/-- In every interleaving whose inserts all find the series absent, the registry reports
everything that has been added once all threads have finished. -/
theorem updates_kept (calls : Callers ι H F) {r₀ : Registry H} (wf : r₀.Wf)
    (registered : r₀.Registered calls.metric .counter) (v₀ : UInt64)
    (initial : CounterAt calls r₀ v₀) {s : State ι H}
    (run : (machine calls r₀).ReachableBy (InsertsFresh calls) s)
    (finished : ∀ i, s.pc i = .finished) :
    (reported calls s.registry).toNat =
      (v₀.toNat + ∑ i, (calls.amount i).toNat) % 2 ^ 64 := by
  have inv : Inv calls v₀.toNat s := by
    apply run.invariant
    · rintro s rfl
      constructor
      · exact wf
      · exact registered
      · simpa [added] using initial
      · simp
      · simp
    · intro s i s' inv fresh taken
      exact inv_threadStep inv fresh taken
  have value := inv.value.reported
  rw [value, UInt64.toNat_ofNat']
  simp [added, finished]

/-- Two threads add 5 and 7 to the untagged series of a counter. -/
def twoCallers : Callers (Fin 2) (List UInt64) Float where
  hdr := HdrHistogram.exact
  metric := 0
  tags := TagSet.empty
  amount i := if i = 0 then 5 else 7

/-- A registry with one counter. -/
def oneCounter : Registry (List UInt64) := (Registry.default.register "requests_total" .counter).1

/-- The second thread finds the series of the first, and the registry reports 12. -/
theorem updates_kept_in_turn :
    ∃ s : State (Fin 2) (List UInt64),
      (machine twoCallers oneCounter).ReachableBy (InsertsFresh twoCallers) s ∧
        (∀ i, s.pc i = .finished) ∧ (reported twoCallers s.registry).toNat = 12 := by
  obtain ⟨s, run, finished⟩ := Machine.exists_reachableBy_of_exec
    (machine twoCallers oneCounter) (InsertsFresh twoCallers) (fun s => ∀ i, s.pc i = .finished)
    [0, 0, 0, 0, 0, 1, 1, 1] rfl (by decide)
  have wf : oneCounter.Wf := Registry.wf_default.register _ _
  have registered : oneCounter.Registered twoCallers.metric .counter := ⟨rfl, rfl⟩
  have total := updates_kept twoCallers wf registered 0 rfl run finished
  exact ⟨s, run, finished, total.trans (by decide)⟩

/-- Both threads miss before either inserts: the second insert overwrites the series of the
first, and the registry reports only one of the two amounts. -/
theorem update_lost :
    ∃ s : State (Fin 2) (List UInt64), (machine twoCallers oneCounter).Reachable s ∧
      (∀ i, s.pc i = .finished) ∧
      (reported twoCallers s.registry).toNat ≠ ∑ i, (twoCallers.amount i).toNat := by
  obtain ⟨s, run, finished, lost⟩ := Machine.exists_reachableBy_of_exec
    (machine twoCallers oneCounter) (fun _ _ => True)
    (fun s => (∀ i, s.pc i = .finished) ∧ (reported twoCallers s.registry).toNat = 7)
    [0, 0, 0, 1, 1, 1, 0, 0, 1, 1] rfl (by decide)
  exact ⟨s, run, finished, by rw [lost]; decide⟩

end SeriesRace

end Wrkr.Metrics
