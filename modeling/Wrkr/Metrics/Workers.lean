import Mathlib.Logic.Relation
import Wrkr.Metrics.SeriesRace
import Wrkr.Metrics.Summary

/-!
# Recordings of VUs that run in parallel

A recording of the source is a sequence of steps on the registry: a string is interned, a metric is
registered, a handle is looked up or its series inserted, a cell is updated. `Work` is what is left
of it, with the ids that the strings get still open, and `Work.run` does it in one go. `Workers`
are VUs in the middle of their work; any of them can take the next step.

`Worker.Moves` says once what a step does. As long as every insert of `get_handle` still finds its
series absent, that is an operation of the sequential registry, so nothing of another VU is lost.
-/
namespace Wrkr.Metrics

open Wrkr.Lib
open SeriesRace (Pc)

variable {ι H F : Type} (hdr : HdrHistogram H F)

/-! ### One access -/

/-- What is done to a cell: the amount of a recording of the run, or what a custom metric does. -/
inductive CellOp (H : Type)
  | amount (amount : Amount)
  | custom (op : Cell H → Cell H)

def CellOp.apply : CellOp H → Cell H → Cell H
  | .amount a, cell => a.apply hdr cell
  | .custom op, cell => op cell

@[simp] theorem CellOp.apply_custom (op : Cell H → Cell H) :
    (CellOp.custom op).apply hdr = op := rfl

/-- `if let Some(handle) = metrics.get_handle(metric, tags) { .. }`. -/
structure Access (H : Type) where
  metric : MetricId
  tags : TagSet
  op : CellOp H

/-- The atomic steps of `get_handle`, and the update of the cell. -/
def Access.step (access : Access H) (r : Registry H) : Pc → Option (Registry H × Pc)
  | .start => some (r, if (r.storage.get? access.metric).isSome then .opened else .finished)
  | .opened =>
    match r.seriesGet access.metric access.tags with
    | some handle => some (r, .holding handle)
    | none => some (r, .missed)
  | .missed =>
    match r.metricKind access.metric with
    | some kind => some (r, .creating kind)
    | none => some (r, .finished)
  | .creating kind =>
    let (r, handle) := r.insertSeries access.metric access.tags (Cell.new hdr kind)
    some (r, .holding handle)
  | .holding handle => some (r.update handle (access.op.apply hdr), .finished)
  | .finished => none

/-- The threads of `SeriesRace` make one access each. -/
theorem SeriesRace.threadStep_eq_access [DecidableEq ι] (calls : SeriesRace.Callers ι H F)
    (s : SeriesRace.State ι H) (i : ι) :
    SeriesRace.threadStep calls s i =
      ((Access.mk calls.metric calls.tags (.amount (.add (calls.amount i)))).step calls.hdr
        s.registry (s.pc i)).map fun (registry, pc) => ⟨registry, Function.update s.pc i pc⟩ := by
  rw [SeriesRace.threadStep]
  -- step by step the two are the same
  cases s.pc i with
  | start => rfl
  | opened =>
    dsimp only [Access.step]
    cases s.registry.seriesGet calls.metric calls.tags <;> rfl
  | missed =>
    dsimp only [Access.step]
    cases s.registry.metricKind calls.metric <;> rfl
  | creating kind => rfl
  | holding handle => rfl
  | finished => rfl

/-! ### Work -/

/-- What a VU is going to do with the registry. The ids of the strings are not known before they are
interned, so what follows takes them as arguments. `register` is one step: it holds the lock on the
definitions, and of the string that it interns before only the id matters. -/
inductive Work (H : Type)
  | done
  | intern (key : String) (next : KeyId → Work H)
  | register (name : String) (kind : MetricKind) (next : Work H)
  | access (access : Access H) (next : Work H)

namespace Work

/-- The work in one go. -/
def run : Work H → Registry H → Registry H
  | done, r => r
  | intern key next, r => (next (r.resolveKey key).2).run (r.resolveKey key).1
  | register name kind next, r => next.run (r.register name kind).1
  | access a next, r => next.run (r.touch hdr a.metric a.tags (a.op.apply hdr))

/-- The loop of `resolve_tags`: key and value of each pair, in order. -/
def internPairs : List (String × String) → (List (KeyId × KeyId) → Work H) → Work H
  | [], next => next []
  | (k, v) :: rest, next =>
    intern k fun key => intern v fun value =>
      internPairs rest fun resolved => next ((key, value) :: resolved)

def resolveTags (tags : List (String × String)) (next : TagSet → Work H) : Work H :=
  internPairs tags fun resolved => next (TagSet.fromSortedIter (resolved.insertionSort TagLe))

/-- What the work records on the metrics of the run, by the ids that the strings have. -/
def recordings (ids : String → KeyId) : Work H → List Recording
  | done => []
  | intern key next => (next (ids key)).recordings ids
  | register _ _ next => next.recordings ids
  | access ⟨metric, tags, .amount amount⟩ next => ⟨metric, tags, amount⟩ :: next.recordings ids
  | access ⟨_, _, .custom _⟩ next => next.recordings ids

/-- The strings that the work interns. -/
def interns (ids : String → KeyId) : Work H → List String
  | done => []
  | intern key next => key :: (next (ids key)).interns ids
  | register _ _ next => next.interns ids
  | access _ next => next.interns ids

theorem run_internPairs (tags : List (String × String)) (next : List (KeyId × KeyId) → Work H)
    (r : Registry H) :
    (internPairs tags next).run hdr r = (next (r.interner.internPairs tags).2).run hdr
      { r with interner := (r.interner.internPairs tags).1 } := by
  induction tags generalizing next r with
  | nil => rfl
  | cons tag rest ih => exact ih _ _

theorem run_resolveTags (tags : List (String × String)) (next : TagSet → Work H)
    (r : Registry H) :
    (resolveTags tags next).run hdr r =
      (next (r.resolveTags tags).2).run hdr (r.resolveTags tags).1 :=
  run_internPairs hdr tags _ r

section Resolved

variable (n : Interner)

theorem recordings_internPairs (tags : List (String × String))
    (next : List (KeyId × KeyId) → Work H) :
    (internPairs tags next).recordings n.idOf = (next (tags.map n.idsOf)).recordings n.idOf := by
  induction tags generalizing next with
  | nil => rfl
  | cons tag rest ih => exact ih _

theorem interns_internPairs (tags : List (String × String))
    (next : List (KeyId × KeyId) → Work H) :
    (internPairs tags next).interns n.idOf =
      Interner.stringsOf tags ++ (next (tags.map n.idsOf)).interns n.idOf := by
  induction tags generalizing next with
  | nil => rfl
  | cons tag rest ih =>
    change tag.1 :: tag.2 :: _ = _
    rw [ih]
    rfl

theorem recordings_resolveTags (tags : List (String × String)) (next : TagSet → Work H) :
    (resolveTags tags next).recordings n.idOf = (next (n.tagSet tags)).recordings n.idOf :=
  recordings_internPairs n tags _

theorem interns_resolveTags (tags : List (String × String)) (next : TagSet → Work H) :
    (resolveTags tags next).interns n.idOf =
      Interner.stringsOf tags ++ (next (n.tagSet tags)).interns n.idOf :=
  interns_internPairs n tags _

end Resolved

end Work

/-! ### VUs in the middle of their work -/

/-- The work that is left, and where the VU is within the access at the head of it. -/
structure Worker (H : Type) where
  work : Work H
  pc : Pc

namespace Worker

/-- The work from its beginning. -/
def start (work : Work H) : Worker H := ⟨work, .start⟩

/-- The VU is not inside a recording. -/
def idle (worker : Worker H) : Bool :=
  match worker.work with
  | .done => true
  | .intern _ _ | .register _ _ _ | .access _ _ => false

/-- The next step of the VU; it has none when it is idle. -/
def step (r : Registry H) : Worker H → Option (Registry H × Worker H)
  | ⟨.done, _⟩ => none
  | ⟨.intern key next, _⟩ =>
    let (r, id) := r.resolveKey key
    some (r, start (next id))
  | ⟨.register name kind next, _⟩ => some ((r.register name kind).1, start next)
  | ⟨.access access next, pc⟩ =>
    (access.step hdr r pc).map fun (r, pc) =>
      match pc with
      | .finished => (r, start next)
      | pc => (r, ⟨.access access next, pc⟩)

theorem step_of_idle (r : Registry H) {worker : Worker H} (idle : worker.idle = true) :
    worker.step hdr r = none := by
  obtain ⟨work, pc⟩ := worker
  cases work with
  | done => rfl
  | _ => cases idle

/-- What the next step adds to a cell of the run's metrics. -/
def books : Worker H → List Recording
  | ⟨.access ⟨metric, tags, .amount amount⟩ _, .holding _⟩ => [⟨metric, tags, amount⟩]
  | _ => []

/-- The series that the next step inserts. -/
def inserts : Worker H → Option (MetricId × TagSet)
  | ⟨.access access _, .creating _⟩ => some (access.metric, access.tags)
  | _ => none

/-- The series that the VU has a handle of. -/
def holds : Worker H → Option (MetricId × TagSet)
  | ⟨.access access _, .holding _⟩ => some (access.metric, access.tags)
  | _ => none

/-- The insert that is next, if any, still finds the series absent. -/
def InsertsFresh (r : Registry H) (worker : Worker H) : Prop :=
  ∀ series ∈ worker.inserts, r.seriesGet series.1 series.2 = none

instance (r : Registry H) (worker : Worker H) : Decidable (worker.InsertsFresh r) :=
  inferInstanceAs (Decidable (∀ series ∈ worker.inserts, _))

end Worker

/-- VUs that share a registry, each with its work. -/
structure Workers (ι H : Type) where
  registry : Registry H
  doing : ι → Worker H
  /-- Ghost: what was added to the metrics of the run, and by whom. -/
  log : List (ι × Recording)

namespace Workers

variable [DecidableEq ι]

/-- All VUs are idle. -/
def init (r : Registry H) : Workers ι H := ⟨r, fun _ => .start .done, []⟩

/-- A VU that is idle has something to record. -/
def begin (s : Workers ι H) (i : ι) (work : Work H) : Workers ι H :=
  { s with doing := Function.update s.doing i (.start work) }

/-- VU `i` takes its next step. -/
def proceed (s : Workers ι H) (i : ι) : Option (Workers ι H) :=
  ((s.doing i).step hdr s.registry).map fun (registry, worker) =>
    ⟨registry, Function.update s.doing i worker, s.log ++ (s.doing i).books.map (i, ·)⟩

theorem doing_begin_of_ne {s : Workers ι H} {i j : ι} (other : j ≠ i) (work : Work H) :
    (s.begin i work).doing j = s.doing j :=
  Function.update_of_ne other _ _

/-- A VU that is idle stays so when another one goes on. -/
theorem idle_proceed {s s' : Workers ι H} {i j : ι} (taken : s.proceed hdr i = some s')
    (idle : (s.doing j).idle = true) : (s'.doing j).idle = true := by
  obtain ⟨⟨registry, worker⟩, next, rfl⟩ := Option.map_eq_some_iff.mp taken
  rcases eq_or_ne j i with rfl | other
  · rw [Worker.step_of_idle hdr s.registry idle] at next
    cases next
  · simpa [Function.update_of_ne other] using idle

end Workers

/-! ### What lasts -/

namespace Registry

/-- What no step of a VU takes back. -/
structure Lasts (r r' : Registry H) : Prop where
  interner : Interner.Extends r.interner r'.interner
  series : ∀ metric tags handle, r.seriesGet metric tags = some handle →
    r'.seriesGet metric tags = some handle
  stored : ∀ metric, (r.storage.get? metric).isSome → (r'.storage.get? metric).isSome
  defs : r.defs <+: r'.defs

namespace Lasts

variable {r r' : Registry H}

theorem refl (r : Registry H) : Lasts r r :=
  ⟨Interner.Extends.refl _, fun _ _ _ found => found, fun _ stored => stored, List.prefix_rfl⟩

theorem withInterner {interner : Interner} (ext : Interner.Extends r.interner interner) :
    Lasts r (r.withInterner interner) :=
  ⟨ext, fun _ _ _ found => found, fun _ stored => stored, List.prefix_rfl⟩

theorem definition (lasts : Lasts r r') {metric : MetricId} {metricDef : MetricDef}
    (here : r.defs[metric.toNat]? = some metricDef) :
    r'.defs[metric.toNat]? = some metricDef := by
  obtain ⟨later, isDefs⟩ := lasts.defs
  rw [← isDefs, List.getElem?_append_left (List.getElem?_eq_some_iff.mp here).1]
  exact here

theorem registered (lasts : Lasts r r') {metric : MetricId} {kind : MetricKind}
    (registered : r.Registered metric kind) : r'.Registered metric kind := by
  refine ⟨lasts.stored metric registered.stored, ?_⟩
  have defined := registered.defined
  rw [metricKind, Option.map_eq_some_iff] at defined ⊢
  obtain ⟨d, here, isKind⟩ := defined
  exact ⟨d, lasts.definition here, isKind⟩

theorem defines (lasts : Lasts r r') {metric : MetricId} {name : String} {metricDef : MetricDef}
    (defines : r.Defines metric name metricDef) : r'.Defines metric name metricDef :=
  ⟨lasts.stored metric defines.stored, lasts.definition defines.defined,
    lasts.interner _ _ defines.named⟩

end Lasts

/-- Registering takes nothing back. -/
theorem Orderly.lasts_register {r : Registry H} (orderly : r.Orderly) (name : String)
    (kind : MetricKind) : Lasts r (r.register name kind).1 := by
  have ext := Interner.getOrIntern_extends r.interner name
  rcases r.register_cases name kind with same | ⟨new, same⟩
  · rw [same]
    exact .withInterner ext
  · rw [same]
    -- the new definition has a number of its own
    refine ⟨ext, fun metric tags handle found => ?_, fun metric stored => ?_,
      List.prefix_append _ _⟩
    · have stored : (r.storage.get? metric).isSome := by
        rw [seriesGet, Option.bind_eq_some_iff] at found
        obtain ⟨series, isStored, -⟩ := found
        rw [isStored]
        rfl
      rw [seriesGet, orderly.get?_define kind new stored]
      exact found
    · rw [orderly.get?_define kind new stored]
      exact stored

/-- Recording takes nothing back: a series that is there keeps its handle. -/
theorem Orderly.lasts_touch {r : Registry H} (orderly : r.Orderly) (metric : MetricId)
    (tags : TagSet) (op : Cell H → Cell H) : Lasts r (r.touch hdr metric tags op) := by
  cases stored : r.storage.get? metric with
  | none =>
    rw [touch_of_absent hdr stored]
    exact Lasts.refl r
  | some series =>
    obtain ⟨kind, registered⟩ :=
      orderly.registered (by simp [stored] : (r.storage.get? metric).isSome)
    rcases touch_cases hdr registered tags op with ⟨handle, -, same⟩ | ⟨absent, same⟩
    · rw [same]
      exact ⟨Interner.Extends.refl _, fun _ _ _ found => found, fun _ stored => stored,
        List.prefix_rfl⟩
    · rw [same]
      refine ⟨Interner.Extends.refl _, fun metric' tags' handle found => ?_,
        fun metric' isStored => ?_, List.prefix_rfl⟩
      · rw [seriesGet_update, seriesGet_insertSeries, if_neg ?_]
        · exact found
        -- the inserted series was absent, so it is none of those that are there
        · rintro ⟨rfl, rfl⟩
          rw [absent] at found
          cases found
      · simp only [update, insertSeries, HashTable.get?_insert]
        split
        · rfl
        · exact isStored

end Registry

/-! ### What a step does -/

/-- What a VU knows of the series that it is about to use. -/
def Access.Ok (r : Registry H) (access : Access H) : Pc → Prop
  | .start => True
  | .opened | .missed => (r.storage.get? access.metric).isSome
  | .creating kind => r.Registered access.metric kind
  | .holding handle => r.seriesGet access.metric access.tags = some handle
  | .finished => False

theorem Access.Ok.lasts {r r' : Registry H} {access : Access H} {pc : Pc} (ok : access.Ok r pc)
    (lasts : r.Lasts r') : access.Ok r' pc := by
  cases pc with
  | start => trivial
  | opened => exact lasts.stored _ ok
  | missed => exact lasts.stored _ ok
  | creating kind => exact lasts.registered ok
  | holding handle => exact lasts.series _ _ _ ok
  | finished => exact ok

namespace Worker

/-- A VU inside an access knows what `Access.Ok` says, any other knows nothing. -/
def Ok (r : Registry H) (worker : Worker H) : Prop :=
  match worker.work with
  | .access access _ => access.Ok r worker.pc
  | .done | .intern _ _ | .register _ _ _ => True

theorem Ok.lasts {r r' : Registry H} {worker : Worker H} (ok : worker.Ok r) (lasts : r.Lasts r') :
    worker.Ok r' := by
  obtain ⟨work, pc⟩ := worker
  cases work with
  | access access next => exact Access.Ok.lasts ok lasts
  | done => trivial
  | intern key next => trivial
  | register name kind next => trivial

theorem ok_start (r : Registry H) (work : Work H) : (start work).Ok r := by
  cases work <;> trivial

/-- A step of a VU, as an operation of the sequential registry. -/
inductive Moves (r : Registry H) : Worker H → Registry H → Worker H → Prop
  | intern (key : String) (next : KeyId → Work H) (pc : Pc) :
      Moves r ⟨.intern key next, pc⟩ (r.resolveKey key).1 (start (next (r.resolveKey key).2))
  | register (name : String) (kind : MetricKind) (next : Work H) (pc : Pc) :
      Moves r ⟨.register name kind next, pc⟩ (r.register name kind).1 (start next)
  /-- Nothing is recorded on a metric that is not registered. -/
  | skip (access : Access H) (next : Work H) : r.storage.get? access.metric = none →
      Moves r ⟨.access access next, .start⟩ r (start next)
  | look (access : Access H) (next : Work H) (pc pc' : Pc) :
      (⟨.access access next, pc⟩ : Worker H).holds = none → access.Ok r pc' →
      Moves r ⟨.access access next, pc⟩ r ⟨.access access next, pc'⟩
  | create (access : Access H) (next : Work H) (kind : MetricKind) :
      r.Registered access.metric kind → r.seriesGet access.metric access.tags = none →
      Moves r ⟨.access access next, .creating kind⟩ (r.touch hdr access.metric access.tags id)
        ⟨.access access next, .holding ⟨r.heap.length⟩⟩
  | update (access : Access H) (next : Work H) (handle : MetricHandle) :
      r.seriesGet access.metric access.tags = some handle →
      Moves r ⟨.access access next, .holding handle⟩
        (r.touch hdr access.metric access.tags (access.op.apply hdr)) (start next)

variable {hdr} {r r' : Registry H} {worker worker' : Worker H}

/-- An operation on the cell of a series that is there. -/
theorem touch_of_seriesGet {metric : MetricId} {tags : TagSet} {handle : MetricHandle}
    (found : r.seriesGet metric tags = some handle) (op : Cell H → Cell H) :
    r.touch hdr metric tags op = r.update handle op := by
  rw [Registry.seriesGet, Option.bind_eq_some_iff] at found
  obtain ⟨series, stored, here⟩ := found
  rw [Registry.touch, Registry.getHandle, stored]
  simp only [here]

/-- An insert of a series that is absent. -/
theorem touch_id_of_absent {metric : MetricId} {tags : TagSet} {kind : MetricKind}
    (registered : r.Registered metric kind) (absent : r.seriesGet metric tags = none) :
    r.touch hdr metric tags id = (r.insertSeries metric tags (Cell.new hdr kind)).1 := by
  rcases Registry.touch_cases hdr registered tags id with ⟨handle, found, -⟩ | ⟨-, same⟩
  · rw [absent] at found
    cases found
  · rw [same, Registry.update, List.modify_id]

/-- One step, when the insert that is next finds the series absent. -/
theorem moves_of_step (orderly : r.Orderly) (ok : worker.Ok r) (fresh : worker.InsertsFresh r)
    (taken : worker.step hdr r = some (r', worker')) : Moves hdr r worker r' worker' := by
  obtain ⟨work, pc⟩ := worker
  cases work with
  | done => cases taken
  | intern key next =>
    cases taken
    exact .intern key next pc
  | register name kind next =>
    cases taken
    exact .register name kind next pc
  | access access next =>
    change access.Ok r pc at ok
    rw [step] at taken
    cases pc with
    | start =>
      cases stored : r.storage.get? access.metric with
      | none =>
        simp only [Access.step, stored] at taken
        cases taken
        exact .skip access next stored
      | some series =>
        simp only [Access.step, stored] at taken
        cases taken
        exact .look access next .start .opened rfl (by simp [Access.Ok, stored])
    | opened =>
      cases found : r.seriesGet access.metric access.tags with
      | none =>
        simp only [Access.step, found] at taken
        cases taken
        exact .look access next .opened .missed rfl ok
      | some handle =>
        simp only [Access.step, found] at taken
        cases taken
        exact .look access next .opened (.holding handle) rfl found
    | missed =>
      -- what has a series map has a definition
      obtain ⟨kind, registered⟩ := orderly.registered ok
      simp only [Access.step, registered.defined] at taken
      cases taken
      exact .look access next .missed (.creating kind) rfl registered
    | creating kind =>
      have absent : r.seriesGet access.metric access.tags = none :=
        fresh (access.metric, access.tags) rfl
      have moves : Moves hdr r _ _ _ := .create access next kind ok absent
      rw [touch_id_of_absent ok absent] at moves
      cases taken
      exact moves
    | holding handle =>
      have moves : Moves hdr r _ _ _ := .update access next handle ok
      rw [touch_of_seriesGet ok] at moves
      cases taken
      exact moves
    | finished => exact ok.elim

/-- What a step leaves behind. -/
theorem Moves.lasts (moves : Moves hdr r worker r' worker') (orderly : r.Orderly) :
    r.Lasts r' ∧ r'.Orderly ∧ worker'.Ok r' := by
  cases moves with
  | intern key next pc =>
    have ext := Interner.getOrIntern_extends r.interner key
    exact ⟨Registry.Lasts.withInterner ext, orderly.withInterner ext, ok_start _ _⟩
  | register name kind next pc =>
    exact ⟨orderly.lasts_register name kind, orderly.register name kind, ok_start _ _⟩
  | skip access next absent => exact ⟨.refl r, orderly, ok_start _ _⟩
  | look access next pc pc' free ok => exact ⟨.refl r, orderly, ok⟩
  -- the handle in hand is that of the series that was just inserted
  | create access next kind registered absent =>
    refine ⟨orderly.lasts_touch hdr _ _ _, orderly.touch hdr _ _ _, ?_⟩
    change Registry.seriesGet _ _ _ = _
    rw [touch_id_of_absent registered absent, Registry.seriesGet_insertSeries, if_pos ⟨rfl, rfl⟩]
  | update access next handle found =>
    exact ⟨orderly.lasts_touch hdr _ _ _, orderly.touch hdr _ _ _, ok_start _ _⟩

/-- No step of a VU breaks the interner. -/
theorem Moves.interner (moves : Moves hdr r worker r' worker') (wf : r.interner.Wf) :
    r'.interner.Wf := by
  cases moves with
  | intern key next pc => exact wf.getOrIntern key
  | register name kind next pc =>
    rw [Registry.register_interner]
    exact wf.getOrIntern name
  | skip access next absent => exact wf
  | look access next pc pc' free ok => exact wf
  | create access next kind registered absent =>
    rw [Registry.touch_interner]
    exact wf
  | update access next handle found =>
    rw [Registry.touch_interner]
    exact wf

/-- A VU that nobody disturbs does its work as in one go. -/
theorem alone (orderly : r.Orderly) (work : Work H) :
    Relation.ReflTransGen (fun a b => step hdr a.1 a.2 = some b) (r, start work)
      (work.run hdr r, start .done) := by
  induction work generalizing r with
  | done => exact .refl
  | intern key next ih =>
    have ext := Interner.getOrIntern_extends r.interner key
    exact .head rfl (ih _ (r := (r.resolveKey key).1) (orderly.withInterner ext))
  | register name kind next ih => exact .head rfl (ih (orderly.register name kind))
  | access access next ih =>
    have later := ih (orderly.touch hdr access.metric access.tags (access.op.apply hdr))
    rw [Work.run]
    cases stored : r.storage.get? access.metric with
    | none =>
      rw [Registry.touch_of_absent hdr stored] at later ⊢
      exact .head (by simp [step, start, Access.step, stored]) later
    | some series =>
      have opened : step hdr r (start (.access access next)) =
          some (r, ⟨.access access next, .opened⟩) := by
        simp [step, start, Access.step, stored]
      refine .head opened ?_
      cases found : r.seriesGet access.metric access.tags with
      | some handle =>
        rw [touch_of_seriesGet found] at later ⊢
        exact .head (b := (r, ⟨.access access next, .holding handle⟩))
          (by simp [step, Access.step, found]) (.head rfl later)
      | none =>
        obtain ⟨kind, registered⟩ :=
          orderly.registered (by simp [stored] : (r.storage.get? access.metric).isSome)
        rcases Registry.touch_cases hdr registered access.tags (access.op.apply hdr) with
          ⟨handle, there, -⟩ | ⟨-, same⟩
        · rw [found] at there
          cases there
        · rw [same] at later ⊢
          -- the series is absent, so it is inserted before its cell is updated
          refine .head (b := (r, ⟨.access access next, .missed⟩))
            (by simp [step, Access.step, found]) ?_
          refine .head (b := (r, ⟨.access access next, .creating kind⟩))
            (by simp [step, Access.step, registered.defined]) ?_
          exact .head rfl (.head rfl later)

end Worker

end Wrkr.Metrics
