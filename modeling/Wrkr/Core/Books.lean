import Wrkr.Core.Ledger
import Wrkr.Core.Recording
import Wrkr.Lib.Tasks

/-!
# The books of a run

VUs that record in parallel, each in the middle of its work. `Sound` says that the metrics of the
run hold what has been added to them so far, plus the empty series that a VU has just inserted, and
`Owes` that what a VU has added and what its work is still going to add are the entries that it has
begun. Every step of a VU keeps both, as long as the inserts of `get_handle` still find their series
absent. When no VU is inside a recording, the metrics hold the entries that have been begun
(`Sound.ledger`).
-/
namespace Wrkr.Core.Accounting

open Wrkr.Lib Wrkr.Metrics

variable {ι H F : Type} (hdr : HdrHistogram H F)

/-- The metric of the run with the name, with what has been added to it. -/
structure Held (s : Workers ι H) (metric : MetricId) (name : String) (kind : MetricKind) :
    Prop where
  tracks : s.registry.Tracks metric kind
  defines : ∃ id, s.registry.Defines metric name ⟨id, kind⟩
  series : ∀ tags, tags ∈ (s.registry.visitSeries metric).map Prod.fst ↔
    (∃ e ∈ s.log, e.2.metric = metric ∧ e.2.tags = tags) ∨
      ∃ i, (s.doing i).holds = some (metric, tags)
  totals : ∀ predicate, Registry.recorded hdr metric predicate (s.log.map Prod.snd) < 2 ^ 64 →
    total predicate (weight hdr kind) (s.registry.visitSeries metric) =
      Registry.recorded hdr metric predicate (s.log.map Prod.snd)

/-- The registry is in order, every VU is at a sensible point of a proper work, and the metrics of
the run hold what has been added. -/
structure Sound (s : Workers ι H) : Prop where
  orderly : s.registry.Orderly
  interner : s.registry.interner.Wf
  ok : ∀ i, (s.doing i).Ok s.registry
  proper : ∀ i, Proper (s.doing i).work
  held : ∀ i name kind, runMetrics[i]? = some (name, kind) →
    Held hdr s (UInt32.ofNat i) name kind

variable {hdr} {s s' : Workers ι H}

/-! ### A step on one metric -/

section Metric

variable {metric : MetricId} {name : String} {kind : MetricKind}

variable [DecidableEq ι] {i : ι}

/-- Only the VU that moves may get or give up a handle. -/
theorem exists_holds_update {worker' : Worker H} {series : MetricId × TagSet} :
    (∃ j, (Function.update s.doing i worker' j).holds = some series) ↔
      worker'.holds = some series ∨ ∃ j, j ≠ i ∧ (s.doing j).holds = some series := by
  constructor
  · rintro ⟨j, holds⟩
    rcases eq_or_ne j i with rfl | other
    · exact .inl (by rwa [Function.update_self] at holds)
    · exact .inr ⟨j, other, by rwa [Function.update_of_ne other] at holds⟩
  · rintro (holds | ⟨j, other, holds⟩)
    · exact ⟨i, by rwa [Function.update_self]⟩
    · exact ⟨j, by rwa [Function.update_of_ne other]⟩

/-- A VU that holds no handle of the metric leaves its series alone. -/
theorem Held.move (held : Held hdr s metric name kind) (worker' : Worker H)
    (more : List Recording) {r' : Registry H} (lasts : s.registry.Lasts r')
    (visited : r'.visitSeries metric = s.registry.visitSeries metric)
    (elsewhere : ∀ rec ∈ more, rec.metric ≠ metric)
    (before : ∀ tags, (s.doing i).holds ≠ some (metric, tags))
    (found : ∀ tags, worker'.holds = some (metric, tags) →
      tags ∈ (s.registry.visitSeries metric).map Prod.fst) :
    Held hdr ⟨r', Function.update s.doing i worker', s.log ++ more.map (i, ·)⟩ metric name
      kind := by
  obtain ⟨number, defines⟩ := held.defines
  refine ⟨⟨lasts.registered held.tracks.registered, visited ▸ held.tracks.typed⟩,
    ⟨number, lasts.defines defines⟩, fun tags => ?_, fun predicate fits => ?_⟩
  -- a series is there for a recording that is done or for a handle that is held, and this VU
  -- changes neither
  · rw [visited, exists_holds_update]
    constructor
    · intro member
      rcases (held.series tags).mp member with ⟨e, inLog, on⟩ | ⟨j, holds⟩
      · exact .inl ⟨e, List.mem_append_left _ inLog, on⟩
      · have other : j ≠ i := by
          rintro rfl
          exact before tags holds
        exact .inr (.inr ⟨j, other, holds⟩)
    · rintro (⟨e, inLog, on, same⟩ | holds | ⟨j, -, holds⟩)
      · rcases List.mem_append.mp inLog with old | new
        · exact (held.series tags).mpr (.inl ⟨e, old, on, same⟩)
        · obtain ⟨rec, isMore, rfl⟩ := List.mem_map.mp new
          exact absurd on (elsewhere rec isMore)
      · exact found tags holds
      · exact (held.series tags).mpr (.inr ⟨j, holds⟩)
  · have nothing : Registry.recorded hdr metric predicate ((more.map (i, ·)).map Prod.snd) = 0 := by
      refine List.sum_eq_zero fun size member => ?_
      simp only [List.map_map, List.mem_map] at member
      obtain ⟨rec, isMore, rfl⟩ := member
      exact if_neg fun on => elsewhere rec isMore on.1
    dsimp only at fits ⊢
    rw [List.map_append, Registry.recorded_append, nothing, Nat.add_zero] at fits ⊢
    rw [visited]
    exact held.totals predicate fits

/-- A VU inserts a series of the metric, and holds its handle. -/
theorem Held.create (lawful : hdr.Lawful) (held : Held hdr s metric name kind)
    (orderly : s.registry.Orderly) (worker' : Worker H) (tags : TagSet)
    (before : (s.doing i).holds = none) (after : worker'.holds = some (metric, tags)) :
    Held hdr ⟨s.registry.touch hdr metric tags id, Function.update s.doing i worker', s.log⟩ metric
      name kind := by
  have registered := held.tracks.registered
  obtain ⟨number, defines⟩ := held.defines
  refine ⟨held.tracks.touch_op orderly.wf registered (fun _ => rfl) tags,
    ⟨number, (orderly.lasts_touch hdr metric tags id).defines defines⟩, fun tags' => ?_,
    fun predicate fits => ?_⟩
  · rw [Registry.visitSeries_touch hdr orderly.wf registered, if_pos rfl, Registry.upsert_keys,
      held.series, exists_holds_update, after, Option.some.injEq, Prod.mk.injEq]
    -- the others hold what they held before, and this VU held nothing
    have others : (∃ j, j ≠ i ∧ (s.doing j).holds = some (metric, tags')) ↔
        ∃ j, (s.doing j).holds = some (metric, tags') := by
      refine ⟨fun ⟨j, _, holds⟩ => ⟨j, holds⟩, fun ⟨j, holds⟩ => ⟨j, ?_, holds⟩⟩
      rintro rfl
      rw [before] at holds
      cases holds
    rw [others]
    simp only [true_and]
    rw [or_assoc, eq_comm (a := tags')]
    exact or_congr_right or_comm
  · rw [Registry.total_touch_id lawful orderly.wf registered tags held.tracks]
    exact held.totals predicate fits

/-- A VU updates the cell of the series that it holds. -/
theorem Held.update (lawful : hdr.Lawful) (held : Held hdr s metric name kind)
    (orderly : s.registry.Orderly) (worker' : Worker H) (rec : Recording) (on : rec.metric = metric)
    (isKind : rec.amount.kind = kind) (before : (s.doing i).holds = some (metric, rec.tags))
    (after : worker'.holds = none) :
    Held hdr ⟨s.registry.touch hdr metric rec.tags (rec.amount.apply hdr),
      Function.update s.doing i worker', s.log ++ [(i, rec)]⟩ metric name kind := by
  subst on isKind
  have registered := held.tracks.registered
  obtain ⟨number, defines⟩ := held.defines
  have there : rec.tags ∈ (s.registry.visitSeries rec.metric).map Prod.fst :=
    (held.series rec.tags).mpr (.inr ⟨i, before⟩)
  refine ⟨held.tracks.touch orderly.wf registered,
    ⟨number, (orderly.lasts_touch hdr _ _ _).defines defines⟩, fun tags => ?_,
    fun predicate fits => ?_⟩
  · rw [Registry.visitSeries_touch hdr orderly.wf registered, if_pos rfl, Registry.upsert_keys,
      exists_holds_update, after]
    constructor
    · rintro (member | rfl)
      · rcases (held.series tags).mp member with ⟨e, inLog, same⟩ | ⟨j, holds⟩
        · exact .inl ⟨e, List.mem_append_left _ inLog, same⟩
        · rcases eq_or_ne j i with rfl | other
          -- the handle that is given up is that of the series just recorded on
          · rw [before, Option.some.injEq, Prod.mk.injEq] at holds
            exact .inl ⟨(j, rec), by simp, rfl, holds.2⟩
          · exact .inr (.inr ⟨j, other, holds⟩)
      · exact .inl ⟨(i, rec), by simp, rfl, rfl⟩
    · rintro (⟨e, inLog, same⟩ | holds | ⟨j, -, holds⟩)
      · rcases List.mem_append.mp inLog with old | new
        · exact .inl ((held.series tags).mpr (.inl ⟨e, old, same⟩))
        · rw [List.mem_singleton] at new
          subst new
          exact .inr same.2.symm
      · cases holds
      · exact .inl ((held.series tags).mpr (.inr ⟨j, holds⟩))
  · rw [List.map_append, Registry.recorded_append] at fits ⊢
    have held' := held.totals predicate (by omega)
    rw [← held'] at fits ⊢
    exact Registry.total_touch lawful orderly.wf held.tracks held.tracks predicate fits

end Metric

/-! ### A step of a VU -/

section Steps

variable [DecidableEq ι] {i : ι} {r' : Registry H} {worker' : Worker H}

theorem holds_start (work : Work H) : (Worker.start work).holds = none := by
  cases work <;> rfl

/-- A worker that holds no handle adds nothing to the log with its next step. -/
theorem books_of_holds_none {worker : Worker H} (none : worker.holds = none) :
    worker.books = [] := by
  obtain ⟨work, pc⟩ := worker
  cases work with
  | access access next =>
    obtain ⟨metric, tags, op⟩ := access
    cases pc with
    | holding handle => cases none
    | _ => cases op <;> rfl
  | _ => rfl

/-- What is left to do stays proper. -/
theorem proper_of_moves {r : Registry H} {worker : Worker H}
    (moves : Worker.Moves hdr r worker r' worker') (proper : Proper worker.work) :
    Proper worker'.work := by
  cases moves with
  | intern key next pc => exact proper _
  | register name kind next pc => exact proper
  | skip access next absent => obtain ⟨metric, tags, op⟩ := access; cases op <;> exact proper.2
  | look access next pc pc' free ok => exact proper
  | create access next kind registered absent => exact proper
  | update access next handle found =>
    obtain ⟨metric, tags, op⟩ := access
    cases op <;> exact proper.2

variable {worker : Worker H}

/-- The number of a metric of the run decides its kind. -/
theorem OnRun.kind_eq {number : Nat} {name : String} {kind kind' : MetricKind}
    (on : OnRun (UInt32.ofNat number) kind') (here : runMetrics[number]? = some (name, kind)) :
    kind' = kind := by
  obtain ⟨i, name', there, same⟩ := on
  have few : runMetrics.length = 9 := rfl
  have low := (List.getElem?_eq_some_iff.mp here).1
  have low' := (List.getElem?_eq_some_iff.mp there).1
  have isNumber := Registry.ofNat_inj (by omega) (by omega) same
  rw [← isNumber, here] at there
  cases there
  rfl

section Move

variable {number : Nat} {name : String} {kind : MetricKind}
  (held : Held hdr s (UInt32.ofNat number) name kind) (orderly : s.registry.Orderly)
  (isDoing : s.doing i = worker)

include held isDoing

/-- A VU without a handle moves on; it may come by the handle of a series that is there. -/
theorem Held.free (lasts : s.registry.Lasts r')
    (visited : r'.visitSeries (UInt32.ofNat number) = s.registry.visitSeries (UInt32.ofNat number))
    (none : worker.holds = none)
    (found : ∀ tags, worker'.holds = some (UInt32.ofNat number, tags) →
      tags ∈ (s.registry.visitSeries (UInt32.ofNat number)).map Prod.fst) :
    Held hdr ⟨r', Function.update s.doing i worker', s.log ++ worker.books.map (i, ·)⟩
      (UInt32.ofNat number) name kind := by
  refine held.move worker' worker.books lasts visited ?_ (fun tags => ?_) found
  · rw [books_of_holds_none none]
    simp
  · rw [isDoing, none]
    simp

include orderly

/-- An update of a cell, of this metric or another one. -/
theorem Held.updated (lawful : hdr.Lawful) (here : runMetrics[number]? = some (name, kind))
    {access : Access H} {next : Work H} {handle : MetricHandle}
    (isHolding : worker = ⟨.access access next, .holding handle⟩) (proper : Proper worker.work) :
    Held hdr ⟨s.registry.touch hdr access.metric access.tags (access.op.apply hdr),
        Function.update s.doing i (.start next), s.log ++ worker.books.map (i, ·)⟩
      (UInt32.ofNat number) name kind := by
  subst isHolding
  obtain ⟨metric, tags, op⟩ := access
  by_cases same : metric = UInt32.ofNat number
  · subst same
    cases op with
    | amount amount =>
      exact held.update lawful orderly (.start next) ⟨_, tags, amount⟩ rfl (proper.1.kind_eq here)
        (by rw [isDoing]; rfl) (holds_start next)
    | custom op =>
      -- a custom metric is none of the run's
      have few : runMetrics.length = 9 := rfl
      have low := (List.getElem?_eq_some_iff.mp here).1
      have high := proper.1
      rw [UInt32.toNat_ofNat'] at high
      omega
  · refine held.move (.start next) _ (orderly.lasts_touch hdr _ _ _)
      (orderly.visitSeries_touch_of_ne hdr (Ne.symm same) _ _) ?_ (fun tags' holds => ?_)
      (by simp [holds_start])
    · intro rec member
      cases op with
      | amount amount =>
        rw [List.mem_singleton.mp member]
        exact same
      | custom op => cases member
    · rw [isDoing] at holds
      exact same (congrArg Prod.fst (Option.some.inj holds))

/-- What a step does to a metric of the run. -/
theorem Held.moves (lawful : hdr.Lawful) (here : runMetrics[number]? = some (name, kind))
    (proper : Proper worker.work) (moves : Worker.Moves hdr s.registry worker r' worker') :
    Held hdr ⟨r', Function.update s.doing i worker', s.log ++ worker.books.map (i, ·)⟩
      (UInt32.ofNat number) name kind := by
  have lasts := (moves.lasts orderly).1
  -- only an insert and an update touch a series, and only one of the metric of the access
  cases moves with
  | intern key next pc => exact held.free isDoing lasts rfl rfl (by simp [holds_start])
  | register name' kind' next pc =>
    have visited := (held.tracks.register orderly name' kind').2
    exact held.free isDoing lasts visited rfl (by simp [holds_start])
  | skip access next absent => exact held.free isDoing lasts rfl rfl (by simp [holds_start])
  | look access next pc pc' none ok =>
    refine held.free isDoing lasts rfl none fun tags holds => ?_
    cases pc' with
    | holding handle =>
      obtain ⟨isMetric, isTags⟩ := Prod.mk.inj (Option.some.inj holds)
      rw [← isMetric, ← isTags]
      exact orderly.wf.mem_visited.mpr (Option.isSome_of_eq_some ok)
    | _ => cases holds
  | create access next kind' registered absent =>
    by_cases same : access.metric = UInt32.ofNat number
    · have created := held.create (i := i) lawful orderly
        ⟨.access access next, .holding ⟨s.registry.heap.length⟩⟩ access.tags (by rw [isDoing]; rfl)
        (by rw [← same]; rfl)
      rw [← same] at created ⊢
      rw [books_of_holds_none rfl, List.map_nil, List.append_nil]
      exact created
    · have visited := orderly.visitSeries_touch_of_ne hdr (Ne.symm same) access.tags id
      refine held.free isDoing lasts visited rfl fun tags holds => ?_
      exact absurd (congrArg Prod.fst (Option.some.inj holds)) same
  | update access next handle found => exact held.updated orderly isDoing lawful here rfl proper

end Move

/-- Every step keeps what is in the books. -/
theorem Sound.moves (lawful : hdr.Lawful) (sound : Sound hdr s) (isDoing : s.doing i = worker)
    (moves : Worker.Moves hdr s.registry worker r' worker') :
    Sound hdr ⟨r', Function.update s.doing i worker', s.log ++ worker.books.map (i, ·)⟩ := by
  obtain ⟨lasts, orderly, ok⟩ := moves.lasts sound.orderly
  have proper := sound.proper i
  rw [isDoing] at proper
  refine ⟨orderly, moves.interner sound.interner, fun j => ?_, fun j => ?_,
    fun number name kind here => (sound.held number name kind here).moves sound.orderly isDoing
      lawful here proper moves⟩
  · dsimp only
    rcases eq_or_ne j i with rfl | other
    · rw [Function.update_self]
      exact ok
    · rw [Function.update_of_ne other]
      exact (sound.ok j).lasts lasts
  · dsimp only
    rcases eq_or_ne j i with rfl | other
    · rw [Function.update_self]
      exact proper_of_moves moves proper
    · rw [Function.update_of_ne other]
      exact sound.proper j

theorem Sound.proceed (lawful : hdr.Lawful) (sound : Sound hdr s)
    (fresh : (s.doing i).InsertsFresh s.registry) (taken : s.proceed hdr i = some s') :
    Sound hdr s' ∧ s.registry.Lasts s'.registry := by
  obtain ⟨⟨r', worker'⟩, next, rfl⟩ := Option.map_eq_some_iff.mp taken
  have moves := Worker.moves_of_step sound.orderly (sound.ok i) fresh next
  exact ⟨sound.moves lawful rfl moves, (moves.lasts sound.orderly).1⟩

theorem holds_of_idle {worker : Worker H} (idle : worker.idle = true) : worker.holds = none := by
  obtain ⟨work, pc⟩ := worker
  cases work with
  | done => rfl
  | _ => cases idle

/-- A VU that is idle begins to record. -/
theorem Sound.begin (sound : Sound hdr s) (idle : (s.doing i).idle = true) {work : Work H}
    (proper : Proper work) : Sound hdr (s.begin i work) := by
  refine ⟨sound.orderly, sound.interner, fun j => ?_, fun j => ?_, fun number name kind here => ?_⟩
  · rcases eq_or_ne j i with rfl | other
    · simp only [Workers.begin, Function.update_self]
      exact Worker.ok_start _ _
    · simp only [Workers.begin, Function.update_of_ne other]
      exact sound.ok j
  · rcases eq_or_ne j i with rfl | other
    · simp only [Workers.begin, Function.update_self]
      exact proper
    · simp only [Workers.begin, Function.update_of_ne other]
      exact sound.proper j
  -- the beginning of a work holds no series and books nothing
  · have moved := (sound.held number name kind here).move (i := i) (.start work) []
      (Registry.Lasts.refl _) rfl (by simp) (by simp [holds_of_idle idle]) (by simp [holds_start])
    rwa [List.map_nil, List.append_nil] at moved

omit [DecidableEq ι] in
/-- Strings are interned by somebody else. -/
theorem Sound.withInterner (sound : Sound hdr s) {interner : Interner} (wf : interner.Wf)
    (ext : Interner.Extends s.registry.interner interner) :
    Sound hdr { s with registry := s.registry.withInterner interner } := by
  have lasts := Registry.Lasts.withInterner ext
  refine ⟨sound.orderly.withInterner ext, wf, fun j => (sound.ok j).lasts lasts, sound.proper,
    fun number name kind here => ?_⟩
  have held := sound.held number name kind here
  obtain ⟨id, defines⟩ := held.defines
  exact ⟨⟨lasts.registered held.tracks.registered, held.tracks.typed⟩, ⟨id, lasts.defines defines⟩,
    held.series, held.totals⟩

omit [DecidableEq ι] in
/-- Nothing is recorded yet. -/
theorem sound_of_empty {r : Registry H} (orderly : r.Orderly) (wf : r.interner.Wf)
    (defines : ∀ i name kind, runMetrics[i]? = some (name, kind) →
      r.Tracks (UInt32.ofNat i) kind ∧ r.visitSeries (UInt32.ofNat i) = [] ∧
        ∃ id, r.Defines (UInt32.ofNat i) name ⟨id, kind⟩) :
    Sound hdr (Workers.init r : Workers ι H) := by
  refine ⟨orderly, wf, fun i => Worker.ok_start _ _, fun i => trivial,
    fun number name kind here => ?_⟩
  obtain ⟨tracks, empty, defines⟩ := defines number name kind here
  refine ⟨tracks, defines, fun tags => ?_, fun predicate _ => ?_⟩
  · simp [Workers.init, empty, holds_start]
  · simp only [Workers.init, empty]
    rfl

variable (hdr) in
omit [DecidableEq ι] in
/-- The registrations of a run record nothing. -/
theorem sound_init : Sound hdr (Workers.init registered : Workers ι H) := by
  have orderly : (registered : Registry H).Orderly := by
    simp only [registered, registerMetrics, RequestMetricIds.register, IterationMetricIds.register]
    repeat apply Registry.Orderly.register
    exact Registry.orderly_default
  refine sound_of_empty orderly registered_catalog.interner fun i name kind here => ?_
  obtain ⟨tracks, empty⟩ := registered_catalog.tracks (H := H) (by decide) here
  exact ⟨tracks, empty, _, registered_catalog.defines (by decide) here⟩

/-! ### What is owed -/

/-- What the VUs have added, and what their works are still going to add, are the entries that they
have begun; every string of these is interned or will be. -/
structure Owes (n : Interner) (s : Workers ι H) (begun : List (ι × Entry)) : Prop where
  owed : ∀ i, ownOf i s.log ++ (s.doing i).work.recordings n.idOf =
    (ownOf i begun).map fun entry => entry.at n
  known : ∀ i, ∀ entry ∈ ownOf i begun, ∀ key ∈ Interner.stringsOf entry.pairs,
    n.Knows key ∨ key ∈ (s.doing i).work.interns n.idOf

variable {n : Interner} {begun : List (ι × Entry)}

theorem owes_init (n : Interner) (r : Registry H) : Owes n (Workers.init r : Workers ι H) [] :=
  ⟨fun _ => rfl, fun _ entry member => (by cases member)⟩

/-- Nobody but VU `i` moves. -/
theorem Owes.of_own (owes : Owes n s begun) {begun' : List (ι × Entry)} (worker' : Worker H)
    (booked : List Recording)
    (others : ∀ j, j ≠ i → ownOf j begun' = ownOf j begun)
    (owed : ownOf i s.log ++ booked ++ worker'.work.recordings n.idOf =
      (ownOf i begun').map fun entry => entry.at n)
    (known : ∀ entry ∈ ownOf i begun', ∀ key ∈ Interner.stringsOf entry.pairs,
      n.Knows key ∨ key ∈ worker'.work.interns n.idOf) (r' : Registry H) :
    Owes n ⟨r', Function.update s.doing i worker', s.log ++ booked.map (i, ·)⟩ begun' := by
  refine ⟨fun j => ?_, fun j => ?_⟩
  · dsimp only
    rw [ownOf_append, ownOf_tagged]
    rcases eq_or_ne j i with rfl | other
    · rw [if_pos rfl, Function.update_self]
      exact owed
    · rw [if_neg other.symm, Function.update_of_ne other, List.append_nil, others j other]
      exact owes.owed j
  · dsimp only
    rcases eq_or_ne j i with rfl | other
    · rw [Function.update_self]
      exact known
    · rw [Function.update_of_ne other, others j other]
      exact owes.known j

/-- A step books what it owes. -/
theorem Owes.moves (owes : Owes n s begun) (isDoing : s.doing i = worker)
    (moves : Worker.Moves hdr s.registry worker r' worker') (proper : Proper worker.work)
    (stored : ∀ metric kind, OnRun metric kind → (s.registry.storage.get? metric).isSome)
    (ext : Interner.Extends r'.interner n) :
    Owes n ⟨r', Function.update s.doing i worker', s.log ++ worker.books.map (i, ·)⟩ begun := by
  have owed := owes.owed i
  have known := owes.known i
  rw [isDoing] at owed known
  have same (books : worker.books ++ worker'.work.recordings n.idOf = worker.work.recordings n.idOf)
      (interns : ∀ key ∈ worker.work.interns n.idOf,
        n.Knows key ∨ key ∈ worker'.work.interns n.idOf) :
      Owes n ⟨r', Function.update s.doing i worker', s.log ++ worker.books.map (i, ·)⟩ begun := by
    refine owes.of_own worker' worker.books (fun _ _ => rfl) ?_
      (fun entry member key inPairs => ?_) r'
    · rw [List.append_assoc, books]
      exact owed
    · exact (known entry member key inPairs).elim .inl (interns key)
  cases moves with
  | intern key next pc =>
    obtain ⟨isId, knows⟩ := Registry.resolveKey_spec key ext
    refine same ?_ fun key' member => ?_
    · rw [isId]
      rfl
    · rw [isId]
      rcases List.mem_cons.mp member with rfl | later
      · exact .inl knows
      · exact .inr later
  | register name kind next pc => exact same rfl fun key member => .inr member
  | skip access next absent =>
    obtain ⟨metric, tags, op⟩ := access
    cases op with
    | amount amount =>
      -- the metrics of the run are registered
      have there := stored metric amount.kind proper.1
      rw [show s.registry.storage.get? metric = none from absent] at there
      cases there
    | custom op => exact same rfl fun key member => .inr member
  | look access next pc pc' free ok =>
    refine same ?_ fun key member => .inr member
    rw [books_of_holds_none free]
    rfl
  | create access next kind registered absent =>
    refine same ?_ fun key member => .inr member
    rw [books_of_holds_none rfl]
    rfl
  | update access next handle found =>
    obtain ⟨metric, tags, op⟩ := access
    cases op <;> exact same rfl fun key member => .inr member

/-- What a VU begins to record is owed from then on. -/
theorem Owes.begin (owes : Owes n s begun) (idle : (s.doing i).idle = true) {work : Work H}
    {entries : List Entry} (writes : Writes work entries .done) :
    Owes n (s.begin i work) (begun ++ entries.map (i, ·)) := by
  -- an idle VU has paid what it owed
  have nothing : (s.doing i).work = .done := by
    cases isWork : (s.doing i).work with
    | done => rfl
    | _ => simp [Worker.idle, isWork] at idle
  have owed := owes.owed i
  have known := owes.known i
  simp only [nothing, Work.recordings, Work.interns, List.append_nil, List.not_mem_nil,
    or_false] at owed known
  -- the new entries are those of VU `i`
  have own : ownOf i (begun ++ entries.map (i, ·)) = ownOf i begun ++ entries := by
    rw [ownOf_append, ownOf_tagged, if_pos rfl]
  have others (j : ι) (other : j ≠ i) : ownOf j (begun ++ entries.map (i, ·)) = ownOf j begun := by
    rw [ownOf_append, ownOf_tagged, if_neg other.symm, List.append_nil]
  have begins := owes.of_own (.start work) [] others ?_ ?_ s.registry
  · simpa [Workers.begin] using begins
  · rw [own, List.append_nil, List.map_append, owed, Worker.start, writes.recordings]
    simp [Work.recordings]
  · intro entry member key inPairs
    rw [own] at member
    rcases List.mem_append.mp member with old | new
    · exact .inl (known entry old key inPairs)
    · exact .inr (writes.interns n entry new inPairs)

/-- When no VU is inside a recording, the metrics of the run hold the entries that were begun. -/
theorem Sound.ledger (sound : Sound hdr s) (owes : Owes n s begun)
    (quiet : ∀ i, (s.doing i).idle = true) :
    Ledger hdr n s.registry (begun.map Prod.snd) := by
  have nothing (i : ι) : (s.doing i).work = .done := by
    cases isWork : (s.doing i).work with
    | done => rfl
    | _ => simpa [Worker.idle, isWork] using quiet i
  -- each VU has recorded what it began, in its own order; the VUs together have, in some order
  have all : s.log.Perm (begun.map fun e => (e.1, e.2.at n)) := by
    refine perm_of_ownOf fun i => ?_
    have owed := owes.owed i
    rw [nothing, Work.recordings, List.append_nil] at owed
    rw [owed]
    simp [ownOf, List.filter_map, Function.comp_def]
  have recordings :
      (s.log.map Prod.snd).Perm ((begun.map Prod.snd).map fun entry => entry.at n) := by
    have mapped := all.map Prod.snd
    rw [List.map_map] at mapped ⊢
    exact mapped
  refine ⟨sound.orderly, fun entry member tag inPairs => ?_, fun number name kind here => ?_⟩
  · obtain ⟨⟨i, entry⟩, inBegun, rfl⟩ := List.mem_map.mp member
    have known (key : String) (isKey : key ∈ Interner.stringsOf entry.pairs) : n.Knows key := by
      have known := owes.known i entry (mem_ownOf.mpr inBegun) key isKey
      simpa [nothing, Work.interns] using known
    exact ⟨known tag.1 (List.mem_flatMap.mpr ⟨tag, inPairs, by simp⟩),
      known tag.2 (List.mem_flatMap.mpr ⟨tag, inPairs, by simp⟩)⟩
  · have held := sound.held number name kind here
    have same (predicate : TagSet → Bool) : recordedAt hdr n (UInt32.ofNat number) predicate
        (begun.map Prod.snd) =
        Registry.recorded hdr (UInt32.ofNat number) predicate (s.log.map Prod.snd) :=
      ((recordings.map _).sum_eq).symm
    refine ⟨held.tracks, held.defines, fun tags => ?_, fun predicate fits => ?_⟩
    -- no handle is left, so every series is there for a recording
    · have free (i : ι) : (s.doing i).holds = none := holds_of_idle (quiet i)
      simp only [held.series, free, reduceCtorEq, exists_false, or_false]
      constructor
      · rintro ⟨e, inLog, on, isTags⟩
        obtain ⟨entry, inBegun, isEntry⟩ :=
          List.mem_map.mp (recordings.mem_iff.mp (List.mem_map_of_mem inLog))
        rw [← isEntry] at on isTags
        exact ⟨entry, inBegun, on, isTags⟩
      · rintro ⟨entry, inBegun, on, isTags⟩
        obtain ⟨e, inLog, isEntry⟩ :=
          List.mem_map.mp (recordings.mem_iff.mpr (List.mem_map_of_mem inBegun))
        exact ⟨e, inLog, by rw [isEntry]; exact on, by rw [isEntry]; exact isTags⟩
    · rw [same] at fits ⊢
      exact held.totals predicate fits

/-! ### The books -/

variable (hdr) in
/-- The metrics of the run hold, or the VUs still owe, the entries that have been begun. -/
structure Books (s : Workers ι H) (begun : List (ι × Entry)) : Prop where
  sound : Sound hdr s
  owes : ∀ n, Interner.Extends s.registry.interner n → Owes n s begun

variable (hdr) in
theorem books_init : Books hdr (Workers.init registered : Workers ι H) [] :=
  ⟨sound_init hdr, fun n _ => owes_init n _⟩

/-- A step of a VU moves what it adds from what is owed to what is held. -/
theorem Books.proceed (lawful : hdr.Lawful) (books : Books hdr s begun)
    (fresh : (s.doing i).InsertsFresh s.registry) (taken : s.proceed hdr i = some s') :
    Books hdr s' begun := by
  obtain ⟨sound, lasts⟩ := books.sound.proceed lawful fresh taken
  obtain ⟨⟨r', worker'⟩, next, rfl⟩ := Option.map_eq_some_iff.mp taken
  refine ⟨sound, fun n ext => ?_⟩
  have moves := Worker.moves_of_step books.sound.orderly (books.sound.ok i) fresh next
  refine (books.owes n (lasts.interner.trans ext)).moves rfl moves (books.sound.proper i) ?_ ext
  rintro metric kind ⟨number, name, here, rfl⟩
  exact (books.sound.held number name kind here).tracks.registered.stored

theorem Books.begin (books : Books hdr s begun) (idle : (s.doing i).idle = true) {work : Work H}
    {entries : List Entry} (writes : Writes work entries .done) :
    Books hdr (s.begin i work) (begun ++ entries.map (i, ·)) :=
  ⟨books.sound.begin idle (writes.proper trivial),
    fun n ext => (books.owes n ext).begin idle writes⟩

theorem Books.ledger (books : Books hdr s begun) (quiet : ∀ i, (s.doing i).idle = true)
    {n : Interner} (ext : Interner.Extends s.registry.interner n) :
    Ledger hdr n s.registry (begun.map Prod.snd) :=
  books.sound.ledger (books.owes n ext) quiet

end Steps

end Wrkr.Core.Accounting
