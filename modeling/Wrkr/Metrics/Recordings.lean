import Wrkr.Metrics.Interning
import Wrkr.Metrics.Totals

/-!
# Sequences of recordings

Everything a run records is a sequence of recordings, each of which adds to a counter or records
a value in a histogram, interleaved with the interning of strings, which touches no series. After
any sequence the total of a metric over the series that satisfy a predicate has grown by the
sizes of the recordings on that metric whose tags satisfy it (`total_applyAll`).
-/
namespace Wrkr.Metrics

open Wrkr.Lib

variable {H F : Type} (hdr : HdrHistogram H F)

def Cell.kind : Cell H → MetricKind
  | .counter _ => .counter
  | .gauge _ => .gauge
  | .rate _ _ => .rate
  | .histogram _ => .histogram

/-- What a recorder does with a handle: add to a counter, or observe a value. -/
inductive Amount
  | add (n : UInt64)
  | observe (v : UInt64)

namespace Amount

def kind : Amount → MetricKind
  | .add _ => .counter
  | .observe _ => .histogram

/-- On a cell of another kind nothing happens. -/
def apply : Amount → Cell H → Cell H
  | .add n => Cell.fetchAdd n
  | .observe v => Cell.record hdr v

/-- What the amount adds to the total of its metric. -/
def size : Amount → Nat
  | .add n => n.toNat
  | .observe v => if hdr.accepts v then 1 else 0

end Amount

/-- One recording of a run, by ids. -/
structure Recording where
  metric : MetricId
  tags : TagSet
  amount : Amount

/-- What the cells of a metric count: the value of a counter or the length of a histogram. -/
def weight : MetricKind → Cell H → Nat
  -- values that the histogram refuses are not counted
  | .histogram => Cell.histogramLen hdr
  | _ => Cell.counterValue

theorem kind_apply (amount : Amount) (cell : Cell H) : (amount.apply hdr cell).kind = cell.kind := by
  cases amount <;> cases cell <;> rfl

theorem kind_new (kind : MetricKind) : (Cell.new hdr kind).kind = kind := by
  cases kind <;> rfl

theorem weight_new (lawful : hdr.Lawful) (kind : MetricKind) :
    weight hdr kind (Cell.new hdr kind) = 0 := by
  cases kind <;> simp [weight, Cell.new, Cell.counterValue, Cell.counter?, Cell.histogramLen,
    Cell.histogram?, lawful.len_new]

/-- A recording makes its cell heavier by its size, as long as that fits. -/
theorem weight_apply (lawful : hdr.Lawful) (amount : Amount) {cell : Cell H}
    (kind : cell.kind = amount.kind)
    (fits : weight hdr amount.kind cell + amount.size hdr < 2 ^ 64) :
    weight hdr amount.kind (amount.apply hdr cell) =
      weight hdr amount.kind cell + amount.size hdr := by
  cases amount with
  | add n =>
    cases cell with
    | counter v =>
      simp only [weight, Amount.kind, Amount.apply, Amount.size, Cell.fetchAdd, Cell.counterValue,
        Cell.counter?, Option.map_some, Option.getD_some] at fits ⊢
      exact add_toNat fits
    | gauge v => simp [Cell.kind, Amount.kind] at kind
    | rate t h => simp [Cell.kind, Amount.kind] at kind
    | histogram h => simp [Cell.kind, Amount.kind] at kind
  | observe v =>
    cases cell with
    | histogram h =>
      simp only [weight, Amount.kind, Amount.apply, Amount.size, Cell.record, Cell.histogramLen,
        Cell.histogram?, Option.map_some, Option.getD_some] at fits ⊢
      -- a value out of range leaves the histogram as it is
      have accepted := lawful.record_isSome h v
      cases recorded : hdr.record h v with
      | none =>
        rw [recorded] at accepted
        simp [← accepted]
      | some h' =>
        rw [recorded] at accepted
        simp only [← accepted, Option.isSome_some, ↓reduceIte, Option.getD_some] at fits ⊢
        exact lawful.len_record h h' v recorded fits
    | counter v => simp [Cell.kind, Amount.kind] at kind
    | gauge v => simp [Cell.kind, Amount.kind] at kind
    | rate t h => simp [Cell.kind, Amount.kind] at kind

namespace Registry

/-- The metric is registered and all its series are of its kind. -/
structure Tracks (r : Registry H) (metric : MetricId) (kind : MetricKind) : Prop where
  registered : r.Registered metric kind
  typed : ∀ e ∈ r.visitSeries metric, e.2.kind = kind

/-- The recordings in their order. -/
def applyAll (r : Registry H) (recordings : List Recording) : Registry H :=
  recordings.foldl (fun r rec => r.touch hdr rec.metric rec.tags (rec.amount.apply hdr)) r

/-- What the recordings add to a metric over the tags that satisfy the predicate. -/
def recorded (metric : MetricId) (predicate : TagSet → Bool) (recordings : List Recording) : Nat :=
  (recordings.map fun rec =>
    if rec.metric = metric ∧ predicate rec.tags then rec.amount.size hdr else 0).sum

variable {hdr}

/-- A series that is there afterwards was there, was operated on, or is new. -/
theorem mem_upsert {tags : TagSet} {fresh : Cell H} {op : Cell H → Cell H}
    {visited : List (TagSet × Cell H)} {e : TagSet × Cell H}
    (member : e ∈ upsert tags fresh op visited) :
    e ∈ visited ∨ (∃ cell, (tags, cell) ∈ visited ∧ e = (tags, op cell)) ∨ e = (tags, op fresh) := by
  unfold upsert at member
  split at member
  · rw [List.mem_map] at member
    -- the key was there: the one entry with it is modified
    obtain ⟨old, inOld, rfl⟩ := member
    unfold modifyAt
    split
    next same => exact .inr (.inl ⟨old.2, same ▸ inOld, by rw [same]⟩)
    next => exact .inl inOld
  · rw [List.mem_append, List.mem_singleton] at member
    exact member.imp_right .inr

/-- The only new key is the one that was asked for. -/
theorem upsert_keys (tags : TagSet) (fresh : Cell H) (op : Cell H → Cell H)
    (visited : List (TagSet × Cell H)) (t : TagSet) :
    t ∈ (upsert tags fresh op visited).map Prod.fst ↔ t ∈ visited.map Prod.fst ∨ t = tags := by
  have keys : (visited.map (modifyAt tags op)).map Prod.fst = visited.map Prod.fst := by
    rw [List.map_map]
    apply List.map_congr_left
    intro e _
    simp only [Function.comp, modifyAt]
    split <;> rfl
  unfold upsert
  split
  -- with the key present the keys are the same
  next present =>
    rw [keys]
    constructor
    · exact .inl
    · rintro (old | rfl)
      · exact old
      · exact present
  next => simp

/-- An operation that keeps the kinds of cells. -/
theorem Tracks.touch_op {r : Registry H} (wf : r.Wf) {metric metric' : MetricId}
    {kind kind' : MetricKind} (on : r.Registered metric' kind') {op : Cell H → Cell H}
    (keeps : ∀ cell, (op cell).kind = cell.kind) (tags : TagSet) (tracks : r.Tracks metric kind) :
    (r.touch hdr metric' tags op).Tracks metric kind := by
  constructor
  · exact on.touch hdr tracks.registered _ _
  · intro e member
    rw [visitSeries_touch hdr wf on] at member
    split at member
    next same =>
      subst same
      -- a metric has one kind, so the new cell has it too
      have sameKind : kind = kind' :=
        Option.some.inj (tracks.registered.defined.symm.trans on.defined)
      rcases mem_upsert member with old | ⟨cell, inOld, rfl⟩ | rfl
      · exact tracks.typed e old
      · rw [keeps]
        exact tracks.typed _ inOld
      · rw [keeps, kind_new, sameKind]
    next => exact tracks.typed e member

theorem Tracks.touch {r : Registry H} (wf : r.Wf) {rec : Recording}
    (on : r.Registered rec.metric rec.amount.kind) {metric : MetricId} {kind : MetricKind}
    (tracks : r.Tracks metric kind) :
    (r.touch hdr rec.metric rec.tags (rec.amount.apply hdr)).Tracks metric kind :=
  tracks.touch_op wf on (kind_apply hdr rec.amount) rec.tags

/-- A new series is empty. -/
theorem total_touch_id (lawful : hdr.Lawful) {r : Registry H} (wf : r.Wf)
    {metric metric' : MetricId} {kind kind' : MetricKind} (on : r.Registered metric' kind')
    (tags : TagSet) (tracks : r.Tracks metric kind) (predicate : TagSet → Bool) :
    total predicate (weight hdr kind) ((r.touch hdr metric' tags id).visitSeries metric) =
      total predicate (weight hdr kind) (r.visitSeries metric) := by
  rw [visitSeries_touch hdr wf on]
  split
  next same =>
    subst same
    have sameKind : kind = kind' :=
      Option.some.inj (tracks.registered.defined.symm.trans on.defined)
    subst sameKind
    -- a cell that is created and not updated weighs nothing
    have kept : total predicate (weight hdr kind)
        (upsert tags (Cell.new hdr kind) id (r.visitSeries metric)) =
          total predicate (weight hdr kind) (r.visitSeries metric) +
            if predicate tags then 0 else 0 :=
      total_upsert (r.visitSeries_nodup metric) (weight_new hdr lawful kind) fun _ _ _ => rfl
    simpa using kept
  next => rfl

/-- One recording adds its size to its metric where its tags satisfy the predicate. -/
theorem total_touch (lawful : hdr.Lawful) {r : Registry H} (wf : r.Wf) {rec : Recording}
    (on : r.Tracks rec.metric rec.amount.kind) {metric : MetricId} {kind : MetricKind}
    (tracks : r.Tracks metric kind) (predicate : TagSet → Bool)
    (fits : total predicate (weight hdr kind) (r.visitSeries metric) +
      recorded hdr metric predicate [rec] < 2 ^ 64) :
    total predicate (weight hdr kind)
        ((r.touch hdr rec.metric rec.tags (rec.amount.apply hdr)).visitSeries metric) =
      total predicate (weight hdr kind) (r.visitSeries metric) +
        recorded hdr metric predicate [rec] := by
  rw [visitSeries_touch hdr wf on.registered]
  by_cases same : metric = rec.metric
  · subst same
    have sameKind : kind = rec.amount.kind :=
      Option.some.inj (tracks.registered.defined.symm.trans on.registered.defined)
    subst sameKind
    rw [if_pos rfl, total_upsert (d := rec.amount.size hdr) (r.visitSeries_nodup _)
      (weight_new hdr lawful _)]
    · simp [recorded]
    · intro matching cell source
      have size : recorded hdr rec.metric predicate [rec] = rec.amount.size hdr := by
        simp [recorded, matching]
      rw [size] at fits
      apply weight_apply hdr lawful
      -- a cell of the series that was there, or the new one, of the kind that the metric has
      · rcases source with fresh | inOld
        · rw [fresh, kind_new]
        · exact on.typed _ inOld
      · rcases source with fresh | inOld
        · rw [fresh, weight_new hdr lawful]
          omega
        · have part : weight hdr rec.amount.kind cell ≤
              total predicate (weight hdr rec.amount.kind) (r.visitSeries rec.metric) :=
            weight_le_total inOld matching
          omega
  -- a recording on another metric
  · have elsewhere : recorded hdr metric predicate [rec] = 0 := by
      simp [recorded, Ne.symm same]
    rw [if_neg same, elsewhere, Nat.add_zero]

theorem recorded_cons (metric : MetricId) (predicate : TagSet → Bool) (rec : Recording)
    (rest : List Recording) :
    recorded hdr metric predicate (rec :: rest) =
      recorded hdr metric predicate [rec] + recorded hdr metric predicate rest := by
  simp [recorded]

theorem recorded_append (metric : MetricId) (predicate : TagSet → Bool) (xs ys : List Recording) :
    recorded hdr metric predicate (xs ++ ys) =
      recorded hdr metric predicate xs + recorded hdr metric predicate ys := by
  simp [recorded]

/-- The registry tracks the metrics of the recordings. -/
def Hosts (r : Registry H) (recordings : List Recording) : Prop :=
  ∀ rec ∈ recordings, r.Tracks rec.metric rec.amount.kind

theorem Tracks.applyAll {r : Registry H} (wf : r.Wf) {recordings : List Recording}
    (hosts : r.Hosts recordings) {metric : MetricId} {kind : MetricKind}
    (tracks : r.Tracks metric kind) : (r.applyAll hdr recordings).Tracks metric kind := by
  induction recordings generalizing r with
  | nil => exact tracks
  | cons rec rest ih =>
    have on := (hosts rec (by simp)).registered
    refine ih (wf.touch hdr on _ _) ?_ (tracks.touch wf on)
    intro rec' later
    exact (hosts rec' (by simp [later])).touch wf on

/-- After a sequence of recordings the total has grown by what they add. -/
theorem total_applyAll (lawful : hdr.Lawful) {r : Registry H} (wf : r.Wf)
    {recordings : List Recording} (hosts : r.Hosts recordings) {metric : MetricId}
    {kind : MetricKind} (tracks : r.Tracks metric kind) (predicate : TagSet → Bool)
    (fits : total predicate (weight hdr kind) (r.visitSeries metric) +
      recorded hdr metric predicate recordings < 2 ^ 64) :
    total predicate (weight hdr kind) ((r.applyAll hdr recordings).visitSeries metric) =
      total predicate (weight hdr kind) (r.visitSeries metric) +
        recorded hdr metric predicate recordings := by
  induction recordings generalizing r with
  | nil => simp [applyAll, recorded]
  | cons rec rest ih =>
    have on := hosts rec (by simp)
    rw [recorded_cons] at fits ⊢
    -- the bound is on the sum of all, so it holds at every step
    have first := total_touch lawful wf on tracks predicate (by omega)
    have later := ih (wf.touch hdr on.registered _ _)
      (fun rec' inRest => (hosts rec' (by simp [inRest])).touch wf on.registered)
      (tracks.touch wf on.registered) (by omega)
    change total predicate (weight hdr kind) (((r.touch hdr rec.metric rec.tags
      (rec.amount.apply hdr)).applyAll hdr rest).visitSeries metric) = _
    omega

/-- The series of a metric are those it had and those recorded on. -/
theorem keys_applyAll {r : Registry H} (wf : r.Wf) {recordings : List Recording}
    (hosts : r.Hosts recordings) (metric : MetricId) (t : TagSet) :
    t ∈ ((r.applyAll hdr recordings).visitSeries metric).map Prod.fst ↔
      t ∈ (r.visitSeries metric).map Prod.fst ∨
        ∃ rec ∈ recordings, rec.metric = metric ∧ rec.tags = t := by
  induction recordings generalizing r with
  | nil => simp [applyAll]
  | cons rec rest ih =>
    have on := (hosts rec (by simp)).registered
    have later := ih (wf.touch hdr on rec.tags (rec.amount.apply hdr))
      (fun rec' inRest => (hosts rec' (by simp [inRest])).touch wf on)
    change t ∈ (((r.touch hdr rec.metric rec.tags (rec.amount.apply hdr)).applyAll hdr
      rest).visitSeries metric).map Prod.fst ↔ _
    rw [later, visitSeries_touch hdr wf on]
    simp only [List.mem_cons, exists_eq_or_imp]
    -- the recording is on this metric, or it leaves its series alone
    by_cases same : metric = rec.metric
    · subst same
      rw [if_pos rfl, upsert_keys]
      simp only [true_and, or_assoc, eq_comm]
    · simp [same, Ne.symm same]

theorem touch_defs (r : Registry H) (metric : MetricId) (tags : TagSet) (op : Cell H → Cell H) :
    (r.touch hdr metric tags op).defs = r.defs := by
  rw [touch, getHandle]
  cases r.storage.get? metric with
  | none => rfl
  | some series =>
    dsimp only
    cases series.get? tags with
    | some handle => rfl
    | none =>
      dsimp only
      cases r.metricKind metric <;> rfl

theorem applyAll_defs (r : Registry H) (recordings : List Recording) :
    (r.applyAll hdr recordings).defs = r.defs := by
  induction recordings generalizing r with
  | nil => rfl
  | cons rec rest ih => exact (ih _).trans (touch_defs r _ _ _)

/-! ### Interning in between -/

def withInterner (r : Registry H) (interner : Interner) : Registry H := { r with interner }

/-- Recording does not care for the strings. -/
theorem touch_withInterner (r : Registry H) (interner : Interner) (metric : MetricId)
    (tags : TagSet) (op : Cell H → Cell H) :
    (r.withInterner interner).touch hdr metric tags op =
      (r.touch hdr metric tags op).withInterner interner := by
  unfold touch getHandle metricKind
  simp only [withInterner]
  cases r.storage.get? metric with
  | none => rfl
  | some series =>
    dsimp only
    cases series.get? tags with
    -- neither branch reads the interner
    | some handle => rfl
    | none =>
      dsimp only
      cases r.defs[metric.toNat]? <;> rfl

theorem applyAll_withInterner (r : Registry H) (interner : Interner)
    (recordings : List Recording) :
    (r.withInterner interner).applyAll hdr recordings =
      (r.applyAll hdr recordings).withInterner interner := by
  induction recordings generalizing r with
  | nil => rfl
  | cons rec rest ih =>
    simp only [applyAll, List.foldl_cons, touch_withInterner] at ih ⊢
    exact ih _

/-- `r'` is `r` after the recordings and some interning. -/
def Records (hdr : HdrHistogram H F) (r : Registry H) (recordings : List Recording)
    (r' : Registry H) : Prop :=
  ∃ interner, r' = (r.applyAll hdr recordings).withInterner interner

theorem Records.trans {r r' r'' : Registry H} {first second : List Recording}
    (before : Records hdr r first r') (after : Records hdr r' second r'') :
    Records hdr r (first ++ second) r'' := by
  obtain ⟨interner, rfl⟩ := before
  obtain ⟨interner', rfl⟩ := after
  refine ⟨interner', ?_⟩
  have joined : r.applyAll hdr (first ++ second) = (r.applyAll hdr first).applyAll hdr second :=
    List.foldl_append
  rw [applyAll_withInterner, joined]
  rfl

theorem Records.resolveTags (r : Registry H) (tags : List (String × String)) :
    Records hdr r [] (r.resolveTags tags).1 := ⟨_, rfl⟩

theorem Records.resolveKey (r : Registry H) (key : String) :
    Records hdr r [] (r.resolveKey key).1 := ⟨_, rfl⟩

theorem Records.touch (r : Registry H) (rec : Recording) :
    Records hdr r [rec] (r.touch hdr rec.metric rec.tags (rec.amount.apply hdr)) :=
  ⟨(r.applyAll hdr [rec]).interner, rfl⟩

theorem Records.visitSeries {r r' : Registry H} {recordings : List Recording}
    (records : Records hdr r recordings r') (metric : MetricId) :
    r'.visitSeries metric = (r.applyAll hdr recordings).visitSeries metric := by
  obtain ⟨interner, rfl⟩ := records
  rfl

theorem Records.defs {r r' : Registry H} {recordings : List Recording}
    (records : Records hdr r recordings r') : r'.defs = r.defs := by
  obtain ⟨interner, rfl⟩ := records
  exact applyAll_defs r recordings

end Registry

end Wrkr.Metrics
