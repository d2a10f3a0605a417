import Wrkr.Core.MetricsContext
import Wrkr.Core.ScenarioSummary
import Wrkr.Lib.Ieee
import Wrkr.Lib.Text
import Wrkr.Lua.LuaValue
import Wrkr.Metrics.Definitions

/-!
# Custom metrics

`wrkr/metrics` registers a metric by name and hands out a table whose `add` records on it. The
table keeps the kind it was made for, and the registry the kind of the first registration of the
name. `Sample.Room` is what the aggregate of a series can take up, and an accepted sample lands
exactly when there is room for it (`accepted_lands_iff`).
-/
namespace Wrkr.Lua.CustomMetrics

open Wrkr.Lib Wrkr.Metrics Wrkr.Core Wrkr.Core.Accounting

/-- The errors of this module, apart from those of Lua. -/
inductive MetricsError
  | invalidMetricName
  | invalidMetricValue
  deriving DecidableEq, Repr

/-- The conversions to text: `to_string_lossy` of a Lua string and `to_string` of an `f64`. -/
structure ToText where
  toStringLossy : List UInt8 → String
  displayF64 : UInt64 → String

/-! ### Arguments -/

section Opts

variable (text : ToText)

/-- Only strings are keys. -/
def tagKey : LuaValue → Option String
  | .string bytes => some (text.toStringLossy bytes)
  | _ => none

/-- Scalars are written out; a number that is not finite is left out, as is anything else. -/
def tagValue : LuaValue → Option String
  | .string bytes => some (text.toStringLossy bytes)
  | .integer i => some (toString i.toInt)
  | .number n => if Ieee.isFinite n then some (text.displayF64 n) else none
  | .boolean b => some (toString b)
  | .nil | .table _ | .other => none

/-- A pair with a key that is no string, or a value that is no tag value, is skipped. -/
def tagsFromLua (tags : Option (List (LuaValue × LuaValue))) : List (String × String) :=
  (tags.getD []).filterMap fun (k, v) =>
    match tagKey text k, tagValue text v with
    | some k, some v => some (k, v)
    | _, _ => none

def addGroupTagIfMissing (currentGroup : Option String) (tags : List (String × String)) :
    List (String × String) :=
  if tags.any (·.1 == "group") then tags
  else match currentGroup with
    | some group => tags ++ [("group", group)]
    | none => tags

structure MetricAddLuaArgs where
  value : LuaValue
  tags : List (String × String)

/-- The tags of the call first, then those of the scenario, the group and the scenario itself. -/
def MetricAddLuaArgs.parse (currentGroup : Option String) (metricsCtx : MetricsContext)
    (value : LuaValue) (tags : Option (List (LuaValue × LuaValue))) : MetricAddLuaArgs :=
  let tags := tagsFromLua text tags
  let tags := metricsCtx.mergeBaseTagsIfMissing ["group"] tags
  ⟨value, addGroupTagIfMissing currentGroup tags⟩

end Opts

/-! ### Metric tables -/

section Record

variable {H F : Type} (hdr : HdrHistogram H F)

/-- `i.try_into()` to `u64`. -/
def tryIntoU64 (i : Int64) : Except MetricsError UInt64 :=
  if i.toInt < 0 then .error .invalidMetricValue else .ok (UInt64.ofNat i.toInt.toNat)

/-- `u64::MAX as f64`. -/
def maxU64 : UInt64 := Ieee.ofU64 (UInt64.ofNat (2 ^ 64 - 1))

/-- The `match` of `add` on the kind of the table and the value: what it does to the cell of the
handle. -/
def operation : MetricKind → LuaValue → Except MetricsError (Cell H → Cell H)
  | .counter, .integer i => do
    let i ← tryIntoU64 i
    return Cell.fetchAdd i
  | .counter, .number n =>
    if !Ieee.isFinite n || Ieee.lt n 0 || !Ieee.isIntegral n || Ieee.lt maxU64 n then
      .error .invalidMetricValue
    else .ok (Cell.fetchAdd (Ieee.toU64 n))
  | .gauge, .integer i => .ok (Cell.gaugeAdd i)
  | .gauge, .number n =>
    if !Ieee.isFinite n || !Ieee.isIntegral n || Ieee.lt n (Ieee.ofI64 Int64.minValue) ||
        Ieee.lt (Ieee.ofI64 Int64.maxValue) n then
      .error .invalidMetricValue
    else .ok (Cell.gaugeAdd (Ieee.toI64 n))
  | .rate, .boolean b => .ok (Cell.addRate (if b then 1 else 0) 1)
  | .histogram, .integer i => do
    let i ← tryIntoU64 i
    return Cell.record hdr i
  -- a float is rounded
  | .histogram, .number n =>
    if !Ieee.isFinite n || Ieee.lt n 0 || Ieee.lt maxU64 n then .error .invalidMetricValue
    else .ok (Cell.record hdr (Ieee.toU64 (Ieee.round n)))
  | _, _ => .error .invalidMetricValue

/-- What a metric object of a script knows. -/
structure MetricHandleTable where
  metric : MetricId
  kind : MetricKind
  metricsCtx : MetricsContext
  deriving DecidableEq, Repr

namespace MetricHandleTable

/-- The tags are interned before the value is looked at, so a refused add may leave strings
behind. -/
def add (text : ToText) (table : MetricHandleTable) (r : Registry H) (currentGroup : Option String)
    (value : LuaValue) (tags : Option (List (LuaValue × LuaValue))) :
    Registry H × Except MetricsError Unit :=
  let args := MetricAddLuaArgs.parse text currentGroup table.metricsCtx value tags
  let (r, tags) := r.resolveTags args.tags
  match r.getHandle hdr table.metric tags with
  | (r, none) => (r, .ok ())
  | (r, some handle) =>
    match operation hdr table.kind args.value with
    | .error e => (r, .error e)
    | .ok op => (r.update handle op, .ok ())

end MetricHandleTable

/-- `Trend`, `Counter`, `Gauge` and `Rate`, by the kind they register. -/
def make (r : Registry H) (metricsCtx : MetricsContext) (kind : MetricKind) (name : String) :
    Except MetricsError (Registry H × MetricHandleTable) :=
  if Text.trim name.toList = [] then .error .invalidMetricName
  else
    let (r, id) := r.register name kind
    .ok (r, ⟨id, kind, metricsCtx⟩)

end Record

/-! ### Samples and aggregates -/

/-- What a value stands for, as a number. -/
inductive Sample
  | counter (n : Nat)
  | gauge (n : Int)
  | rate (hit : Bool)
  | histogram (v : UInt64)
  deriving DecidableEq, Repr

namespace Sample

/-- The sample that a table of the kind makes of a value. -/
def of : MetricKind → LuaValue → Option Sample
  | .counter, .integer i => some (.counter i.toInt.toNat)
  | .counter, .number n => some (.counter (Ieee.integralPart n).toNat)
  | .gauge, .integer i => some (.gauge i.toInt)
  | .gauge, .number n => some (.gauge (Ieee.integralPart n))
  | .rate, .boolean b => some (.rate b)
  | .histogram, .integer i => some (.histogram (UInt64.ofNat i.toInt.toNat))
  | .histogram, .number n => some (.histogram (Ieee.toU64 (Ieee.round n)))
  | _, _ => none

/-- The kind of metric that the sample is for. -/
def kind : Sample → MetricKind
  | counter _ => .counter
  | gauge _ => .gauge
  | rate _ => .rate
  | histogram _ => .histogram

variable {H F : Type} (hdr : HdrHistogram H F)

/-- The second aggregate is the first one and the sample. -/
def Adds : Sample → Cell H → Cell H → Prop
  | counter n, .counter v, .counter v' => v'.toNat = v.toNat + n
  | gauge n, .gauge v, .gauge v' => v'.toInt = v.toInt + n
  | rate hit, .rate total hits, .rate total' hits' =>
    total'.toNat = total.toNat + 1 ∧ hits'.toNat = hits.toNat + hit.toNat
  | histogram _, .histogram h, .histogram h' => (hdr.len h').toNat = (hdr.len h).toNat + 1
  | _, _, _ => False

/-- The aggregate can take up the sample. -/
def Room : Sample → Cell H → Prop
  | counter n, .counter v => v.toNat + n < 2 ^ 64
  | gauge n, .gauge v =>
    (-2 ^ 63 ≤ n ∧ n < 2 ^ 63) ∧ -2 ^ 63 ≤ v.toInt + n ∧ v.toInt + n < 2 ^ 63
  | rate hit, .rate total hits =>
    total.toNat + 1 < 2 ^ 64 ∧ hits.toNat + hit.toNat < 2 ^ 64
  | histogram v, .histogram h => hdr.accepts v ∧ (hdr.len h).toNat + 1 < 2 ^ 64
  | _, _ => False

end Sample

section Aggregates

variable {H F : Type} (hdr : HdrHistogram H F)

/-- The kind of a metric, by name. -/
def kindNamed (r : Registry H) (name : String) : Option MetricKind :=
  (r.metricNamed name).bind r.metricKind

/-- The aggregate of a metric for a tag set; without a series it is the empty one. -/
def aggregate (r : Registry H) (name : String) (tags : TagSet) : Option (Cell H) :=
  (r.metricNamed name).bind fun metric =>
    match r.series metric tags with
    | some cell => some cell
    | none => (r.metricKind metric).map (Cell.new hdr)

/-- An `add` that returned without error. -/
structure Accepted (H : Type) where
  name : String
  kind : MetricKind
  value : LuaValue
  tags : TagSet
  before : Registry H
  after : Registry H

namespace Accepted

/-- The aggregate of the name and the tags changes by exactly the sample, and no other series
changes. -/
def Lands (a : Accepted H) : Prop :=
  (∃ sample ∈ Sample.of a.kind a.value, ∃ cell ∈ aggregate hdr a.before a.name a.tags,
    ∃ cell' ∈ aggregate hdr a.after a.name a.tags, sample.Adds hdr cell cell') ∧
  ∀ metric tags, ¬(a.before.metricNamed a.name = some metric ∧ tags = a.tags) →
    a.after.series metric tags = a.before.series metric tags

/-- The name was first registered with the kind of the table, and there is room for the sample in
its aggregate. -/
def Fits (a : Accepted H) : Prop :=
  kindNamed a.before a.name = some a.kind ∧
  ∃ sample ∈ Sample.of a.kind a.value, ∃ cell ∈ aggregate hdr a.before a.name a.tags,
    sample.Room hdr cell

end Accepted

end Aggregates

/-! ### Scripts -/

/-- A call of a script. The tables are numbered in the order in which they were made. -/
inductive Call
  | make (metricsCtx : MetricsContext) (kind : MetricKind) (name : String)
  | add (table : Nat) (currentGroup : Option String) (value : LuaValue)
      (tags : Option (List (LuaValue × LuaValue)))

/-- The registry and the tables made so far, each with the name it was made for. -/
structure Script (H : Type) where
  registry : Registry H
  tables : List (String × MetricHandleTable)

/-- A registry from `RunScenariosContext::new` on: the built-in metrics are there, under the
numbers they got. -/
structure RunRegistry (H : Type) where
  registry : Registry H
  defined : registry.Defined
  builtins : Registry.Grows registered registry

namespace Script

variable {H F : Type} (hdr : HdrHistogram H F) (text : ToText)

def start (r : RunRegistry H) : Script H := ⟨r.registry, []⟩

/-- A call that is refused leaves nothing but interned strings. -/
def step (s : Script H) : Call → Script H × Option (Accepted H)
  | .make metricsCtx kind name =>
    match make s.registry metricsCtx kind name with
    | .error _ => (s, none)
    | .ok (r, table) => (⟨r, s.tables ++ [(name, table)]⟩, none)
  | .add i currentGroup value tags =>
    match s.tables[i]? with
    | none => (s, none)
    | some (name, table) =>
      match table.add hdr text s.registry currentGroup value tags with
      -- the tags are interned all the same
      | (r, .error _) => ({ s with registry := r }, none)
      | (r, .ok ()) =>
        let args := MetricAddLuaArgs.parse text currentGroup table.metricsCtx value tags
        let tags := (s.registry.resolveTags args.tags).2
        ({ s with registry := r }, some ⟨name, table.kind, value, tags, s.registry, r⟩)

/-- The calls of `add` that a run of the script accepts. -/
def accepted (s : Script H) : List Call → List (Accepted H)
  | [] => []
  | call :: rest =>
    let (s', added) := s.step hdr text call
    added.toList ++ s'.accepted rest

end Script

/-! ### One sample -/

namespace Sample

variable {H F : Type} {hdr : HdrHistogram H F}

theorem kind_of_room {sample : Sample} {cell : Cell H} (room : sample.Room hdr cell) :
    cell.kind = sample.kind := by
  cases sample <;> cases cell <;> first | rfl | exact room.elim

/-- A counter wraps, so there is room up to the largest number. -/
theorem adds_fetchAdd {n : Nat} {m : UInt64} (cast : m.toNat = min n (2 ^ 64 - 1))
    (cell : Cell H) : (counter n).Adds hdr cell (cell.fetchAdd m) ↔ (counter n).Room hdr cell := by
  cases cell with
  | counter v =>
    have bound := v.toNat_lt
    have sum := UInt64.toNat_add v m
    simp only [Adds, Room, Cell.fetchAdd]
    -- a sum that does not fit wraps around or was cut off by the cast
    omega
  | gauge v => rfl
  | rate total hits => rfl
  | histogram h => rfl

/-- A gauge saturates on both sides. -/
theorem adds_gaugeAdd {n : Int} {m : Int64} (cast : m.toInt = max (-2 ^ 63) (min n (2 ^ 63 - 1)))
    (cell : Cell H) : (gauge n).Adds hdr cell (cell.gaugeAdd m) ↔ (gauge n).Room hdr cell := by
  cases cell with
  | gauge v =>
    have low := v.le_toInt
    have high := v.toInt_lt
    have low' := (v + m).le_toInt
    have high' := (v + m).toInt_lt
    have sum := Int64.toInt_add v m
    have exact_of_fits (low : -2 ^ 63 ≤ v.toInt + m.toInt) (high : v.toInt + m.toInt < 2 ^ 63) :
        (v + m).toInt = v.toInt + m.toInt := sum.trans (Int.bmod_eq_of_le (by omega) (by omega))
    simp only [Adds, Room, Cell.gaugeAdd]
    constructor
    · intro adds
      -- a sample that was cut off by the cast leaves the sum in range, and short of the sample
      omega
    · rintro ⟨cast_exact, fits⟩
      omega
  | counter v => rfl
  | rate total hits => rfl
  | histogram h => rfl

/-- A rate counts the call and whether it was a hit. -/
theorem adds_addRate (hit : Bool) (cell : Cell H) :
    (rate hit).Adds hdr cell (cell.addRate (if hit then 1 else 0) 1) ↔
      (rate hit).Room hdr cell := by
  cases cell with
  | rate total hits =>
    -- a rate has room unless one of its two counters is at its end
    have cast : (if hit then 1 else 0 : UInt64).toNat = hit.toNat := by cases hit <;> rfl
    have total_lt := total.toNat_lt
    have hits_lt := hits.toNat_lt
    have small := hit.toNat_le
    simp only [Adds, Room, Cell.addRate, UInt64.toNat_add, cast]
    have one : (1 : UInt64).toNat = 1 := rfl
    omega
  | counter v => rfl
  | gauge v => rfl
  | histogram h => rfl

/-- A histogram takes what it has a bucket for. -/
theorem adds_record (lawful : hdr.Lawful) (v : UInt64) (cell : Cell H) :
    (histogram v).Adds hdr cell (cell.record hdr v) ↔ (histogram v).Room hdr cell := by
  cases cell with
  | histogram h =>
    simp only [Adds, Room, Cell.record, ← lawful.record_isSome h v]
    cases recorded : hdr.record h v with
    | none => simp
    | some h' =>
      -- what is recorded is counted, up to the largest count
      have counts := lawful.len_record h h' v recorded
      have bound := (hdr.len h').toNat_lt
      simp only [Option.getD_some, Option.isSome_some, true_and]
      exact ⟨fun len => len ▸ bound, counts⟩
  | counter v => rfl
  | gauge v => rfl
  | rate total hits => rfl

end Sample

section Operation

variable {H F : Type} {hdr : HdrHistogram H F}

theorem kind_fetchAdd (n : UInt64) (cell : Cell H) : (cell.fetchAdd n).kind = cell.kind := by
  cases cell <;> rfl

theorem kind_gaugeAdd (n : Int64) (cell : Cell H) : (cell.gaugeAdd n).kind = cell.kind := by
  cases cell <;> rfl

theorem kind_addRate (hits total : UInt64) (cell : Cell H) :
    (cell.addRate hits total).kind = cell.kind := by
  cases cell <;> rfl

theorem kind_record (v : UInt64) (cell : Cell H) : (cell.record hdr v).kind = cell.kind := by
  cases cell <;> rfl

/-- Only numbers that are not negative are taken. -/
theorem tryIntoU64_ok {i : Int64} {n : UInt64} (converted : tryIntoU64 i = .ok n) :
    n = UInt64.ofNat i.toInt.toNat ∧ n.toNat = min i.toInt.toNat (2 ^ 64 - 1) := by
  have high := i.toInt_lt
  rw [tryIntoU64] at converted
  split at converted
  · cases converted
  · cases converted
    refine ⟨rfl, ?_⟩
    rw [UInt64.toNat_ofNat', Nat.mod_eq_of_lt (by omega)]
    omega

/-- An operation stands for the sample of its value: it adds the sample to every cell that has room
for it, and to no other. -/
theorem operation_spec (lawful : hdr.Lawful) {kind : MetricKind} {value : LuaValue}
    {op : Cell H → Cell H} (accepts : operation hdr kind value = .ok op) :
    (∀ cell, (op cell).kind = cell.kind) ∧ ∃ sample, Sample.of kind value = some sample ∧
      sample.kind = kind ∧ ∀ cell, sample.Adds hdr cell (op cell) ↔ sample.Room hdr cell := by
  unfold operation at accepts
  -- the branches of `op_from_value`: counter, gauge, rate and histogram, with integers before
  -- numbers
  split at accepts
  · next i =>
    cases converted : tryIntoU64 i with
    | error e => simp [converted, bind, Except.bind] at accepts
    | ok n =>
      rw [converted] at accepts
      cases accepts
      have cast := (tryIntoU64_ok converted).2
      exact ⟨kind_fetchAdd n, _, rfl, rfl, Sample.adds_fetchAdd cast⟩
  · next n =>
    split at accepts
    · cases accepts
    · cases accepts
      exact ⟨kind_fetchAdd _, _, rfl, rfl,
        Sample.adds_fetchAdd (Ieee.toU64_toNat n)⟩
  · next i =>
    cases accepts
    have low := i.le_toInt
    have high := i.toInt_lt
    exact ⟨kind_gaugeAdd i, _, rfl, rfl, Sample.adds_gaugeAdd (by omega)⟩
  · next n =>
    split at accepts
    · cases accepts
    · cases accepts
      exact ⟨kind_gaugeAdd _, _, rfl, rfl,
        Sample.adds_gaugeAdd (Ieee.toI64_toInt n)⟩
  · next b =>
    cases accepts
    exact ⟨kind_addRate _ 1, _, rfl, rfl, Sample.adds_addRate b⟩
  · next i =>
    cases converted : tryIntoU64 i with
    | error e => simp [converted, bind, Except.bind] at accepts
    | ok n =>
      rw [converted] at accepts
      cases accepts
      obtain ⟨rfl, -⟩ := tryIntoU64_ok converted
      exact ⟨kind_record _, _, rfl, rfl, Sample.adds_record lawful _⟩
  · next n =>
    split at accepts
    · cases accepts
    · cases accepts
      exact ⟨kind_record _, _, rfl, rfl, Sample.adds_record lawful _⟩
  · cases accepts

end Operation

/-! ### One call -/

section Calls

variable {H F : Type} {hdr : HdrHistogram H F} {text : ToText}

theorem registered_of_named {r : Registry H} (defined : r.Defined) {name : String}
    {metric : MetricId} (named : r.metricNamed name = some metric) :
    ∃ kind, r.Registered metric kind := by
  obtain ⟨nameId, -, found⟩ := Option.bind_eq_some_iff.mp named
  exact defined.registered found

/-- The aggregate of a name whose metric is known, and its kind. -/
theorem aggregate_eq (hdr : HdrHistogram H F) {r : Registry H} (defined : r.Defined)
    {name : String} {metric : MetricId} {kind : MetricKind}
    (named : r.metricNamed name = some metric)
    (hasKind : r.metricKind metric = some kind) (tags : TagSet) :
    aggregate hdr r name tags = some ((r.series metric tags).getD (Cell.new hdr kind)) ∧
      ((r.series metric tags).getD (Cell.new hdr kind)).kind = kind := by
  rw [aggregate, named, Option.bind_some]
  cases found : r.series metric tags with
  | none => exact ⟨by rw [hasKind]; rfl, kind_new hdr kind⟩
  | some cell =>
    have same := defined.kinds metric tags cell found
    rw [hasKind] at same
    exact ⟨rfl, (Option.some.inj same).symm⟩

/-- An operation on the aggregate of the metric, and on nothing else, lands if its sample fits. -/
theorem lands_iff_fits (lawful : hdr.Lawful) {a : Accepted H} {metric : MetricId}
    {kind : MetricKind} {op : Cell H → Cell H} (defined : a.before.Defined)
    (named : a.before.metricNamed a.name = some metric)
    (hasKind : a.before.metricKind metric = some kind)
    (grows : Registry.Grows a.before a.after)
    (accepts : operation hdr a.kind a.value = .ok op)
    (here : a.after.series metric a.tags =
      some (op ((a.before.series metric a.tags).getD (Cell.new hdr kind))))
    (others : ∀ m t, ¬(m = metric ∧ t = a.tags) → a.after.series m t = a.before.series m t) :
    a.Lands hdr ↔ a.Fits hdr := by
  obtain ⟨-, sample, isSample, sample_kind, adds_iff⟩ := operation_spec lawful accepts
  obtain ⟨before, cell_kind⟩ := aggregate_eq hdr defined named hasKind a.tags
  generalize (a.before.series metric a.tags).getD (Cell.new hdr kind) = cell at *
  -- the series that the call names is the one that it has changed
  have after : aggregate hdr a.after a.name a.tags = some (op cell) := by
    rw [aggregate, grows.metricNamed named, Option.bind_some, here]
  have isKind : kindNamed a.before a.name = some kind := by rw [kindNamed, named]; exact hasKind
  have frame (m : MetricId) (t : TagSet)
      (other : ¬(a.before.metricNamed a.name = some m ∧ t = a.tags)) :
      a.after.series m t = a.before.series m t :=
    others m t fun ⟨isMetric, isTags⟩ => other ⟨isMetric ▸ named, isTags⟩
  simp only [Accepted.Lands, Accepted.Fits, isSample, before, after, isKind, Option.mem_def,
    Option.some.injEq, exists_eq_left', adds_iff]
  constructor
  -- there is room only in a cell of the sample's kind
  · rintro ⟨room, -⟩
    exact ⟨by rw [← cell_kind, Sample.kind_of_room room, sample_kind], room⟩
  · rintro ⟨-, room⟩
    exact ⟨room, frame⟩

/-- A call of `add` keeps what registries keep, and what it accepts lands if it fits. -/
theorem add_spec (lawful : hdr.Lawful) {r : Registry H} (defined : r.Defined) {name : String}
    {table : MetricHandleTable} (named : r.metricNamed name = some table.metric)
    (currentGroup : Option String) (value : LuaValue)
    (tags : Option (List (LuaValue × LuaValue))) {r' : Registry H}
    {result : Except MetricsError Unit}
    (added : table.add hdr text r currentGroup value tags = (r', result)) :
    r'.Defined ∧ Registry.Grows r r' ∧
      (result = .ok () →
        let args := MetricAddLuaArgs.parse text currentGroup table.metricsCtx value tags
        let a : Accepted H := ⟨name, table.kind, value, (r.resolveTags args.tags).2, r, r'⟩
        (a.Lands hdr ↔ a.Fits hdr)) := by
  rw [MetricHandleTable.add] at added
  have value_eq : (MetricAddLuaArgs.parse text currentGroup table.metricsCtx value tags).value =
      value := rfl
  generalize MetricAddLuaArgs.parse text currentGroup table.metricsCtx value tags = args at *
  subst value_eq
  -- resolving the tags changes the interner only
  have resolved := defined.resolveTags args.tags
  have grows₁ := Registry.grows_resolveTags r args.tags
  have same (m : MetricId) (t : TagSet) : (r.resolveTags args.tags).1.series m t = r.series m t :=
    rfl
  have kinds (m : MetricId) : (r.resolveTags args.tags).1.metricKind m = r.metricKind m := rfl
  dsimp only at added ⊢
  generalize (r.resolveTags args.tags).1 = r₁ at *
  generalize (r.resolveTags args.tags).2 = tagSet at *
  obtain ⟨kind, registered⟩ := registered_of_named resolved (grows₁.metricNamed named)
  obtain ⟨r₂, handle, got, defined₂, grows₂, -, -, found, here, others⟩ :=
    resolved.getHandle hdr registered tagSet
  rw [got] at added
  dsimp only at added
  cases accepts : operation hdr table.kind args.value with
  | error e =>
    rw [accepts] at added
    cases added
    exact ⟨defined₂, grows₁.trans grows₂, fun failed => by cases failed⟩
  | ok op =>
    rw [accepts] at added
    cases added
    have keeps := (operation_spec lawful accepts).1
    have grows := (grows₁.trans grows₂).trans (Registry.grows_update r₂ handle op)
    refine ⟨defined₂.update found keeps, grows, fun _ => ?_⟩
    refine lands_iff_fits lawful defined named ((kinds _).symm.trans registered.defined) grows
      accepts ?_ fun m t other => ?_
    · rw [Registry.series_update found, here, Option.map_some, same]
    · rw [Registry.series_update_of_ne defined₂.wf found op other, others m t other, same]

end Calls

/-! ### Runs -/

namespace Script

variable {H F : Type} {hdr : HdrHistogram H F} {text : ToText}

/-- Every table has the metric of its name. -/
structure Ok (s : Script H) : Prop where
  defined : s.registry.Defined
  named : ∀ entry ∈ s.tables, s.registry.metricNamed entry.1 = some entry.2.metric

theorem Ok.grow {s : Script H} (ok : s.Ok) {r : Registry H} (defined : r.Defined)
    (grows : Registry.Grows s.registry r) : { s with registry := r }.Ok :=
  ⟨defined, fun entry member => grows.metricNamed (ok.named entry member)⟩

/-- Every call keeps the tables of the script on their metrics, and an add that is accepted lands
where there is room. -/
theorem Ok.step (lawful : hdr.Lawful) {s s' : Script H} (ok : s.Ok) {call : Call}
    {added : Option (Accepted H)} (stepped : s.step hdr text call = (s', added)) :
    s'.Ok ∧ ∀ a ∈ added, a.Lands hdr ↔ a.Fits hdr := by
  cases call with
  -- a blank name is an error; any other is registered, and the tables before it keep their metrics
  | make metricsCtx kind name =>
    simp only [Script.step, make] at stepped
    by_cases blank : Text.trim name.toList = []
    · rw [if_pos blank] at stepped
      cases stepped
      exact ⟨ok, by simp⟩
    · rw [if_neg blank] at stepped
      cases stepped
      have grown := ok.grow (ok.defined.register name kind) (ok.defined.grows_register name kind)
      refine ⟨⟨grown.defined, fun entry member => ?_⟩, by simp⟩
      rcases List.mem_append.mp member with old | new
      · exact grown.named entry old
      · rw [List.mem_singleton.mp new]
        exact ok.defined.metricNamed_register name kind
  -- an add that fails may still have interned its tags
  | add i currentGroup value tags =>
    simp only [Script.step] at stepped
    cases found : s.tables[i]? with
    | none =>
      rw [found] at stepped
      cases stepped
      exact ⟨ok, by simp⟩
    | some entry =>
      obtain ⟨name, table⟩ := entry
      have named := ok.named _ (List.mem_of_getElem? found)
      rw [found] at stepped
      dsimp only at stepped
      cases outcome : table.add hdr text s.registry currentGroup value tags with
      | mk r result =>
        obtain ⟨defined, grows, lands⟩ :=
          add_spec lawful ok.defined named currentGroup value tags outcome
        rw [outcome] at stepped
        cases result with
        | error e =>
          cases stepped
          exact ⟨ok.grow defined grows, by simp⟩
        | ok _ =>
          cases stepped
          refine ⟨ok.grow defined grows, fun a isAdded => ?_⟩
          cases isAdded
          exact lands rfl

/-- So does every add of a run, by induction on the calls. -/
theorem Ok.accepted (lawful : hdr.Lawful) {s : Script H} (ok : s.Ok) (calls : List Call) :
    ∀ a ∈ s.accepted hdr text calls, a.Lands hdr ↔ a.Fits hdr := by
  induction calls generalizing s with
  | nil => simp [Script.accepted]
  | cons call rest ih =>
    intro a member
    cases stepped : s.step hdr text call with
    | mk s' added =>
      obtain ⟨ok', first⟩ := ok.step lawful stepped
      rw [Script.accepted, stepped] at member
      rcases List.mem_append.mp member with now | later
      · exact first a (Option.mem_toList.mp now)
      · exact ih ok' a later

end Script

theorem Script.ok_start {H : Type} (r : RunRegistry H) : (Script.start r).Ok :=
  ⟨r.defined, fun _ member => by cases member⟩

/-- In every run the samples that are accepted all land exactly when they all fit. -/
theorem accepted_lands_iff {H F : Type} (hdr : HdrHistogram H F) (lawful : hdr.Lawful)
    (text : ToText) (r : RunRegistry H) (calls : List Call) :
    (∀ a ∈ (Script.start r).accepted hdr text calls, a.Lands hdr) ↔
      ∀ a ∈ (Script.start r).accepted hdr text calls, a.Fits hdr :=
  forall₂_congr ((Script.ok_start r).accepted lawful calls)

/-! ### Runs on the built-in metrics -/

def RunRegistry.new {H : Type} : RunRegistry H :=
  ⟨registered, defined_registerMetrics Registry.defined_default, .refl _⟩

/-- Lua strings of ASCII characters, and the number 0. -/
def asciiText : ToText where
  toStringLossy bytes := String.ofList (bytes.map fun b => Char.ofNat b.toNat)
  displayF64 _ := "0"

instance (sample : Sample) (cell : Cell (List UInt64)) :
    Decidable (sample.Room HdrHistogram.exact cell) := by
  cases sample <;> cases cell <;> unfold Sample.Room <;> infer_instance

instance (a : Accepted (List UInt64)) : Decidable (a.Fits HdrHistogram.exact) :=
  inferInstanceAs (Decidable (_ ∧ _))

/-- `Counter("orders"):add(3, { ok = true })`. -/
def countOrders : List Call :=
  [.make ⟨"shop", []⟩ .counter "orders",
    .add 0 none (.integer 3) (some [(.string [111, 107], .boolean true)])]

theorem accepted_lands_orders :
    ((Script.start .new).accepted .exact asciiText countOrders).length = 1 ∧
      ∀ a ∈ (Script.start .new).accepted .exact asciiText countOrders, a.Lands .exact :=
  ⟨by decide +kernel, (accepted_lands_iff .exact HdrHistogram.lawful_exact asciiText .new
    countOrders).mpr (by decide +kernel)⟩

/-- `Gauge("checks"):add(1)`, on the name of a built-in counter. -/
def gaugeOnChecks : List Call :=
  [.make ⟨"shop", []⟩ .gauge "checks", .add 0 none (.integer 1) none]

theorem accepted_gauge_lost :
    ¬∀ (r : RunRegistry (List UInt64)) (calls : List Call),
      ∀ a ∈ (Script.start r).accepted .exact asciiText calls, a.Lands .exact := by
  intro lands
  have misfit : ¬∀ a ∈ (Script.start .new).accepted .exact asciiText gaugeOnChecks,
      a.Fits .exact := by decide +kernel
  refine misfit fun a member => ?_
  have isAdded := (Script.ok_start .new).accepted HdrHistogram.lawful_exact gaugeOnChecks a member
  exact isAdded.mp (lands .new gaugeOnChecks a member)

end Wrkr.Lua.CustomMetrics
