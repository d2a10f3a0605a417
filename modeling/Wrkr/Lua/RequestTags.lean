import Wrkr.Lua.Check
import Wrkr.Lua.CustomMetrics
import Wrkr.Lua.Http

/-!
# The tags of a sample

Four recorders put tags together: a request, a check, `add` on a custom metric and the end of an
iteration. Each starts from tags of its own or of the call, merges the tags of the scenario into
them and adds the current group, with other reserved keys and in another order. `handed` are the
lists of tags that one of them gives to the registry, and `WellTagged` is what all of them have in
common.
-/
namespace Wrkr.Lua

open Wrkr.Metrics Wrkr.Core Wrkr.Core.Accounting

variable {H F : Type} (hdr : HdrHistogram H F)

/-! ### The recorders -/

/-- `tags.retain(|(k, _)| k != key); tags.push((key, value))`. -/
def setTag (tags : List (String × String)) (key value : String) : List (String × String) :=
  tags.filter (·.1 ≠ key) ++ [(key, value)]

/-- The tags of `request_impl`, which go to the request metrics as extra tags. -/
def requestTags (metricsCtx : MetricsContext) (currentGroup : Option String) (method : String)
    (opts : Http.HttpRequestOptions) : List (String × String) :=
  let tags := setTag opts.tags "method" method
  let tags := match opts.name with
    | some name => setTag tags "name" name
    | none => tags
  let tags := metricsCtx.mergeScenarioTagsIfMissing ["scenario", "protocol", "error_kind", "group"] tags
  match currentGroup with
  | some group => if tags.any (·.1 == "group") then tags else tags ++ [("group", group)]
  | none => tags

/-- What became of a request: the bytes received and sent, or the kind of the error. -/
abbrev Outcome := Except String (UInt64 × UInt64)

/-- The sample of a request, with the bytes if there was an answer and the kind of the error
otherwise. -/
def requestSample (metricsCtx : MetricsContext) (latency : Nat) : Outcome → RequestSample
  | .ok (bytesReceived, bytesSent) =>
    ⟨metricsCtx.scenario, .http, true, latency, bytesReceived, bytesSent, none⟩
  | .error kind => ⟨metricsCtx.scenario, .http, false, latency, 0, 0, some kind⟩

/-- The end of `request_impl`. -/
def recordHttpRequest (ids : RequestMetricIds) (r : Registry H) (metricsCtx : MetricsContext)
    (currentGroup : Option String) (method : String) (opts : Http.HttpRequestOptions)
    (latency : Nat) (outcome : Outcome) : Registry H :=
  ids.recordRequest hdr r (requestSample metricsCtx latency outcome)
    (requestTags metricsCtx currentGroup method opts)

/-- The tags of the scenario whose keys are free. -/
def scenarioTagRefs (metricsCtx : MetricsContext) (reservedKeys : List String) :
    List (String × String) :=
  metricsCtx.scenarioTags.filter fun tag => tag.1 ∉ reservedKeys

/-- `VuContext::record_iteration`. -/
def recordVuIteration (ids : IterationMetricIds) (r : Registry H) (metricsCtx : MetricsContext)
    (duration : Nat) (success : Bool) : Registry H :=
  ids.recordIteration hdr r ⟨metricsCtx.scenario, success, duration⟩
    (scenarioTagRefs metricsCtx ["scenario", "status", "group"])

/-- A call of one of the recorders. -/
inductive Recorder
  | request (method : String) (opts : Http.HttpRequestOptions) (latency : Nat) (outcome : Outcome)
  | check (name : String) (passed : Bool)
  | add (text : CustomMetrics.ToText) (value : LuaValue) (tags : Option (List (LuaValue × LuaValue)))
  | iteration (duration : Nat) (success : Bool)

namespace Recorder

/-- The tags that come with the call. -/
def perCall : Recorder → List (String × String)
  | request _ opts _ _ => opts.tags
  | add text _ tags => CustomMetrics.tagsFromLua text tags
  | check _ _ | iteration _ _ => []

/-- The keys that the recorder keeps for itself. -/
def ownKeys : Recorder → List String
  | request _ opts _ _ =>
    RequestMetricIds.reserved ++ "method" :: (opts.name.map fun _ => "name").toList
  | check _ _ => ["name", "status", "scenario"]
  | add _ _ _ => []
  | iteration _ _ => IterationMetricIds.reserved

/-- The tags that it sets by itself. -/
def own (metricsCtx : MetricsContext) : Recorder → List (String × String)
  | request method opts latency outcome =>
    let sample := requestSample metricsCtx latency outcome
    [("scenario", sample.scenario), ("protocol", sample.protocol.asStr)] ++
      (sample.errorKind.map ("error_kind", ·)).toList ++
      ("method", method) :: (opts.name.map ("name", ·)).toList
  | check name passed =>
    [("name", name), ("status", if passed then "pass" else "fail"),
      ("scenario", metricsCtx.scenario)]
  | add _ _ _ => []
  | iteration _ success =>
    [("scenario", metricsCtx.scenario), ("status", if success then "success" else "failure")]

end Recorder

namespace Recorder

/-- The lists of tags given to `Registry::resolve_tags`, one for each recording. -/
def handed (metricsCtx : MetricsContext) (currentGroup : Option String) :
    Recorder → List (List (String × String))
  | request method opts latency outcome =>
    (Event.request (requestSample metricsCtx latency outcome)
      (requestTags metricsCtx currentGroup method opts)).entries.map Entry.pairs
  | check name passed =>
    [CheckRecorder.tags ⟨metricIds.checks, currentGroup, metricsCtx⟩ name passed]
  | add text value tags =>
    [(CustomMetrics.MetricAddLuaArgs.parse text currentGroup metricsCtx value tags).tags]
  | iteration duration success =>
    (Event.iteration ⟨metricsCtx.scenario, success, duration⟩
      (scenarioTagRefs metricsCtx ["scenario", "status", "group"])).entries.map Entry.pairs

end Recorder

/-- The end of a request records under the lists it hands over, and nothing else. -/
theorem logs_recordHttpRequest {n : Interner} (r : Registry H) (metricsCtx : MetricsContext)
    (currentGroup : Option String) (method : String) (opts : Http.HttpRequestOptions)
    (latency : Nat) (outcome : Outcome)
    (ext : Interner.Extends (recordHttpRequest hdr metricIds.request r metricsCtx currentGroup method
      opts latency outcome).interner n) :
    ∃ entries, entries.map Entry.pairs =
        Recorder.handed metricsCtx currentGroup (.request method opts latency outcome) ∧
      Logs hdr n r entries (recordHttpRequest hdr metricIds.request r metricsCtx currentGroup method
        opts latency outcome) :=
  ⟨_, rfl, logs_recordRequest hdr r _ _ ext⟩

/-- An iteration writes its two entries. -/
theorem logs_recordVuIteration {n : Interner} (r : Registry H) (metricsCtx : MetricsContext)
    (currentGroup : Option String) (duration : Nat) (success : Bool)
    (ext : Interner.Extends (recordVuIteration hdr metricIds.iteration r metricsCtx duration
      success).interner n) :
    ∃ entries, entries.map Entry.pairs =
        Recorder.handed metricsCtx currentGroup (.iteration duration success) ∧
      Logs hdr n r entries (recordVuIteration hdr metricIds.iteration r metricsCtx duration
        success) :=
  ⟨_, rfl, logs_recordIteration hdr r _ _ ext⟩

abbrev keys (tags : List (String × String)) : List String := tags.map Prod.fst

/-- The tags of a recording: no key is there twice; a tag of the call is there, and nothing else
under its key, unless the recorder sets the key; the group is that of the call or the current one;
and the scenario is the running one. -/
structure WellTagged (metricsCtx : MetricsContext) (currentGroup : Option String)
    (call : Recorder) (tags : List (String × String)) : Prop where
  distinct : (keys tags).Nodup
  kept : ∀ tag ∈ call.perCall, tag.1 ∉ call.ownKeys → tag ∈ tags
  given : ∀ tag ∈ tags, tag.1 ∈ keys call.perCall → tag ∈ call.perCall ∨ tag ∈ call.own metricsCtx
  group : ∀ v, ("group", v) ∈ tags → ("group", v) ∈ call.perCall ∨ currentGroup = some v
  scenario : (∀ text value tags, call ≠ .add text value tags) →
    ("scenario", metricsCtx.scenario) ∈ tags

/-! ### The steps -/

section Steps

variable {tags : List (String × String)}

theorem mem_setTag {key value : String} {tag : String × String} :
    tag ∈ setTag tags key value ↔ tag ∈ tags ∧ tag.1 ≠ key ∨ tag = (key, value) := by
  simp [setTag]

theorem keys_setTag {key value k : String} (member : k ∈ keys tags) :
    k ∈ keys (setTag tags key value) := by
  obtain ⟨tag, inside, rfl⟩ := List.mem_map.mp member
  by_cases same : tag.1 = key
  · exact List.mem_map.mpr ⟨(key, value), mem_setTag.mpr (.inr rfl), same.symm⟩
  · exact List.mem_map_of_mem (mem_setTag.mpr (.inl ⟨inside, same⟩))

theorem nodup_setTag (distinct : (keys tags).Nodup) (key value : String) :
    (keys (setTag tags key value)).Nodup := by
  refine nodup_snoc (distinct.sublist (List.filter_sublist.map _)) ?_
  simp

/-- A merged tag was there, or it is one of the scenario under a free key. -/
theorem mem_mergeScenarioTags {metricsCtx : MetricsContext} {reservedKeys : List String}
    {tag : String × String}
    (member : tag ∈ metricsCtx.mergeScenarioTagsIfMissing reservedKeys tags) :
    tag ∈ tags ∨ tag ∈ metricsCtx.scenarioTags ∧ tag.1 ∉ reservedKeys ∧ tag.1 ∉ keys tags := by
  rw [MetricsContext.mergeScenarioTagsIfMissing] at member
  generalize metricsCtx.scenarioTags = extra at member ⊢
  induction extra generalizing tags with
  | nil => exact .inl member
  | cons first rest ih =>
    -- a tag of the scenario is merged only if its key is neither reserved nor there already
    rcases ih member with merged | ⟨later, free, absent⟩
    · unfold MetricsContext.mergeTag at merged
      split at merged
      next => exact .inl merged
      next free =>
        split at merged
        next => exact .inl merged
        next new =>
          rcases List.mem_append.mp merged with old | last
          · exact .inl old
          · rw [List.mem_singleton.mp last]
            exact .inr ⟨by simp, free, by simpa [keys] using new⟩
    · refine .inr ⟨by simp [later], free, fun member => absent ?_⟩
      unfold MetricsContext.mergeTag
      split
      · exact member
      · split
        · exact member
        · simp [keys] at member ⊢
          exact .inl member

/-- The group comes from the VU. -/
theorem mem_addGroup {recorder : CheckRecorder} {tag : String × String}
    (member : tag ∈ recorder.addGroup tags) :
    tag ∈ tags ∨ tag.1 = "group" ∧ recorder.group = some tag.2 ∧ tag.1 ∉ keys tags := by
  unfold CheckRecorder.addGroup at member
  split at member
  next group current =>
    split at member
    next => exact .inl member
    -- the group is only added when no tag is called so
    next new =>
      rcases List.mem_append.mp member with old | last
      · exact .inl old
      · rw [List.mem_singleton.mp last]
        exact .inr ⟨rfl, current, by simpa [keys] using new⟩
  next => exact .inl member

/-- The tags of the scenario and then the group, as all but iterations add them. -/
def completed (metricsCtx : MetricsContext) (currentGroup : Option String)
    (reservedKeys : List String) (tags : List (String × String)) : List (String × String) :=
  CheckRecorder.addGroup ⟨metricIds.checks, currentGroup, metricsCtx⟩
    (metricsCtx.mergeScenarioTagsIfMissing reservedKeys tags)

variable {metricsCtx : MetricsContext} {currentGroup : Option String} {reservedKeys : List String}

variable (metricsCtx currentGroup reservedKeys) in
theorem completed_spec (distinct : (keys tags).Nodup) :
    (keys (completed metricsCtx currentGroup reservedKeys tags)).Nodup ∧
      tags ⊆ completed metricsCtx currentGroup reservedKeys tags := by
  obtain ⟨kept, merged⟩ := merge_spec reservedKeys metricsCtx distinct
  obtain ⟨kept', nodup⟩ := addGroup_spec ⟨metricIds.checks, currentGroup, metricsCtx⟩ merged
  exact ⟨nodup, List.Subset.trans kept kept'⟩

/-- What is added has a key that was free, and a group is the current one. -/
theorem mem_completed (distinct : (keys tags).Nodup) (groupReserved : "group" ∈ reservedKeys)
    {tag : String × String}
    (member : tag ∈ completed metricsCtx currentGroup reservedKeys tags) :
    tag ∈ tags ∨ tag.1 ∉ keys tags ∧ (tag.1 = "group" → currentGroup = some tag.2) := by
  rcases mem_addGroup member with merged | ⟨-, current, absent⟩
  · rcases mem_mergeScenarioTags merged with old | ⟨-, free, absent⟩
    · exact .inl old
    · exact .inr ⟨absent, fun same => absurd (same ▸ groupReserved) free⟩
  · refine .inr ⟨fun inside => absent ?_, fun _ => current⟩
    obtain ⟨old, inTags, sameKey⟩ := List.mem_map.mp inside
    exact List.mem_map.mpr ⟨old, (merge_spec reservedKeys metricsCtx distinct).1 inTags, sameKey⟩

/-- Base tags and the extra tags that are not reserved. -/
theorem nodup_merged {reserved : List String} {extraTags base : List (String × String)}
    (extraDistinct : (keys extraTags).Nodup) (baseDistinct : (keys base).Nodup)
    (baseReserved : keys base ⊆ reserved) : (keys (merged reserved extraTags base)).Nodup := by
  rw [merged, keys, List.map_append, List.nodup_append]
  refine ⟨baseDistinct, extraDistinct.sublist (List.filter_sublist.map _), ?_⟩
  rintro key inBase _ inExtra rfl
  obtain ⟨tag, inside, rfl⟩ := List.mem_map.mp inExtra
  have free : tag.1 ∉ reserved := by simpa using (List.mem_filter.mp inside).2
  exact free (baseReserved inBase)

theorem mem_merged {reserved : List String} {extraTags base : List (String × String)}
    {tag : String × String} :
    tag ∈ merged reserved extraTags base ↔
      tag ∈ base ∨ tag ∈ extraTags ∧ tag.1 ∉ reserved := by
  simp [merged]

end Steps

/-! ### The recorders -/

variable {metricsCtx : MetricsContext} {currentGroup : Option String}

/-- The tags of a check: its own, then those of the scenario, then the group. -/
theorem check_wellTagged (name : String) (passed : Bool) :
    WellTagged metricsCtx currentGroup (.check name passed)
      (CheckRecorder.tags ⟨metricIds.checks, currentGroup, metricsCtx⟩ name passed) := by
  -- a check has no tags of the call, only its own three
  have distinct : (keys (Recorder.own metricsCtx (.check name passed))).Nodup := by
    simp [Recorder.own, keys]
  have tags : CheckRecorder.tags ⟨metricIds.checks, currentGroup, metricsCtx⟩ name passed =
      completed metricsCtx currentGroup ["group"] (Recorder.own metricsCtx (.check name passed)) :=
    rfl
  obtain ⟨nodup, kept⟩ := completed_spec metricsCtx currentGroup ["group"] distinct
  rw [tags]
  refine ⟨nodup, by simp [Recorder.perCall], by simp [Recorder.perCall], ?_, ?_⟩
  · intro v member
    rcases mem_completed distinct (by simp) member with own | ⟨-, current⟩
    · simp [Recorder.own] at own
    · exact .inr (current rfl)
  · exact fun _ => kept (by simp [Recorder.own])

theorem addGroupTagIfMissing_eq (metricsCtx : MetricsContext) (tags : List (String × String)) :
    CustomMetrics.addGroupTagIfMissing currentGroup tags =
      CheckRecorder.addGroup ⟨metricIds.checks, currentGroup, metricsCtx⟩ tags := by
  unfold CustomMetrics.addGroupTagIfMissing CheckRecorder.addGroup
  cases currentGroup with
  | none => exact ite_self tags
  | some group => rfl

/-- The scenario's name is added where the call has not said anything else. -/
def withScenario (metricsCtx : MetricsContext) (tags : List (String × String)) :
    List (String × String) :=
  if tags.any (·.1 == "scenario") then tags else tags ++ [("scenario", metricsCtx.scenario)]

/-- The scenario is added at the end unless the key is there. -/
theorem withScenario_spec (metricsCtx : MetricsContext) {tags : List (String × String)}
    (distinct : (keys tags).Nodup) :
    (keys (withScenario metricsCtx tags)).Nodup ∧ tags ⊆ withScenario metricsCtx tags ∧
      ∀ tag ∈ withScenario metricsCtx tags, tag ∈ tags ∨ tag.1 = "scenario" ∧ tag.1 ∉ keys tags := by
  unfold withScenario
  split
  next => exact ⟨distinct, List.Subset.refl _, fun tag member => .inl member⟩
  next new =>
    refine ⟨nodup_snoc distinct new, List.subset_append_left _ _, fun tag member => ?_⟩
    rcases List.mem_append.mp member with old | last
    · exact .inl old
    · rw [List.mem_singleton.mp last]
      exact .inr ⟨rfl, by simpa [keys] using new⟩

/-- The tags of an add: those of the call win over everything else. -/
theorem add_wellTagged (text : CustomMetrics.ToText) (value : LuaValue)
    (tags : Option (List (LuaValue × LuaValue)))
    (distinct : (keys (CustomMetrics.tagsFromLua text tags)).Nodup) :
    WellTagged metricsCtx currentGroup (.add text value tags)
      (CustomMetrics.MetricAddLuaArgs.parse text currentGroup metricsCtx value tags).tags := by
  have parsed : (CustomMetrics.MetricAddLuaArgs.parse text currentGroup metricsCtx value tags).tags =
      completed metricsCtx currentGroup ["group"]
        (withScenario metricsCtx (CustomMetrics.tagsFromLua text tags)) := by
    simp only [CustomMetrics.MetricAddLuaArgs.parse, MetricsContext.mergeBaseTagsIfMissing,
      withScenario, completed, ← addGroupTagIfMissing_eq]
    by_cases named : (CustomMetrics.tagsFromLua text tags).any (·.1 == "scenario") <;> simp [named]
  rw [parsed]
  show WellTagged metricsCtx currentGroup (.add text value tags) (completed metricsCtx currentGroup
    ["group"] (withScenario metricsCtx (Recorder.perCall (.add text value tags))))
  replace distinct : (keys (Recorder.perCall (.add text value tags))).Nodup := distinct
  -- what the call gives comes first, the scenario and the group only where they are missing
  obtain ⟨startDistinct, perCall, start⟩ := withScenario_spec metricsCtx distinct
  obtain ⟨nodup, kept⟩ := completed_spec metricsCtx currentGroup ["group"] startDistinct
  refine ⟨nodup, fun tag member _ => kept (perCall member), fun tag member inCall => .inl ?_, ?_, ?_⟩
  · rcases mem_completed startDistinct (by simp) member with old | ⟨absent, -⟩
    · exact (start tag old).resolve_right fun new => new.2 inCall
    -- the key is in the call, so nothing was completed for it
    · exact absurd (List.map_subset _ perCall inCall) absent
  · intro v member
    rcases mem_completed startDistinct (by simp) member with old | ⟨-, current⟩
    · exact .inl ((start _ old).resolve_right fun new => by simp at new)
    · exact .inr (current rfl)
  · exact fun other => absurd rfl (other text value tags)

/-- The tags of an iteration. -/
theorem iteration_wellTagged (scenarioDistinct : (keys metricsCtx.scenarioTags).Nodup)
    (duration : Nat) (success : Bool) :
    WellTagged metricsCtx currentGroup (.iteration duration success)
      (merged IterationMetricIds.reserved
        (scenarioTagRefs metricsCtx ["scenario", "status", "group"])
        (Recorder.own metricsCtx (.iteration duration success))) := by
  refine ⟨nodup_merged (scenarioDistinct.sublist (List.filter_sublist.map _)) ?_ ?_,
    by simp [Recorder.perCall], by simp [Recorder.perCall], ?_, ?_⟩
  · simp [Recorder.own, keys]
  · simp [Recorder.own, keys, IterationMetricIds.reserved]
  · intro v member
    rcases mem_merged.mp member with own | ⟨scenario, -⟩
    · simp [Recorder.own] at own
    -- `group` is one of the keys that are left out
    · simp [scenarioTagRefs] at scenario
  · exact fun _ => mem_merged.mpr (.inl (by simp [Recorder.own]))

/-! ### Requests -/

section Request

variable {method : String} {opts : Http.HttpRequestOptions} {latency : Nat} {outcome : Outcome}

/-- The tags of the call, with the method and the name of the request. -/
def callTags (method : String) (opts : Http.HttpRequestOptions) : List (String × String) :=
  match opts.name with
  | some name => setTag (setTag opts.tags "method" method) "name" name
  | none => setTag opts.tags "method" method

theorem requestTags_eq : requestTags metricsCtx currentGroup method opts =
    completed metricsCtx currentGroup ["scenario", "protocol", "error_kind", "group"]
      (callTags method opts) := by
  unfold requestTags callTags completed CheckRecorder.addGroup
  cases opts.name <;> rfl

variable (method) in
theorem nodup_callTags (distinct : (keys opts.tags).Nodup) : (keys (callTags method opts)).Nodup := by
  unfold callTags
  split
  · exact nodup_setTag (nodup_setTag distinct _ _) _ _
  · exact nodup_setTag distinct _ _

theorem keys_callTags {k : String} (member : k ∈ keys opts.tags) : k ∈ keys (callTags method opts) := by
  unfold callTags
  split
  · exact keys_setTag (keys_setTag member)
  · exact keys_setTag member

/-- A tag of the call under a key that is not the recorder's own is kept. -/
theorem callTags_kept {tag : String × String} (member : tag ∈ opts.tags)
    (free : tag.1 ∉ Recorder.ownKeys (.request method opts latency outcome)) :
    tag ∈ callTags method opts := by
  unfold callTags
  cases named : opts.name with
  | none =>
    simp only [Recorder.ownKeys, named] at free
    exact mem_setTag.mpr (.inl ⟨member, by simp_all⟩)
  | some name =>
    simp only [Recorder.ownKeys, named] at free
    exact mem_setTag.mpr (.inl ⟨mem_setTag.mpr (.inl ⟨member, by simp_all⟩), by simp_all⟩)

variable (metricsCtx latency outcome) in
/-- And nothing else gets in. -/
theorem mem_callTags {tag : String × String} (member : tag ∈ callTags method opts) :
    tag ∈ opts.tags ∨ tag.1 ≠ "group" ∧
      tag ∈ Recorder.own metricsCtx (.request method opts latency outcome) := by
  unfold callTags at member
  cases named : opts.name with
  -- the method is set last, and the name, if there is one, before it
  | none =>
    rw [named] at member
    rcases mem_setTag.mp member with ⟨old, -⟩ | rfl
    · exact .inl old
    · exact .inr ⟨by simp, by simp [Recorder.own]⟩
  | some name =>
    rw [named] at member
    rcases mem_setTag.mp member with ⟨old, -⟩ | rfl
    · rcases mem_setTag.mp old with ⟨old, -⟩ | rfl
      · exact .inl old
      · exact .inr ⟨by simp, by simp [Recorder.own]⟩
    · exact .inr ⟨by simp, by simp [Recorder.own, named]⟩

/-- The lists of a request: with the protocol, without it, and with the kind of the error. -/
theorem request_handed {tags : List (String × String)}
    (member : tags ∈ Recorder.handed metricsCtx currentGroup (.request method opts latency outcome)) :
    let extra := requestTags metricsCtx currentGroup method opts
    tags = merged RequestMetricIds.reserved extra
        [("scenario", metricsCtx.scenario), ("protocol", Protocol.http.asStr)] ∨
      tags = merged RequestMetricIds.reserved extra [("scenario", metricsCtx.scenario)] ∨
      ∃ kind, outcome = .error kind ∧ tags = merged RequestMetricIds.reserved extra
        [("scenario", metricsCtx.scenario), ("protocol", Protocol.http.asStr),
          ("error_kind", kind)] := by
  cases outcome with
  -- without an error there are two lists, with one the kind has its own
  | ok bytes =>
    simp only [Recorder.handed, Event.entries, errorEntries, requestSample] at member
    simp at member
    tauto
  | error kind =>
    simp only [Recorder.handed, Event.entries, errorEntries, requestSample] at member
    simp at member ⊢
    tauto

/-- One of the lists of a request, by what it starts with. -/
theorem request_wellTagged (distinct : (keys opts.tags).Nodup) {base : List (String × String)}
    (baseDistinct : (keys base).Nodup) (baseReserved : keys base ⊆ RequestMetricIds.reserved)
    (baseOwn : base ⊆ Recorder.own metricsCtx (.request method opts latency outcome))
    (running : ("scenario", metricsCtx.scenario) ∈ base) :
    WellTagged metricsCtx currentGroup (.request method opts latency outcome)
      (merged RequestMetricIds.reserved (requestTags metricsCtx currentGroup method opts) base) := by
  have startDistinct := nodup_callTags method distinct
  obtain ⟨nodup, kept⟩ := completed_spec metricsCtx currentGroup
    ["scenario", "protocol", "error_kind", "group"] startDistinct
  rw [requestTags_eq]
  -- what the recorder sets itself is filtered out of the tags of the request, so it wins
  refine ⟨nodup_merged nodup baseDistinct baseReserved, fun tag member free => ?_,
    fun tag member inCall => ?_, fun v member => ?_, fun _ => mem_merged.mpr (.inl running)⟩
  · refine mem_merged.mpr (.inr ⟨kept (callTags_kept member free), fun reserved => free ?_⟩)
    exact List.mem_append_left _ reserved
  · rcases mem_merged.mp member with own | ⟨extra, -⟩
    · exact .inr (baseOwn own)
    · rcases mem_completed startDistinct (by simp) extra with old | ⟨absent, -⟩
      · exact (mem_callTags metricsCtx latency outcome old).imp id And.right
      · exact absurd (keys_callTags inCall) absent
  · rcases mem_merged.mp member with own | ⟨extra, -⟩
    -- the base has no group, as that key is not reserved
    · have reserved : "group" ∈ RequestMetricIds.reserved := baseReserved (List.mem_map_of_mem own)
      exact absurd reserved (by decide)
    · rcases mem_completed startDistinct (by simp) extra with old | ⟨-, current⟩
      · exact .inl ((mem_callTags metricsCtx latency outcome old).resolve_right
          fun own => own.1 rfl)
      · exact .inr (current rfl)

end Request

/-- Whatever the tags of the scenario and of the call are, every list handed to the registry is
well tagged. -/
theorem handed_wellTagged (metricsCtx : MetricsContext) (currentGroup : Option String)
    (call : Recorder) (scenarioDistinct : (keys metricsCtx.scenarioTags).Nodup)
    (callDistinct : (keys call.perCall).Nodup) :
    ∀ tags ∈ call.handed metricsCtx currentGroup, WellTagged metricsCtx currentGroup call tags := by
  intro tags member
  cases call with
  | check name passed =>
    rw [List.mem_singleton.mp member]
    exact check_wellTagged name passed
  | add text value args =>
    rw [List.mem_singleton.mp member]
    exact add_wellTagged text value args callDistinct
  | iteration duration success =>
    have same : tags = merged IterationMetricIds.reserved
        (scenarioTagRefs metricsCtx ["scenario", "status", "group"])
        (Recorder.own metricsCtx (.iteration duration success)) := by
      simpa [Recorder.handed, Event.entries, Recorder.own] using member
    rw [same]
    exact iteration_wellTagged scenarioDistinct duration success
  | request method opts latency outcome =>
    rcases request_handed member with rfl | rfl | ⟨kind, rfl, rfl⟩
    -- the latency without the protocol, the other series, and those with the kind of the error
    · exact request_wellTagged callDistinct (by simp [keys])
        (by simp [keys, RequestMetricIds.reserved])
        (by cases outcome <;> simp [Recorder.own, requestSample]) (by simp)
    · exact request_wellTagged callDistinct (by simp [keys])
        (by simp [keys, RequestMetricIds.reserved])
        (by cases outcome <;> simp [Recorder.own, requestSample]) (by simp)
    · exact request_wellTagged callDistinct (by simp [keys])
        (by simp [keys, RequestMetricIds.reserved])
        (by simp [Recorder.own, requestSample]) (by simp)

/-- A call with tags for everything that the recorder, the group and the scenario have as well. -/
theorem handed_wellTagged_request :
    let opts : Http.HttpRequestOptions :=
      { headers := [], params := [], timeout := none, name := some "list",
        tags := [("group", "mine"), ("scenario", "other"), ("method", "X"), ("env", "test")] }
    let metricsCtx : MetricsContext :=
      ⟨"main", [("group", "g"), ("env", "prod"), ("team", "core"), ("scenario", "s")]⟩
    ("env", "test") ∈ merged RequestMetricIds.reserved
      (requestTags metricsCtx (some "now") "GET" opts) [("scenario", "main")] :=
  (handed_wellTagged
    ⟨"main", [("group", "g"), ("env", "prod"), ("team", "core"), ("scenario", "s")]⟩ (some "now")
    (.request "GET"
      { headers := [], params := [], timeout := none, name := some "list",
        tags := [("group", "mine"), ("scenario", "other"), ("method", "X"), ("env", "test")] }
      0 (.error "timeout"))
    (by decide) (by decide) _ (by decide)).kept ("env", "test") (by decide) (by decide)

end Wrkr.Lua
