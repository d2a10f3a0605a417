import Wrkr.Lua.GroupTotals

/-!
# What a threshold on a protocol counts

Every recording of a request is tagged with its protocol. `Tallied` says of one counter of the
request metrics that its series with a protocol hold, or the VUs still owe, what the results told so
far add to it. A step of a recording keeps this, and so does a call of another kind that begins; a
request of the protocol goes with one more result. As soon as no VU is inside a recording, a
threshold on the count of the counter for the protocol observes the sum (`Tallied.observed_eq`).
-/
namespace Wrkr.Lua.ProtocolTotals

open Wrkr.Lib Wrkr.Metrics Wrkr.Core Wrkr.Core.Accounting
open Wrkr.Lua.Group (Call)

/-- The protocol of the request that a call makes. -/
def protocolOf : Call → Option Protocol
  | .http _ _ _ _ => some .http
  | .grpc _ _ _ _ => some .grpc
  | .check _ | .make _ _ | .add _ _ _ | .iteration _ _ => none

/-! ### The protocol among the tags -/

section Tagged

variable {sample : RequestSample} {extraTags : List (String × String)} {entry : Entry}

/-- A recording of a request on a counter has the protocol of the request. -/
theorem protocol_mem_request (member : entry ∈ (Event.request sample extraTags).entries)
    (counter : entry.metric ≠ metricIds.request.latency) (value : String) :
    ("protocol", value) ∈ entry.pairs ↔ value = sample.protocol.asStr := by
  simp only [Event.entries, List.mem_append, List.mem_cons, List.not_mem_nil, or_false] at member
  -- the protocol is reserved, so it is that of the base
  have base (rest : List (String × String)) (none : ("protocol", value) ∉ rest) :
      ("protocol", value) ∈ merged RequestMetricIds.reserved extraTags
        (("scenario", sample.scenario) :: ("protocol", sample.protocol.asStr) :: rest) ↔
        value = sample.protocol.asStr := by
    simp [mem_merged, none, RequestMetricIds.reserved]
  rcases member with ((rfl | rfl | rfl) | errors) | rfl | rfl
  · exact base [] (by simp)
  · exact base [] (by simp)
  · exact base [] (by simp)
  · rcases mem_errorEntries errors with rfl | ⟨kind, rfl⟩
    · exact base [] (by simp)
    · exact base _ (by simp)
  · exact absurd rfl counter
  · exact absurd rfl counter

theorem counter_ne_latency {i : Nat} {name : String}
    (here : runMetrics[i]? = some (name, .counter)) :
    UInt32.ofNat i ≠ metricIds.request.latency := by
  have isCounter := Group.counters here
  simp only [List.mem_cons, List.not_mem_nil, or_false] at isCounter
  rcases isCounter with rfl | rfl | rfl | rfl | rfl | rfl | rfl <;> decide

variable {H F : Type} (hdr : HdrHistogram H F)

/-- The part of a request that a selector by protocol sees. -/
theorem tagged_request {i : Nat} {name : String} (here : runMetrics[i]? = some (name, .counter))
    (protocol : Protocol) (sample : RequestSample) (extraTags : List (String × String)) :
    tagged hdr (UInt32.ofNat i) ("protocol", protocol.asStr)
        (Event.request sample extraTags).entries =
      if sample.protocol = protocol then
        (Group.addedBySample (UInt32.ofNat i) sample).map UInt64.toNat
      else [] := by
  have counter (entry : Entry) (onMetric : entry.metric = UInt32.ofNat i) :
      entry.metric ≠ metricIds.request.latency := onMetric ▸ counter_ne_latency here
  have isProtocol : protocol.asStr = sample.protocol.asStr ↔ sample.protocol = protocol := by
    cases protocol <;> cases sample.protocol <;> simp [Protocol.asStr]
  rw [tagged]
  split
  next same =>
    rw [← Group.amounts_request hdr here]
    refine congrArg _ (List.filter_congr fun entry member => ?_)
    by_cases onMetric : entry.metric = UInt32.ofNat i
    · simp [onMetric, protocol_mem_request member (counter entry onMetric), same]
    · simp [onMetric]
  -- no entry of another protocol has the tag
  next other =>
    rw [List.map_eq_nil_iff, List.filter_eq_nil_iff]
    intro entry member both
    obtain ⟨onMetric, inside⟩ := of_decide_eq_true both
    exact other (isProtocol.mp
      ((protocol_mem_request member (counter entry onMetric) _).mp inside))

/-- The tags of a request name one protocol at most. -/
theorem single_request {i : Nat} {name : String} (here : runMetrics[i]? = some (name, .counter))
    (member : entry ∈ (Event.request sample extraTags).entries)
    (onMetric : entry.metric = UInt32.ofNat i) : Single "protocol" entry.pairs := by
  have counter := onMetric ▸ counter_ne_latency here
  intro v v' inside inside'
  rw [(protocol_mem_request member counter v).mp inside,
    (protocol_mem_request member counter v').mp inside']

end Tagged

/-! ### Tallies -/

section Tallies

variable {ι α H F : Type} [DecidableEq ι] (hdr : HdrHistogram H F)

/-- The entries that the VUs have begun are, for the protocol and the counter, what the results told
so far add to it; `none` is a result that nothing is recorded for. -/
structure Tallied (protocol : Protocol) (i : Nat) (adds : α → Option Nat) (s : Workers ι H)
    (told : List α) (begun : List (ι × Entry)) : Prop where
  books : Books hdr s begun
  single : ∀ entry ∈ begun.map Prod.snd, entry.metric = UInt32.ofNat i →
    Single "protocol" entry.pairs
  added : tagged hdr (UInt32.ofNat i) ("protocol", protocol.asStr) (begun.map Prod.snd) =
    told.filterMap adds

theorem tallied_init (protocol : Protocol) (i : Nat) (adds : α → Option Nat) :
    Tallied hdr protocol i adds (Workers.init registered : Workers ι H) [] [] :=
  ⟨books_init hdr, by simp, rfl⟩

variable {hdr} {protocol : Protocol} {i : Nat} {name : String} {adds : α → Option Nat}
  {s s' : Workers ι H} {told more : List α} {begun : List (ι × Entry)} {vu : ι}

theorem Tallied.proceed (lawful : hdr.Lawful) (tallied : Tallied hdr protocol i adds s told begun)
    (fresh : (s.doing vu).InsertsFresh s.registry) (taken : s.proceed hdr vu = some s') :
    Tallied hdr protocol i adds s' told begun :=
  ⟨tallied.books.proceed lawful fresh taken, tallied.single, tallied.added⟩

/-- A VU begins to record entries, with what they are told as. -/
theorem Tallied.begin (tallied : Tallied hdr protocol i adds s told begun)
    (idle : (s.doing vu).idle = true) {work : Work H} {entries : List Entry}
    (writes : Writes work entries .done)
    (single : ∀ entry ∈ entries, entry.metric = UInt32.ofNat i → Single "protocol" entry.pairs)
    (added : tagged hdr (UInt32.ofNat i) ("protocol", protocol.asStr) entries =
      more.filterMap adds) :
    Tallied hdr protocol i adds (s.begin vu work) (told ++ more)
      (begun ++ entries.map (vu, ·)) := by
  have parts : (begun ++ entries.map (vu, ·)).map Prod.snd = begun.map Prod.snd ++ entries := by
    simp [Function.comp_def]
  refine ⟨tallied.books.begin idle writes, ?_, ?_⟩
  · rw [parts]
    intro entry member onMetric
    rcases List.mem_append.mp member with old | new
    · exact tallied.single entry old onMetric
    · exact single entry new onMetric
  · have holds := tallied.added
    rw [tagged] at holds added ⊢
    rw [parts, List.filter_append, List.map_append, holds, added, List.filterMap_append]

variable (here : runMetrics[i]? = some (name, .counter))

include here

/-- A request, told as a result that adds the same. -/
theorem Tallied.request (tallied : Tallied hdr protocol i adds s told begun)
    (idle : (s.doing vu).idle = true) (sample : RequestSample)
    (extraTags : List (String × String))
    (added : (if sample.protocol = protocol then
      (Group.addedBySample (UInt32.ofNat i) sample).map UInt64.toNat else []) =
        more.filterMap adds) :
    Tallied hdr protocol i adds
      (s.begin vu (requestWork metricIds.request sample extraTags .done)) (told ++ more)
      (begun ++ (Event.request sample extraTags).entries.map (vu, ·)) := by
  refine tallied.begin idle (writes_requestWork sample extraTags .done)
    (fun entry member onMetric => single_request here member onMetric) ?_
  rw [tagged_request hdr here, added]

/-- Any other call. -/
theorem Tallied.call (tallied : Tallied hdr protocol i adds s told begun)
    (idle : (s.doing vu).idle = true) (isRequests : i < 6) (text : CustomMetrics.ToText)
    (metricsCtx : MetricsContext) (currentGroup : Option String) {call : Call}
    (own : call.OwnMetric) (other : protocolOf call ≠ some protocol) :
    Tallied hdr protocol i adds
      (s.begin vu (call.work hdr text metricsCtx currentGroup .done)) told
      (begun ++ (call.entries metricsCtx currentGroup).map (vu, ·)) := by
  -- entries on the metrics after those of requests do not matter
  have elsewhere (entry : Entry) (high : 6 ≤ entry.metric.toNat) :
      entry.metric ≠ UInt32.ofNat i := by
    intro same
    rw [same, UInt32.toNat_ofNat'] at high
    omega
  have apart (high : ∀ entry ∈ call.entries metricsCtx currentGroup, 6 ≤ entry.metric.toNat) :
      (∀ entry ∈ call.entries metricsCtx currentGroup, entry.metric = UInt32.ofNat i →
        Single "protocol" entry.pairs) ∧
        tagged hdr (UInt32.ofNat i) ("protocol", protocol.asStr)
          (call.entries metricsCtx currentGroup) = [] := by
    refine ⟨fun entry member onMetric => absurd onMetric (elsewhere entry (high entry member)), ?_⟩
    rw [tagged, List.map_eq_nil_iff, List.filter_eq_nil_iff]
    intro entry member both
    exact elsewhere entry (high entry member) (of_decide_eq_true both).1
  have parts : (∀ entry ∈ call.entries metricsCtx currentGroup, entry.metric = UInt32.ofNat i →
        Single "protocol" entry.pairs) ∧
        tagged hdr (UInt32.ofNat i) ("protocol", protocol.asStr)
          (call.entries metricsCtx currentGroup) = [] := by
    cases call with
    | check checks =>
      refine apart fun entry member => ?_
      obtain ⟨pair, -, isEntry⟩ := List.mem_filterMap.mp member
      obtain ⟨⟨name, result⟩, -, rfl⟩ := Option.map_eq_some_iff.mp isEntry
      simp [metricIds]
    | http method opts latency outcome =>
      refine ⟨fun entry member => single_request here member, ?_⟩
      have isHttp : (requestSample metricsCtx latency outcome).protocol = .http := by
        cases outcome <;> rfl
      have apart : Protocol.http ≠ protocol := fun same => other (congrArg some same)
      rw [Call.entries, tagged_request hdr here, isHttp, if_neg apart]
    | grpc tags latency sent outcome =>
      refine ⟨fun entry member => single_request here member, ?_⟩
      have isGrpc : (Group.grpcSample metricsCtx latency sent outcome).protocol = .grpc := by
        cases outcome <;> rfl
      have apart : Protocol.grpc ≠ protocol := fun same => other (congrArg some same)
      rw [Call.entries, tagged_request hdr here, isGrpc, if_neg apart]
    | make kind name => exact apart fun entry member => (by cases member)
    | add table value tags => exact apart fun entry member => (by cases member)
    | iteration duration success =>
      refine apart fun entry member => ?_
      simp only [Call.entries, Event.entries, List.mem_cons, List.not_mem_nil, or_false] at member
      rcases member with rfl | rfl <;> simp [metricIds]
  have kept : Tallied hdr protocol i adds
      (s.begin vu (call.work hdr text metricsCtx currentGroup .done)) (told ++ [])
      (begun ++ (call.entries metricsCtx currentGroup).map (vu, ·)) :=
    tallied.begin idle (Call.writes own text .done) parts.1 parts.2
  rwa [List.append_nil] at kept

end Tallies

/-- A threshold on the count of the counter, for the protocol, when no VU is inside a recording. -/
theorem Tallied.observed_eq {ι α H : Type} [DecidableEq ι] {hdr : HdrHistogram H UInt64}
    (ratio : UInt64 → UInt64 → UInt64) {protocol : Protocol} {i : Nat} {name : String}
    {adds : α → Option Nat} {s : Workers ι H} {told : List α} {begun : List (ι × Entry)}
    (tallied : Tallied hdr protocol i adds s told begun)
    (here : runMetrics[i]? = some (name, .counter)) (quiet : ∀ vu, (s.doing vu).idle = true)
    (few : (observed hdr ratio s.registry name [("protocol", protocol.asStr)]
      .count).1.interner.vec.length ≤ 2 ^ 32)
    (fits : (told.filterMap adds).sum < 2 ^ 64) :
    (observed hdr ratio s.registry name [("protocol", protocol.asStr)] .count).2 =
      if told.filterMap adds = [] then none
      else some (Ieee.ofU64 (UInt64.ofNat (told.filterMap adds).sum)) := by
  have asked := observed_extends hdr ratio tallied.books.sound.interner name
    [("protocol", protocol.asStr)] .count
  rw [← tallied.added] at fits ⊢
  -- with all VUs idle, the books are what the registry holds
  exact (tallied.books.ledger quiet asked.1).observed_count here ("protocol", protocol.asStr) rfl
    ⟨asked.2, few⟩ tallied.single fits

end Wrkr.Lua.ProtocolTotals
