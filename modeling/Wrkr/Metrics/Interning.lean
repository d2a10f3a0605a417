import Wrkr.Metrics.Registry

/-!
# Tags seen from a later registry

Interned ids never change, so a tag set that was resolved at some point can be read off any
later interner: it is `Interner.tagSet` of the pairs it was resolved from. `Evolves` relates a
registry to those it can turn into; lookups in a resolved tag set are lookups among the pairs as
long as the later interner has not run out of ids.
-/
namespace Wrkr.Metrics

open Wrkr.Lib

namespace Interner

def Knows (n : Interner) (s : String) : Prop := (n.map.get? s).isSome

/-- The id of a known string. -/
def idOf (n : Interner) (s : String) : KeyId := (n.map.get? s).getD 0

def idsOf (n : Interner) (tag : String × String) : KeyId × KeyId := (n.idOf tag.1, n.idOf tag.2)

/-- The interner has never had to reuse an id. -/
structure Ample (n : Interner) : Prop where
  wf : n.Wf
  few : n.vec.length ≤ 2 ^ 32

theorem Knows.get? {n : Interner} {s : String} (known : n.Knows s) :
    n.map.get? s = some (n.idOf s) := by
  obtain ⟨id, found⟩ := Option.isSome_iff_exists.mp known
  simp [idOf, found]

theorem Extends.knows {a b : Interner} (ext : Extends a b) {s : String} (known : a.Knows s) :
    b.Knows s := by
  have found := ext s _ known.get?
  simp [Knows, found]

theorem Extends.idOf_eq {a b : Interner} (ext : Extends a b) {s : String} (known : a.Knows s) :
    b.idOf s = a.idOf s := by
  have found := ext s _ known.get?
  simp [idOf, found]

theorem Ample.idOf_inj {n : Interner} (ample : n.Ample) {s s' : String} (known : n.Knows s)
    (known' : n.Knows s') (same : n.idOf s = n.idOf s') : s = s' :=
  ample.wf.injective ample.few known.get? (same ▸ known'.get?)

/-- An id resolves to its string. -/
theorem Ample.resolve {n : Interner} (ample : n.Ample) {s : String} {id : KeyId}
    (found : n.map.get? s = some id) : n.resolve id = some s := by
  obtain ⟨i, here, rfl⟩ := (ample.wf.agree s id).mp found
  have low : i < n.vec.length := (List.getElem?_eq_some_iff.mp here).1
  have few := ample.few
  rw [Interner.resolve, UInt32.toNat_ofNat', Nat.mod_eq_of_lt (by omega), here]

/-- What an interner with enough ids came from had enough as well. -/
theorem Ample.of_extends {a b : Interner} (ample : b.Ample) (wf : a.Wf) (ext : Extends a b) :
    a.Ample := by
  -- every string of the earlier one has an id in the later one
  have within : a.vec ⊆ b.vec := by
    intro s member
    obtain ⟨i, low, here⟩ := List.mem_iff_getElem.mp member
    have known := (wf.agree s _).mpr ⟨i, List.getElem?_eq_some_iff.mpr ⟨low, here⟩, rfl⟩
    obtain ⟨j, there, -⟩ := (ample.wf.agree s _).mp (ext s _ known)
    exact List.mem_of_getElem? there
  exact ⟨wf, (List.subperm_of_subset wf.nodup within).length_le.trans ample.few⟩

theorem knows_getOrIntern (n : Interner) (s : String) : (n.getOrIntern s).1.Knows s := by
  simp [Knows, getOrIntern_get?]

theorem getOrIntern_snd (n : Interner) (s : String) :
    (n.getOrIntern s).2 = (n.getOrIntern s).1.idOf s := by
  simp [idOf, getOrIntern_get?]

/-! ### The strings of an interner -/

/-- Interning the strings in order, for the ids they then have. -/
def internAll (n : Interner) (strings : List String) : Interner :=
  strings.foldl (fun n s => (n.getOrIntern s).1) n

theorem internAll_append (n : Interner) (first second : List String) :
    n.internAll (first ++ second) = (n.internAll first).internAll second :=
  List.foldl_append

theorem internAll_extends (n : Interner) (strings : List String) : Extends n (n.internAll strings) := by
  induction strings generalizing n with
  | nil => exact Extends.refl n
  | cons s rest ih => exact (getOrIntern_extends n s).trans (ih _)

theorem Knows.getOrIntern {n : Interner} {s : String} (known : n.Knows s) :
    (n.getOrIntern s).1 = n := by
  rw [getOrIntern_of_some known.get?]

def appendNew (vec : List String) (s : String) : List String := if s ∈ vec then vec else vec ++ [s]

theorem Wf.get?_eq_none_iff {n : Interner} (wf : n.Wf) (s : String) :
    n.map.get? s = none ↔ s ∉ n.vec := by
  rw [← not_iff_not, not_not, ← ne_eq, Option.ne_none_iff_exists', List.mem_iff_getElem?]
  simp only [wf.agree]
  constructor
  · rintro ⟨_, i, here, -⟩
    exact ⟨i, here⟩
  · rintro ⟨i, here⟩
    exact ⟨_, i, here, rfl⟩

theorem Wf.vec_getOrIntern {n : Interner} (wf : n.Wf) (s : String) :
    (n.getOrIntern s).1.vec = appendNew n.vec s := by
  unfold appendNew
  cases known : n.map.get? s with
  | none =>
    rw [getOrIntern_of_none known, if_neg ((wf.get?_eq_none_iff s).mp known)]
  | some id =>
    have member : s ∈ n.vec := by
      by_contra absent
      rw [(wf.get?_eq_none_iff s).mpr absent] at known
      contradiction
    rw [getOrIntern_of_some known, if_pos member]

theorem Wf.vec_internAll {n : Interner} (wf : n.Wf) (strings : List String) :
    (n.internAll strings).vec = strings.foldl appendNew n.vec := by
  induction strings generalizing n with
  | nil => rfl
  | cons s rest ih =>
    rw [List.foldl_cons, ← wf.vec_getOrIntern]
    exact ih (wf.getOrIntern s)

theorem Wf.idOf_eq {n : Interner} (wf : n.Wf) {s : String} {i : Nat} (here : n.vec[i]? = some s) :
    n.idOf s = UInt32.ofNat i := by
  rw [idOf, (wf.agree s _).mpr ⟨i, here, rfl⟩]
  rfl

theorem foldl_appendNew_of_nodup (vec strings : List String) (distinct : (vec ++ strings).Nodup) :
    strings.foldl appendNew vec = vec ++ strings := by
  induction strings generalizing vec with
  | nil => simp
  | cons s rest ih =>
    have fresh : s ∉ vec := by
      intro member
      exact (List.nodup_append.mp distinct).2.2 s member s (List.mem_cons_self ..) rfl
    have split : vec ++ s :: rest = (vec ++ [s]) ++ rest := by simp
    rw [List.foldl_cons, appendNew, if_neg fresh, split]
    exact ih _ (split ▸ distinct)

theorem foldl_appendNew_of_subset (vec strings : List String) (known : strings ⊆ vec) :
    strings.foldl appendNew vec = vec := by
  induction strings with
  | nil => rfl
  | cons s rest ih =>
    rw [List.cons_subset] at known
    rw [List.foldl_cons, appendNew, if_pos known.1]
    exact ih known.2

/-! ### Resolving pairs -/

/-- The strings of the pairs, in the order in which they are interned. -/
def stringsOf (tags : List (String × String)) : List String :=
  tags.flatMap fun tag => [tag.1, tag.2]

theorem internPairs_fst (n : Interner) (tags : List (String × String)) :
    (n.internPairs tags).1 = n.internAll (stringsOf tags) := by
  induction tags generalizing n with
  | nil => rfl
  | cons tag rest ih => exact ih _

theorem internPairs_cons (n : Interner) (k v : String) (rest : List (String × String)) :
    n.internPairs ((k, v) :: rest) =
      let afterKey := (n.getOrIntern k).1
      let afterValue := (afterKey.getOrIntern v).1
      ((afterValue.internPairs rest).1,
        ((n.getOrIntern k).2, (afterKey.getOrIntern v).2) :: (afterValue.internPairs rest).2) :=
  rfl

theorem internPairs_extends (n : Interner) (tags : List (String × String)) :
    Extends n (n.internPairs tags).1 := by
  induction tags generalizing n with
  | nil => exact Extends.refl n
  | cons tag rest ih =>
    have first := getOrIntern_extends n tag.1
    have second := getOrIntern_extends (n.getOrIntern tag.1).1 tag.2
    exact (first.trans second).trans (ih _)

theorem Wf.internPairs {n : Interner} (wf : n.Wf) (tags : List (String × String)) :
    (n.internPairs tags).1.Wf := by
  induction tags generalizing n with
  | nil => exact wf
  | cons tag rest ih => exact ih ((wf.getOrIntern tag.1).getOrIntern tag.2)

/-- A later interner knows every string of the pairs and agrees with the ids they got. -/
theorem internPairs_spec {n later : Interner} (tags : List (String × String))
    (ext : Extends (n.internPairs tags).1 later) :
    (n.internPairs tags).2 = tags.map later.idsOf ∧
      ∀ tag ∈ tags, later.Knows tag.1 ∧ later.Knows tag.2 := by
  induction tags generalizing n with
  | nil => exact ⟨rfl, by simp⟩
  | cons tag rest ih =>
    obtain ⟨k, v⟩ := tag
    rw [internPairs_cons] at ext ⊢
    dsimp only at ext ⊢
    have knowsKey := knows_getOrIntern n k
    have key := getOrIntern_snd n k
    rw [key]
    -- from here on only what the interner knows matters, not how it came about
    generalize (n.getOrIntern k).1 = n₁ at *
    have knowsValue := knows_getOrIntern n₁ v
    have value := getOrIntern_snd n₁ v
    have step := getOrIntern_extends n₁ v
    rw [value]
    generalize (n₁.getOrIntern v).1 = n₂ at *
    -- the key is known one interning earlier than the value
    have toLater : Extends n₂ later := (internPairs_extends n₂ rest).trans ext
    have fromFirst : Extends n₁ later := step.trans toLater
    obtain ⟨resolved, knows⟩ := ih ext
    constructor
    · rw [resolved, List.map_cons, idsOf, fromFirst.idOf_eq knowsKey, toLater.idOf_eq knowsValue]
    · intro tag member
      rw [List.mem_cons] at member
      rcases member with rfl | inRest
      · exact ⟨fromFirst.knows knowsKey, toLater.knows knowsValue⟩
      · exact knows tag inRest

/-- The tag set that the pairs resolve to. -/
def tagSet (n : Interner) (tags : List (String × String)) : TagSet :=
  ⟨(tags.map n.idsOf).insertionSort TagLe⟩

theorem tagSet_sorted (n : Interner) (tags : List (String × String)) : (n.tagSet tags).Sorted :=
  List.pairwise_insertionSort TagLe _

theorem mem_tagSet {n : Interner} {tags : List (String × String)} {ids : KeyId × KeyId} :
    ids ∈ (n.tagSet tags).tags ↔ ∃ tag ∈ tags, n.idsOf tag = ids := by
  simp [tagSet, List.mem_insertionSort]

section Lookups

variable {n : Interner} (ample : n.Ample) {tags : List (String × String)}
  (knows : ∀ tag ∈ tags, n.Knows tag.1 ∧ n.Knows tag.2)

include ample knows

/-- An id pair of a known key comes from a pair with that key. -/
theorem key_of_mem_tagSet {key : String} {value : KeyId} (known : n.Knows key)
    (member : (n.idOf key, value) ∈ (n.tagSet tags).tags) :
    ∃ v, (key, v) ∈ tags ∧ value = n.idOf v := by
  obtain ⟨⟨k, v⟩, inTags, ids⟩ := mem_tagSet.mp member
  have sameKey : n.idOf k = n.idOf key := congrArg Prod.fst ids
  -- two known strings with one id are one string while ids last
  have isKey : k = key := ample.idOf_inj (knows _ inTags).1 known sameKey
  exact ⟨v, isKey ▸ inTags, (congrArg Prod.snd ids).symm⟩

theorem tagSet_get_of_mem {key value : String} (member : (key, value) ∈ tags)
    (only : ∀ value', (key, value') ∈ tags → value' = value) :
    (n.tagSet tags).get (n.idOf key) = some (n.idOf value) := by
  apply (tagSet_sorted n tags).get_of_mem
  · exact mem_tagSet.mpr ⟨(key, value), member, rfl⟩
  · intro value' stored
    obtain ⟨v, inTags, same⟩ := key_of_mem_tagSet ample knows (knows _ member).1 stored
    rw [same, only v inTags]

theorem tagSet_get_of_absent {key : String} (known : n.Knows key)
    (absent : ∀ value, (key, value) ∉ tags) : (n.tagSet tags).get (n.idOf key) = none := by
  apply TagSet.get_eq_none
  intro value stored
  obtain ⟨v, inTags, -⟩ := key_of_mem_tagSet ample knows known stored
  exact absent v inTags

end Lookups

end Interner

namespace Registry

variable {H F : Type} {hdr : HdrHistogram H F}

/-- One operation on a registry. -/
inductive Operation (hdr : HdrHistogram H F) : Registry H → Registry H → Prop
  | lookupMetric (r : Registry H) (name : String) : Operation hdr r (r.lookupMetric name).1
  | register (r : Registry H) (name : String) (kind : MetricKind) :
      Operation hdr r (r.register name kind).1
  | resolveKey (r : Registry H) (key : String) : Operation hdr r (r.resolveKey key).1
  | resolveTags (r : Registry H) (tags : List (String × String)) :
      Operation hdr r (r.resolveTags tags).1
  | getHandle (r : Registry H) (metric : MetricId) (tags : TagSet) :
      Operation hdr r (r.getHandle hdr metric tags).1
  | update (r : Registry H) (handle : MetricHandle) (op : Cell H → Cell H) :
      Operation hdr r (r.update handle op)

/-- Any number of operations. -/
inductive Evolves (hdr : HdrHistogram H F) : Registry H → Registry H → Prop
  | refl (r : Registry H) : Evolves hdr r r
  | step {r r' r'' : Registry H} : Evolves hdr r r' → Operation hdr r' r'' → Evolves hdr r r''

theorem Evolves.of_operation {r r' : Registry H} (op : Operation hdr r r') : Evolves hdr r r' :=
  .step (.refl r) op

theorem Evolves.trans {r r' r'' : Registry H} (first : Evolves hdr r r')
    (second : Evolves hdr r' r'') : Evolves hdr r r'' := by
  induction second with
  | refl => exact first
  | step _ op ih => exact .step ih op

theorem Evolves.touch (r : Registry H) (metric : MetricId) (tags : TagSet)
    (op : Cell H → Cell H) : Evolves hdr r (r.touch hdr metric tags op) := by
  have got : Evolves hdr r (r.getHandle hdr metric tags).1 := .of_operation (.getHandle r metric tags)
  unfold Registry.touch
  split
  -- the series was found or created, then its cell is changed
  next handle isGot =>
    rw [isGot] at got
    exact .step got (.update _ handle op)
  next isGot =>
    rw [isGot] at got
    exact got

theorem register_interner (r : Registry H) (name : String) (kind : MetricKind) :
    (r.register name kind).1.interner = (r.interner.getOrIntern name).1 := by
  unfold register
  dsimp only
  split <;> rfl

/-- An operation interns strings and changes no id. -/
theorem Operation.interner {r r' : Registry H} (op : Operation hdr r r') :
    Interner.Extends r.interner r'.interner ∧ (r.interner.Wf → r'.interner.Wf) := by
  cases op with
  | lookupMetric name =>
    exact ⟨Interner.getOrIntern_extends _ name, fun wf => wf.getOrIntern name⟩
  | register name kind =>
    rw [register_interner]
    exact ⟨Interner.getOrIntern_extends _ name, fun wf => wf.getOrIntern name⟩
  | resolveKey key =>
    exact ⟨Interner.getOrIntern_extends _ key, fun wf => wf.getOrIntern key⟩
  | resolveTags tags =>
    exact ⟨Interner.internPairs_extends _ tags, fun wf => wf.internPairs tags⟩
  | getHandle metric tags =>
    rw [getHandle_interner]
    exact ⟨Interner.Extends.refl _, id⟩
  | update handle op => exact ⟨Interner.Extends.refl _, id⟩

theorem Evolves.interner {r r' : Registry H} (evolves : Evolves hdr r r') :
    Interner.Extends r.interner r'.interner ∧ (r.interner.Wf → r'.interner.Wf) := by
  induction evolves with
  | refl => exact ⟨Interner.Extends.refl _, id⟩
  | step _ op ih =>
    obtain ⟨ext, wf⟩ := op.interner
    exact ⟨ih.1.trans ext, fun start => wf (ih.2 start)⟩

/-- Tags resolved at some point, read off a later interner. -/
theorem resolveTags_spec {r : Registry H} {later : Interner} (tags : List (String × String))
    (ext : Interner.Extends (r.resolveTags tags).1.interner later) :
    (r.resolveTags tags).2 = later.tagSet tags ∧
      ∀ tag ∈ tags, later.Knows tag.1 ∧ later.Knows tag.2 := by
  obtain ⟨resolved, knows⟩ := Interner.internPairs_spec tags ext
  refine ⟨?_, knows⟩
  change TagSet.fromSortedIter _ = _
  rw [resolved]
  rfl

/-- A key resolved at some point, read off a later interner. -/
theorem resolveKey_spec {r : Registry H} {later : Interner} (key : String)
    (ext : Interner.Extends (r.resolveKey key).1.interner later) :
    (r.resolveKey key).2 = later.idOf key ∧ later.Knows key := by
  have known : (r.resolveKey key).1.interner.Knows key := Interner.knows_getOrIntern _ key
  refine ⟨?_, ext.knows known⟩
  rw [ext.idOf_eq known]
  exact Interner.getOrIntern_snd _ key

/-! ### Names of metrics -/

/-- A metric of this name has been registered. -/
def HasMetric (r : Registry H) (name : String) : Prop :=
  r.interner.Knows name ∧ ∃ d ∈ r.defs, d.name = r.interner.idOf name

/-- The definitions are named by ids of strings. -/
def Named (r : Registry H) : Prop :=
  ∀ d ∈ r.defs, ∃ s, r.interner.Knows s ∧ d.name = r.interner.idOf s

theorem Named.extends {r r' : Registry H} (named : r.Named) (defs : r'.defs = r.defs)
    (ext : Interner.Extends r.interner r'.interner) : r'.Named := by
  intro d member
  obtain ⟨s, known, isName⟩ := named d (defs ▸ member)
  exact ⟨s, ext.knows known, by rw [ext.idOf_eq known, isName]⟩

theorem getHandle_defs (r : Registry H) (metric : MetricId) (tags : TagSet) :
    (r.getHandle hdr metric tags).1.defs = r.defs := by
  unfold getHandle insertSeries
  dsimp only
  split
  · rfl
  · split
    · rfl
    · split <;> rfl

theorem Named.register {r : Registry H} (named : r.Named) (name : String) (kind : MetricKind) :
    (r.register name kind).1.Named := by
  have ext : Interner.Extends r.interner (r.interner.getOrIntern name).1 :=
    Interner.getOrIntern_extends _ name
  have kept : Named { r with interner := (r.interner.getOrIntern name).1 } := named.extends rfl ext
  unfold Registry.register
  dsimp only
  split
  · exact kept
  · intro d member
    rcases List.mem_append.mp member with old | new
    · exact kept d old
    -- the new definition has the id of the name
    · rw [List.mem_singleton.mp new]
      exact ⟨name, Interner.knows_getOrIntern _ name, Interner.getOrIntern_snd _ name⟩

theorem Evolves.named {r r' : Registry H} (evolves : Evolves hdr r r') (named : r.Named) :
    r'.Named := by
  induction evolves with
  | refl => exact named
  | step _ op ih =>
    have ext := op.interner.1
    cases op with
    | register name kind => exact ih.register name kind
    | getHandle metric tags => exact ih.extends (getHandle_defs _ metric tags) ext
    | _ => exact ih.extends rfl ext

theorem named_default : (default : Registry H).Named := nofun

theorem lookupMetric_isSome_iff (r : Registry H) (name : String) :
    (r.lookupMetric name).2.isSome ↔
      ∃ d ∈ r.defs, d.name = (r.lookupMetric name).1.interner.idOf name := by
  have id : (r.interner.getOrIntern name).2 = (r.lookupMetric name).1.interner.idOf name :=
    Interner.getOrIntern_snd _ name
  rw [← id]
  unfold lookupMetric
  dsimp only
  cases found : r.defs.findIdx? fun d => d.name = (r.interner.getOrIntern name).2 with
  | none =>
    rw [List.findIdx?_eq_none_iff] at found
    simpa using found
  | some i =>
    obtain ⟨low, isName, -⟩ := List.findIdx?_eq_some_iff_getElem.mp found
    simp only [decide_eq_true_eq] at isName
    simpa [low] using ⟨_, List.getElem_mem low, isName⟩

/-- A registry that is never short of ids finds the metrics that have been registered. -/
theorem lookupMetric_isSome_iff_hasMetric {r later : Registry H} (named : r.Named)
    (defs : later.defs = r.defs) (ext : Interner.Extends r.interner later.interner) (name : String)
    (ample : (later.lookupMetric name).1.interner.Ample) :
    (later.lookupMetric name).2.isSome ↔ r.HasMetric name := by
  have ext' : Interner.Extends r.interner (later.lookupMetric name).1.interner :=
    ext.trans (Interner.getOrIntern_extends _ name)
  rw [lookupMetric_isSome_iff, defs]
  constructor
  · rintro ⟨d, member, isName⟩
    obtain ⟨s, known, isString⟩ := named d member
    -- as ids are not reused, the definition is of this very string
    have same : s = name := by
      refine ample.idOf_inj (ext'.knows known) (Interner.knows_getOrIntern _ name) ?_
      rw [ext'.idOf_eq known, ← isString, isName]
    exact ⟨same ▸ known, d, member, same ▸ isString⟩
  · rintro ⟨known, d, member, isName⟩
    exact ⟨d, member, by rw [isName, ext'.idOf_eq known]⟩

end Registry

end Wrkr.Metrics
