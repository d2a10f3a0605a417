import Mathlib.Data.String.Basic
import Mathlib.Tactic.SplitIfs
import Wrkr.Lib.Fallible
import Wrkr.Lib.Text

/-!
# Threshold keys

A threshold is declared for a metric, or for the series of it that a selector matches:
`name{k=v,...}`. `parse_threshold_metric_key` ignores whitespace around its tokens and sorts
the selector, so many keys stand for one metric and selector; what it returns is always in one
form (`NormalKey`).
-/
namespace Wrkr.Core

open Wrkr.Lib

/-- The expressions that are checked for a metric; with tags, only for the series that match them. -/
structure ThresholdSet where
  metric : String
  tags : List (String × String)
  expressions : List String
  deriving DecidableEq, Repr

inductive ThresholdAgg
  | avg
  | min
  | max
  | count
  | rate
  | p (percent : UInt32)
  deriving DecidableEq, Repr

/-- Neither whitespace nor one of the characters that the syntax of selectors uses. -/
def isSimple (s : List Char) : Bool :=
  !s.any fun c => Text.isWhitespace c || c == '\x7b' || c == '\x7d' || c == ',' || c == '='

/-- One part of the selector of the key `raw`. -/
def parseSelectorPart (raw : String) (tags : List (String × String)) (part : List Char) :
    Except String (List (String × String)) :=
  let part := Text.trim part
  -- a trailing or doubled comma is ignored
  if part = [] then .ok tags
  else match Text.splitOnce '=' part with
  | none => .error ("invalid selector pair (expected k=v): " ++ raw)
  | some (kRaw, vRaw) =>
    let k := Text.trim kRaw
    let v := Text.trim vRaw
    if k = [] ∨ v = [] then .error ("invalid selector pair (empty key/value): " ++ raw)
    else if !isSimple k ∨ !isSimple v then
      .error ("invalid selector (unsupported characters in key/value): " ++ raw)
    else if tags.any (·.1 == String.ofList k) then
      .error ("invalid selector (duplicate tag key `" ++ String.ofList k ++ "`): " ++ raw)
    else .ok (tags ++ [(String.ofList k, String.ofList v)])

/-- The order of the tags: by key, then by value. -/
def tagCmp : String × String → String × String → Ordering :=
  compareLex (compareOn Prod.fst) (compareOn Prod.snd)

def tagLe (a b : String × String) : Bool := (tagCmp a b).isLE

/-- A name, and in braces the pairs; what is returned is sorted. -/
def parseThresholdMetricKey (raw : String) : Except String (String × List (String × String)) :=
  let chars := Text.trim raw.toList
  let raw := String.ofList chars
  if chars = [] then .error "empty metric key"
  else match Text.splitOnce '\x7b' chars with
  -- the whole key is the name, braces that close included
  | none => .ok (raw, [])
  | some (nameRaw, selectorWithBrace) =>
    let name := Text.trim nameRaw
    if name = [] then .error ("invalid metric key (missing metric name): " ++ raw)
    else match Text.stripSuffix '\x7d' selectorWithBrace with
    | none => .error ("invalid metric key (missing `\x7d`): " ++ raw)
    | some selector => do
      let tags ← (selector.splitOn ',').foldlM (parseSelectorPart raw) []
      if tags = [] then .error ("invalid metric key (empty selector): " ++ raw)
      else .ok (String.ofList name, tags.mergeSort tagLe)

/-! ### Keys in normal form -/

/-- A key or a value of a selector. -/
def SimpleToken (s : String) : Prop := s.toList ≠ [] ∧ isSimple s.toList = true

/-- What parsing a key returns. -/
structure NormalKey (metric : String) (tags : List (String × String)) : Prop where
  named : metric.toList ≠ []
  tight : Text.Tight metric.toList
  unbraced : '\x7b' ∉ metric.toList
  simple : ∀ tag ∈ tags, SimpleToken tag.1 ∧ SimpleToken tag.2
  distinct : (tags.map Prod.fst).Nodup
  sorted : tags.Pairwise fun a b => tagLe a b = true

/-- The selector as it is parsed, part after part. -/
def ParsedTags (tags : List (String × String)) : Prop :=
  (∀ tag ∈ tags, SimpleToken tag.1 ∧ SimpleToken tag.2) ∧ (tags.map Prod.fst).Nodup

theorem parsedTags_nil : ParsedTags [] := ⟨by simp, List.nodup_nil⟩

/-- A part keeps the pairs simple and distinct. -/
theorem parseSelectorPart_parsed {raw : String} {tags tags' : List (String × String)}
    {part : List Char} (parsed : ParsedTags tags)
    (ok : parseSelectorPart raw tags part = .ok tags') : ParsedTags tags' := by
  simp only [parseSelectorPart] at ok
  split_ifs at ok with blank
  · cases ok
    exact parsed
  · split at ok
    · cases ok
    · split_ifs at ok with empty complex present
      cases ok
      simp only [not_or, Bool.not_eq_true', Bool.not_eq_false] at empty complex
      constructor
      · intro tag member
        rcases List.mem_append.mp member with old | new
        · exact parsed.1 tag old
        · rw [List.mem_singleton.mp new]
          simpa [SimpleToken] using And.intro ⟨empty.1, complex.1⟩ ⟨empty.2, complex.2⟩
      -- the key was looked for among the tags read so far
      · rw [List.map_append, List.nodup_append]
        refine ⟨parsed.2, by simp, ?_⟩
        rintro key member _ new rfl
        rw [List.map_singleton, List.mem_singleton] at new
        obtain ⟨tag, old, rfl⟩ := List.mem_map.mp member
        exact present (List.any_eq_true.mpr ⟨tag, old, by simpa using new⟩)

instance : Std.TransCmp tagCmp := inferInstanceAs (Std.TransCmp (compareLex _ _))

theorem tagLe_trans (a b c : String × String) (ab : tagLe a b = true) (bc : tagLe b c = true) :
    tagLe a c = true :=
  Std.TransCmp.isLE_trans ab bc

theorem tagLe_total (a b : String × String) : (tagLe a b || tagLe b a) = true := by
  have swapped : tagCmp b a = (tagCmp a b).swap := Std.OrientedCmp.eq_swap
  rw [tagLe, tagLe, swapped]
  cases tagCmp a b <;> rfl

/-- Every key that parses is brought to normal form. -/
theorem normalKey_of_parse {raw metric : String} {tags : List (String × String)}
    (ok : parseThresholdMetricKey raw = .ok (metric, tags)) : NormalKey metric tags := by
  simp only [parseThresholdMetricKey] at ok
  split_ifs at ok with blank
  split at ok
  case h_1 plain =>
    cases ok
    have unbraced := Text.splitOnce_eq_none.mp plain
    refine ⟨?_, ?_, ?_, nofun, List.nodup_nil, List.Pairwise.nil⟩
    all_goals rw [String.toList_ofList]
    · exact blank
    · exact Text.tight_trim _
    · exact unbraced
  case h_2 nameRaw selectorWithBrace split =>
    split_ifs at ok with unnamed
    split at ok
    · cases ok
    · obtain ⟨parsed, loop, rest⟩ := Except.bind_eq_ok.mp ok
      split_ifs at rest with empty
      cases rest
      have parsedTags := foldlM_invariant (fun _ _ _ => parseSelectorPart_parsed) parsedTags_nil loop
      -- sorting keeps the tags, so it keeps what holds of each of them
      have perm := List.mergeSort_perm parsed tagLe
      refine ⟨?_, ?_, ?_, ?_, ?_, ?_⟩
      · rwa [String.toList_ofList]
      · rw [String.toList_ofList]
        exact Text.tight_trim _
      · rw [String.toList_ofList]
        exact fun member => Text.not_mem_of_splitOnce split (Text.mem_of_mem_trim member)
      · exact fun tag member => parsedTags.1 tag (perm.mem_iff.mp member)
      · exact (perm.map Prod.fst).nodup_iff.mpr parsedTags.2
      · exact List.pairwise_mergeSort tagLe_trans tagLe_total parsed

/-! ### The text of a key -/

/-- The text of a selector. -/
def selectorText (tags : List (String × String)) : List Char :=
  [','].intercalate (tags.map fun tag => tag.1.toList ++ '=' :: tag.2.toList)

theorem SimpleToken.solid {s : String} (simple : SimpleToken s) :
    ∀ c ∈ s.toList, Text.isWhitespace c = false := by
  intro c member
  have none := simple.2
  simp only [isSimple, Bool.not_eq_true', List.any_eq_false] at none
  have plain := none c member
  simp only [Bool.or_eq_true, not_or, Bool.not_eq_true] at plain
  exact plain.1.1.1.1

theorem SimpleToken.not_mem {s : String} (simple : SimpleToken s) :
    ',' ∉ s.toList ∧ '=' ∉ s.toList := by
  have none := simple.2
  simp only [isSimple, Bool.not_eq_true', List.any_eq_false] at none
  constructor <;> exact fun member => none _ member (by decide)

theorem tight_tagText {tag : String × String} (key : SimpleToken tag.1) (value : SimpleToken tag.2) :
    Text.Tight (tag.1.toList ++ '=' :: tag.2.toList) := by
  apply Text.tight_of_forall
  intro c member
  rcases List.mem_append.mp member with inKey | rest
  · exact key.solid c inKey
  · rcases List.mem_cons.mp rest with rfl | inValue
    · decide
    · exact value.solid c inValue

/-- The text of a pair is read as the pair. -/
theorem parseSelectorPart_text (raw : String) {tags : List (String × String)}
    {tag : String × String} (key : SimpleToken tag.1) (value : SimpleToken tag.2)
    (new : tag.1 ∉ tags.map Prod.fst) :
    parseSelectorPart raw tags (tag.1.toList ++ '=' :: tag.2.toList) = .ok (tags ++ [tag]) := by
  have trimmed := Text.trim_of_tight (tight_tagText key value)
  have split := Text.splitOnce_append key.not_mem.2 tag.2.toList
  have left := Text.trim_of_tight (Text.tight_of_forall key.solid)
  have right := Text.trim_of_tight (Text.tight_of_forall value.solid)
  have absent : tags.any (·.1 == tag.1) = false := by
    rw [List.any_eq_false]
    intro old member same
    exact new (List.mem_map.mpr ⟨old, member, by simpa using same⟩)
  simp [parseSelectorPart, trimmed, split, left, right, key.1, key.2, value.1, value.2, absent]

/-- And so are all of them, one after the other. -/
theorem foldlM_parseSelectorPart_text (raw : String) {tags : List (String × String)}
    (done : List (String × String))
    (simple : ∀ tag ∈ tags, SimpleToken tag.1 ∧ SimpleToken tag.2)
    (distinct : ((done ++ tags).map Prod.fst).Nodup) :
    (tags.map fun tag => tag.1.toList ++ '=' :: tag.2.toList).foldlM (parseSelectorPart raw) done =
      .ok (done ++ tags) := by
  induction tags generalizing done with
  | nil => simp [pure, Except.pure]
  | cons tag tags ih =>
    obtain ⟨key, value⟩ := simple tag List.mem_cons_self
    -- a key that comes again would be refused as a duplicate
    have new : tag.1 ∉ done.map Prod.fst := by
      rw [List.map_append, List.nodup_append] at distinct
      exact fun member => distinct.2.2 _ member tag.1 (by simp) rfl
    rw [List.map_cons, List.foldlM_cons, parseSelectorPart_text raw key value new]
    have rest := ih (done ++ [tag]) (fun t member => simple t (List.mem_cons_of_mem _ member))
      (by simpa using distinct)
    simpa [bind, Except.bind] using rest

/-- Simple tokens have no comma, so the text of a selector is cut where the pairs end. -/
theorem splitOn_selectorText {tags : List (String × String)} (some : tags ≠ [])
    (simple : ∀ tag ∈ tags, SimpleToken tag.1 ∧ SimpleToken tag.2) :
    (selectorText tags).splitOn ',' = tags.map fun tag => tag.1.toList ++ '=' :: tag.2.toList := by
  apply List.splitOn_intercalate
  · intro part member
    obtain ⟨tag, isTag, rfl⟩ := List.mem_map.mp member
    obtain ⟨key, value⟩ := simple tag isTag
    simp [key.not_mem.1, value.not_mem.1]
  · simpa using some

/-- A metric in normal form is a key. -/
theorem parse_metric {metric : String} (normal : NormalKey metric []) :
    parseThresholdMetricKey metric = .ok (metric, []) := by
  have trimmed := Text.trim_of_tight normal.tight
  have plain := Text.splitOnce_eq_none.mpr normal.unbraced
  simp [parseThresholdMetricKey, trimmed, normal.named, plain]

/-- The text of a key in normal form parses to the key. -/
theorem parse_keyText {metric : String} {tags : List (String × String)}
    (normal : NormalKey metric tags) (some : tags ≠ []) :
    parseThresholdMetricKey
      (String.ofList (metric.toList ++ '\x7b' :: (selectorText tags ++ ['\x7d']))) =
      .ok (metric, tags) := by
  -- the key ends in the brace, so trimming stops there
  have braces : Text.Tight ('\x7b' :: (selectorText tags ++ ['\x7d'])) := by
    constructor
    · rintro c ⟨⟩
      decide
    · rw [← List.cons_append, List.getLast?_concat]
      rintro c ⟨⟩
      decide
  have trimmed := Text.trim_of_tight (Text.tight_append normal.tight braces normal.named (by simp))
  have split := Text.splitOnce_append normal.unbraced (selectorText tags ++ ['\x7d'])
  have name := Text.trim_of_tight normal.tight
  -- the tags are sorted already, and sorting leaves them
  have sorted := List.mergeSort_of_pairwise normal.sorted
  have loop (raw : String) := foldlM_parseSelectorPart_text raw [] normal.simple normal.distinct
  rw [List.nil_append, ← splitOn_selectorText some normal.simple] at loop
  simp [parseThresholdMetricKey, trimmed, split, name, normal.named, loop, sorted, some, bind,
    Except.bind]

end Wrkr.Core
