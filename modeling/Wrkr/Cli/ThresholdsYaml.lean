import Wrkr.Cli.ScenarioYaml
import Wrkr.Core.KeyText
import Wrkr.Lua.Options

/-!
# Exported thresholds

The export writes the thresholds as a map from rendered keys. Each key parses to the metric and
the selector that it was rendered from, but two sets with one metric and selector share a key, and
the later one replaces the other. So an export keeps all thresholds exactly if no two sets of the
script are about the same series (`exported_thresholds_survive_iff`).
-/
namespace Wrkr.Cli

open Wrkr.Core Wrkr.Lib Wrkr.Lua

theorem renderMetricKey_of_tags {metric : String} {tags : List (String × String)}
    (some : tags ≠ []) : renderMetricKey metric tags =
      String.ofList (metric.toList ++ '\x7b' :: (selectorText tags ++ ['\x7d'])) := by
  rw [renderMetricKey, if_neg some, ← String.toList_inj]
  simp [selectorText, String.toList_intercalate, Function.comp_def]

/-- A rendered key parses to what it was rendered from. -/
theorem parse_renderMetricKey {metric : String} {tags : List (String × String)}
    (normal : NormalKey metric tags) :
    parseThresholdMetricKey (renderMetricKey metric tags) = .ok (metric, tags) := by
  by_cases none : tags = []
  · subst none
    exact parse_metric normal
  · rw [renderMetricKey_of_tags none]
    exact parse_keyText normal none

/-- The result of parsing a key is in normal form and is rendered to a key that parses to it, and
all spellings of the key parse to it. -/
theorem metricKey_canonical {s metric : String} {tags : List (String × String)}
    (ok : parseThresholdMetricKey s = .ok (metric, tags)) :
    (NormalKey metric tags ∧ (tags.map Prod.fst).Pairwise (· < ·)) ∧
      parseThresholdMetricKey (renderMetricKey metric tags) = .ok (metric, tags) ∧
      (∃ key : KeyText, Text.Spaced key.tokens s.toList) ∧
      ∀ (key key' : KeyText) (s' : String), Text.Spaced key.tokens s.toList → key'.Rearranges key →
        Text.Spaced key'.tokens s'.toList → parseThresholdMetricKey s' = .ok (metric, tags) := by
  have normal := normalKey_of_parse ok
  refine ⟨⟨normal, normal.increasing⟩, parse_renderMetricKey normal, exists_keyText ok, ?_⟩
  intro key key' s' spaced same spaced'
  exact (parse_spaced spaced').mpr (((parse_spaced spaced).mp ok).rearrange same)

/-- The key `rps{a=1,b=2}`. -/
def sortedKey : KeyText where
  name := ['r', 'p', 's']
  selector := some
    { parts := [some ("a", "1"), some ("b", "2")]
      parted := List.cons_ne_nil _ _
      simple := by simp [SimpleToken]; decide }
  named := List.cons_ne_nil _ _
  tight := Text.tight_of_forall (by simp [Text.isWhitespace])
  unbraced := by decide

/-- The same key with its pairs the other way and an empty part. -/
def swappedKey : KeyText where
  name := ['r', 'p', 's']
  selector := some
    { parts := [some ("b", "2"), some ("a", "1"), none]
      parted := List.cons_ne_nil _ _
      simple := by simp [SimpleToken]; decide }
  named := List.cons_ne_nil _ _
  tight := Text.tight_of_forall (by simp [Text.isWhitespace])
  unbraced := by decide

theorem spaced_sortedKey : Text.Spaced sortedKey.tokens "rps{a=1,b=2}".toList := by
  let padded : List (List Char × List Char) :=
    [([], ['r', 'p', 's']), ([], ['\x7b']), ([], ['a']), ([], ['=']), ([], ['1']), ([], [',']),
      ([], ['b']), ([], ['=']), ([], ['2']), ([], ['\x7d'])]
  have tokens : sortedKey.tokens = padded.map Prod.snd := by decide
  have text : "rps{a=1,b=2}".toList = (padded.flatMap fun p => p.1 ++ p.2) ++ [] := by decide
  rw [tokens, text]
  exact .of_padded (by decide) (by decide)

theorem spaced_swappedKey : Text.Spaced swappedKey.tokens "rps {b=2, a = 1,} ".toList := by
  let padded : List (List Char × List Char) :=
    [([], ['r', 'p', 's']), ([' '], ['\x7b']), ([], ['b']), ([], ['=']), ([], ['2']), ([], [',']),
      ([' '], ['a']), ([' '], ['=']), ([' '], ['1']), ([], [',']), ([], ['\x7d'])]
  have tokens : swappedKey.tokens = padded.map Prod.snd := by decide
  have text : "rps {b=2, a = 1,} ".toList = (padded.flatMap fun p => p.1 ++ p.2) ++ [' '] := by
    decide
  rw [tokens, text]
  exact .of_padded (by decide) (by decide)

theorem metricKey_canonical_swapped :
    parseThresholdMetricKey "rps {b=2, a = 1,} " = .ok ("rps", [("a", "1"), ("b", "2")]) := by
  have means : sortedKey.Means "rps" [("a", "1"), ("b", "2")] :=
    ⟨by decide, by decide, by decide, List.mergeSort_of_pairwise (by decide)⟩
  exact (metricKey_canonical ((parse_spaced spaced_sortedKey).mpr means)).2.2.2 sortedKey swappedKey
    _ spaced_sortedKey ⟨rfl, rfl, List.Perm.swap ..⟩ spaced_swappedKey

theorem expressions_renderExpressions (expressions : List String) :
    (renderExpressions expressions).expressions = expressions :=
  match expressions with
  | [] | [_] | _ :: _ :: _ => rfl

/-- The entry of the map for a set. -/
def rendered (s : ThresholdSet) : String × ThresholdExprYaml :=
  (renderMetricKey s.metric s.tags, renderExpressions s.expressions)

theorem parseThreshold_rendered {s : ThresholdSet} (declared : Declared s) :
    parseThreshold (rendered s) = .ok s := by
  rw [rendered, parseThreshold, parse_renderMetricKey declared.1]
  simp [expressions_renderExpressions, declared.2]

theorem filterMap_rendered {sets : List ThresholdSet} (declared : ∀ s ∈ sets, Declared s) :
    (sets.map rendered).filterMap (fun e => (parseThreshold e).toOption) = sets := by
  induction sets with
  | nil => rfl
  | cons s sets ih =>
    have rest := ih fun s' member => declared s' (List.mem_cons_of_mem _ member)
    rw [List.map_cons, List.filterMap_cons, parseThreshold_rendered (declared s List.mem_cons_self),
      rest]
    rfl

theorem exists_eq_map_rendered {sets : List ThresholdSet} {entries : List (String × ThresholdExprYaml)}
    (sources : ∀ e ∈ entries, e ∈ sets.map rendered) :
    ∃ sets' : List ThresholdSet, entries = sets'.map rendered ∧ ∀ s ∈ sets', s ∈ sets := by
  induction entries with
  | nil => exact ⟨[], rfl, by simp⟩
  -- each entry of the map was rendered from some set
  | cons e entries ih =>
    obtain ⟨s, isSet, rfl⟩ := List.mem_map.mp (sources _ List.mem_cons_self)
    obtain ⟨sets', rfl, subset⟩ := ih fun e' member => sources e' (List.mem_cons_of_mem _ member)
    refine ⟨s :: sets', rfl, ?_⟩
    simpa [isSet] using subset

/-- The sets are about different series. -/
def DistinctSeries (sets : List ThresholdSet) : Prop :=
  (sets.map fun s => (s.metric, s.tags)).Nodup

instance (sets : List ThresholdSet) : Decidable (DistinctSeries sets) :=
  inferInstanceAs (Decidable (List.Nodup _))

/-- Two declared sets have one key exactly if they are about one series. -/
theorem nodup_rendered {sets : List ThresholdSet} (declared : ∀ s ∈ sets, Declared s) :
    ((sets.map rendered).map Prod.fst).Nodup ↔ DistinctSeries sets := by
  have keys : (sets.map rendered).map Prod.fst =
      (sets.map fun s => (s.metric, s.tags)).map fun k => renderMetricKey k.1 k.2 := by
    simp [rendered, Function.comp_def]
  rw [keys]
  constructor
  · exact List.Nodup.of_map _
  · intro distinct
    refine distinct.map_on ?_
    intro k member k' member' same
    obtain ⟨s, isSet, rfl⟩ := List.mem_map.mp member
    obtain ⟨s', isSet', rfl⟩ := List.mem_map.mp member'
    -- equal texts parse to equal keys
    have parsed := parse_renderMetricKey (declared s isSet).1
    rw [same, parse_renderMetricKey (declared s' isSet').1] at parsed
    exact (Except.ok.inj parsed).symm

/-- The thresholds of a script are read back from their export, all of them exactly if no two are
about the same series. -/
theorem exported_thresholds_survive_iff {toStringLossy : List UInt8 → String}
    {thresholds : Option Lua.Value} {sets : List ThresholdSet}
    (produced : getThresholds toStringLossy thresholds = .ok sets) :
    ∃ sets', parseThresholdsMap (renderThresholds sets) = .ok sets' ∧
      (sets'.Perm sets ↔ DistinctSeries sets) := by
  have declared := getThresholds_declared produced
  -- the map holds entries of sets of the script, perhaps not of all
  obtain ⟨sets', entries, subset⟩ := exists_eq_map_rendered
    fun e (member : e ∈ (renderThresholds sets).toList) => mem_of_mem_collect member
  have declared' : ∀ s ∈ sets', Declared s := fun s member => declared s (subset s member)
  refine ⟨sets', ?_, ?_, ?_⟩
  · rw [parseThresholdsMap, entries, mapM_eq_ok, List.forall₂_map_left_iff, List.forall₂_same]
    exact fun s member => parseThreshold_rendered (declared' s member)
  -- the keys of a map are distinct
  · intro perm
    rw [← nodup_rendered declared, ← ((perm.map rendered).map Prod.fst).nodup_iff, ← entries]
    exact nodup_keys_toList _
  · intro distinct
    -- no entry was replaced, so the map has them all in another order
    have perm := toList_collect_perm ((nodup_rendered declared).mpr distinct)
    have parsed := perm.filterMap fun e => (parseThreshold e).toOption
    rwa [filterMap_rendered declared, show (collect (sets.map rendered)).toList = _ from entries,
      filterMap_rendered declared'] at parsed

/-- `to_string_lossy` of ASCII text. -/
def asciiLossy (bytes : List UInt8) : String :=
  String.ofList (bytes.map fun b => Char.ofNat b.toNat)

/-- The table with `count>1` for the key `m` and `count<9` for `key`. -/
def twoThresholds (key : List UInt8) : Lua.Value :=
  .table [(.string [109], .string [99, 111, 117, 110, 116, 62, 49]),
    (.string key, .string [99, 111, 117, 110, 116, 60, 57])]

theorem exported_thresholds_survive_two :
    ∃ sets', parseThresholdsMap
        (renderThresholds [⟨"m", [], ["count>1"]⟩, ⟨"n", [], ["count<9"]⟩]) = .ok sets' ∧
      sets'.Perm [⟨"m", [], ["count>1"]⟩, ⟨"n", [], ["count<9"]⟩] := by
  have produced : getThresholds asciiLossy (some (twoThresholds [110])) =
      .ok [⟨"m", [], ["count>1"]⟩, ⟨"n", [], ["count<9"]⟩] := by
    decide +kernel
  obtain ⟨sets', parsed, all⟩ := exported_thresholds_survive_iff produced
  exact ⟨sets', parsed, all.mpr (by decide)⟩

/-- The keys `m` and ` m ` are two keys of the script and one of the export: the first threshold
is lost. -/
theorem exported_threshold_lost :
    ∃ sets sets', getThresholds asciiLossy (some (twoThresholds [32, 109, 32])) = .ok sets ∧
      parseThresholdsMap (renderThresholds sets) = .ok sets' ∧
      sets.map ThresholdSet.expressions = [["count>1"], ["count<9"]] ∧
      sets'.map ThresholdSet.expressions = [["count<9"]] ∧ ¬sets'.Perm sets := by
  refine ⟨[⟨"m", [], ["count>1"]⟩, ⟨"m", [], ["count<9"]⟩], [⟨"m", [], ["count<9"]⟩],
    by decide +kernel, by decide +kernel, rfl, rfl, fun perm => ?_⟩
  exact absurd perm.length_eq (by decide)

end Wrkr.Cli
