import Mathlib.Data.List.Nodup
import Mathlib.Order.Compare
import Wrkr.Core.Thresholds
import Wrkr.Lib.Tokens

/-!
# The spellings of a threshold key

A metric and a selector can be written in many ways: with whitespace around the tokens, with empty
parts, with the pairs in any order. A `KeyText` is a key as it is written, up to whitespace. What
parsing returns depends only on the name and on the pairs as a multiset (`parse_spaced`), and
everything that parses is the text of such a key (`exists_keyText`).
-/
namespace Wrkr.Core

open Wrkr.Lib Wrkr.Lib.Text

/-- A selector as it is written. A part may be empty. -/
structure SelectorText where
  parts : List (Option (String × String))
  parted : parts ≠ []
  simple : ∀ pair, some pair ∈ parts → SimpleToken pair.1 ∧ SimpleToken pair.2

/-- A key as it is written. -/
structure KeyText where
  name : List Char
  selector : Option SelectorText
  named : name ≠ []
  tight : Tight name
  unbraced : '\x7b' ∉ name

/-- A part between two commas: nothing, or a pair with its `=`. -/
def partTokens : Option (String × String) → List (List Char)
  | none => []
  | some (k, v) => [k.toList, ['='], v.toList]

namespace KeyText

/-- The tokens of the key in order; whitespace is allowed around each of them. -/
def tokens (key : KeyText) : List (List Char) :=
  match key.selector with
  | none => [key.name]
  | some selector =>
    key.name :: ['\x7b'] :: [[',']].intercalate (selector.parts.map partTokens) ++ [['\x7d']]

/-- The pairs of the selector, without the empty parts. -/
def pairs (key : KeyText) : List (String × String) :=
  match key.selector with
  | none => []
  | some selector => selector.parts.reduceOption

/-- The key has a result: it has a pair if it has a selector, and no key of a pair comes twice. -/
structure Means (key : KeyText) (metric : String) (tags : List (String × String)) : Prop where
  name : String.ofList key.name = metric
  distinct : (key.pairs.map Prod.fst).Nodup
  some : key.selector.isSome → key.pairs ≠ []
  sorted : key.pairs.mergeSort tagLe = tags

/-- Another spelling with the same pairs in any order. -/
structure Rearranges (key' key : KeyText) : Prop where
  name : key'.name = key.name
  selector : key'.selector.isSome = key.selector.isSome
  pairs : key'.pairs.Perm key.pairs

end KeyText

/-! ### Parts of a selector -/

/-- A pair with whitespace around its tokens splits into them. -/
theorem split_spaced {k v : String} (key : SimpleToken k) (value : SimpleToken v) {text : List Char}
    (spaced : Spaced (partTokens (some (k, v))) text) :
    ∃ kRaw vRaw, Text.trim text = kRaw ++ '=' :: vRaw ∧ '=' ∉ kRaw ∧
      Text.trim kRaw = k.toList ∧ Text.trim vRaw = v.toList := by
  -- the ends of the text are those of the key and the value, so trimming it leaves them
  have left := tight_of_forall key.solid
  have right := tight_of_forall value.solid
  obtain ⟨inner, isInner, trimmed⟩ :
      ∃ inner, Spaced [['=']] inner ∧ Text.trim text = k.toList ++ inner ++ v.toList :=
    Spaced.trim_ends left right key.1 value.1 spaced
  cases isInner with
  | @cons w _ w' _ blank ending =>
  cases ending with
  | nil blank' =>
  refine ⟨k.toList ++ w, w' ++ v.toList, by simpa using trimmed, ?_, ?_, ?_⟩
  · simp [key.not_mem.2, blank.not_mem (c := '=') rfl]
  · exact Spaced.trim_singleton left (by simpa using (Spaced.token k.toList).append (.nil blank))
  · exact Spaced.trim_singleton right ((Spaced.token v.toList).pad blank')

/-- A part adds its pair, unless the key is there already. -/
theorem parseSelectorPart_spaced (raw : String) (tags tags' : List (String × String))
    {part : Option (String × String)} {text : List Char}
    (simple : ∀ pair, part = some pair → SimpleToken pair.1 ∧ SimpleToken pair.2)
    (spaced : Spaced (partTokens part) text) :
    parseSelectorPart raw tags text = .ok tags' ↔
      (∀ pair ∈ part, pair.1 ∉ tags.map Prod.fst) ∧ tags ++ part.toList = tags' := by
  cases part with
  | none =>
    have empty : Text.trim text = [] := Spaced.trim_nil spaced
    simp [parseSelectorPart, empty]
  | some pair =>
    obtain ⟨k, v⟩ := pair
    obtain ⟨key, value⟩ := simple _ rfl
    obtain ⟨kRaw, vRaw, trimmed, absent, isKey, isValue⟩ := split_spaced key value spaced
    have split := Text.splitOnce_append absent vRaw
    have present : tags.any (·.1 == k) = true ↔ k ∈ tags.map Prod.fst := by simp
    -- key and value are trimmed at the first `=`, so only the duplicate is left to be refused
    have read : parseSelectorPart raw tags text =
        if tags.any (·.1 == k) then
          .error ("invalid selector (duplicate tag key `" ++ k ++ "`): " ++ raw)
        else .ok (tags ++ [(k, v)]) := by
      have name : String.ofList (Text.trim kRaw) = k := by rw [isKey, String.ofList_toList]
      simp only [parseSelectorPart, trimmed, split, name]
      simp [isKey, isValue, key.1, key.2, value.1, value.2]
    rw [read]
    simp only [Option.mem_some_iff, forall_eq', Option.toList_some, ← present]
    split_ifs with old
    · simp only [old, not_true_eq_false, false_and]
    · simp only [Except.ok.injEq, old, Bool.false_eq_true, not_false_eq_true, true_and]

/-- The loop over the parts: all pairs, if no key comes twice. -/
theorem foldlM_spaced (raw : String) {parts : List (Option (String × String))}
    {texts : List (List Char)} {tags : List (String × String)} (tags' : List (String × String))
    (simple : ∀ pair, some pair ∈ parts → SimpleToken pair.1 ∧ SimpleToken pair.2)
    (spaced : List.Forall₂ Spaced (parts.map partTokens) texts)
    (distinct : (tags.map Prod.fst).Nodup) :
    texts.foldlM (parseSelectorPart raw) tags = .ok tags' ↔
      ((tags ++ parts.reduceOption).map Prod.fst).Nodup ∧ tags ++ parts.reduceOption = tags' := by
  induction parts generalizing texts tags with
  | nil =>
    cases spaced
    have none : ([] : List (Option (String × String))).reduceOption = [] := rfl
    simp [pure, Except.pure, distinct, none]
  | cons part parts ih =>
    obtain ⟨text, texts, isText, rest, rfl⟩ := List.forall₂_cons_left_iff.mp spaced
    have here (done : List (String × String)) := parseSelectorPart_spaced raw tags done
      (fun pair same => simple pair (by simp [same])) isText
    have later := fun pair member => simple pair (List.mem_cons_of_mem part member)
    -- an empty part adds nothing, a pair has to have a new key
    have new : ((tags ++ part.toList).map Prod.fst).Nodup ↔
        ∀ pair ∈ part, pair.1 ∉ tags.map Prod.fst := by
      cases part with
      | none => simp [distinct]
      | some pair =>
        rw [Option.toList_some, List.map_append, List.map_singleton, ← List.concat_eq_append,
          List.nodup_concat]
        simp [distinct]
    have pairs : (part :: parts).reduceOption = part.toList ++ parts.reduceOption := by
      cases part <;> rfl
    simp only [List.foldlM_cons, bind, Except.bind_eq_ok, here, ← new, pairs, ← List.append_assoc]
    constructor
    · rintro ⟨_, ⟨distinct', rfl⟩, loop⟩
      exact (ih later rest distinct').mp loop
    · rintro ⟨all, same⟩
      have distinct' : ((tags ++ part.toList).map Prod.fst).Nodup := by
        rw [List.map_append] at all
        exact all.of_append_left
      exact ⟨_, ⟨distinct', rfl⟩, (ih later rest distinct').mpr ⟨all, same⟩⟩

/-- What a part that is accepted consists of. -/
theorem exists_part {raw : String} {tags tags' : List (String × String)} {text : List Char}
    (ok : parseSelectorPart raw tags text = .ok tags') :
    ∃ part, (∀ pair, part = some pair → SimpleToken pair.1 ∧ SimpleToken pair.2) ∧
      Spaced (partTokens part) text := by
  simp only [parseSelectorPart] at ok
  split_ifs at ok with empty
  -- blank between two commas
  · refine ⟨none, by rintro _ ⟨⟩, Spaced.of_trim ?_⟩
    rw [empty]
    exact .nil (by simp [Blank])
  · split at ok
    · cases ok
    next kRaw vRaw split =>
      split_ifs at ok with missing complex present
      simp only [not_or, Bool.not_eq_true', Bool.not_eq_false] at missing complex
      refine ⟨some (String.ofList (Text.trim kRaw), String.ofList (Text.trim vRaw)), ?_, ?_⟩
      · rintro pair ⟨⟩
        simpa [SimpleToken] using And.intro ⟨missing.1, complex.1⟩ ⟨missing.2, complex.2⟩
      · apply Spaced.of_trim
        -- what was trimmed off on either side is whitespace around the tokens
        have key : Spaced [Text.trim kRaw] kRaw := .of_trim (.token _)
        have value : Spaced [Text.trim vRaw] vRaw := .of_trim (.token _)
        rw [Text.eq_of_splitOnce split]
        simpa [partTokens] using key.append ((Spaced.token ['=']).append value)

/-- Whatever the loop accepts is a list of parts with whitespace around their tokens. -/
theorem exists_parts {raw : String} {tags tags' : List (String × String)}
    {texts : List (List Char)} (ok : texts.foldlM (parseSelectorPart raw) tags = .ok tags') :
    ∃ parts : List (Option (String × String)),
      (∀ pair, some pair ∈ parts → SimpleToken pair.1 ∧ SimpleToken pair.2) ∧
        List.Forall₂ Spaced (parts.map partTokens) texts := by
  induction texts generalizing tags with
  | nil => exact ⟨[], by simp, .nil⟩
  | cons text texts ih =>
    simp only [List.foldlM_cons, bind, Except.bind_eq_ok] at ok
    obtain ⟨mid, first, rest⟩ := ok
    obtain ⟨part, simple, isText⟩ := exists_part first
    obtain ⟨parts, simples, areTexts⟩ := ih rest
    refine ⟨part :: parts, ?_, .cons isText areTexts⟩
    intro pair member
    rcases List.mem_cons.mp member with here | later
    · exact simple pair here.symm
    · exact simples pair later

/-! ### Keys -/

/-- The texts between the commas of a selector are those of its parts. -/
theorem splitOn_spaced {selector : SelectorText} {body : List Char}
    (spaced : Spaced ([[',']].intercalate (selector.parts.map partTokens)) body) :
    List.Forall₂ Spaced (selector.parts.map partTokens) (body.splitOn ',') := by
  have some : selector.parts.map partTokens ≠ [] := by simpa using selector.parted
  obtain ⟨texts, rfl, spacedTexts⟩ := (Spaced.intercalate_iff some).mp spaced
  rw [List.splitOn_intercalate]
  · exact spacedTexts
  -- no token contains a comma
  · refine Spaced.not_mem_texts rfl ?_ spacedTexts
    intro tokens member
    obtain ⟨part, isPart, rfl⟩ := List.mem_map.mp member
    cases part with
    | none => simp [partTokens]
    | some pair =>
      obtain ⟨key, value⟩ := selector.simple pair isPart
      simp [partTokens, key.not_mem.1, value.not_mem.1]
  · rintro rfl
    exact some (List.forall₂_nil_right_iff.mp spacedTexts)

/-- A key as it is written, with any whitespace around its tokens, means what it parses to. -/
theorem parse_spaced {key : KeyText} {s metric : String} {tags : List (String × String)}
    (spaced : Spaced key.tokens s.toList) :
    parseThresholdMetricKey s = .ok (metric, tags) ↔ key.Means metric tags := by
  obtain ⟨name, selector, named, tight, unbraced⟩ := key
  cases selector with
  -- without a brace the key is the name
  | none =>
    have trimmed : Text.trim s.toList = name := Spaced.trim_singleton tight spaced
    have plain := Text.splitOnce_eq_none.mpr unbraced
    simp only [parseThresholdMetricKey, trimmed, named, if_false, plain, Except.ok.injEq,
      Prod.mk.injEq]
    constructor
    · rintro ⟨isName, rfl⟩
      exact ⟨isName, List.nodup_nil, by rintro ⟨⟩, List.mergeSort_nil⟩
    · rintro ⟨isName, -, -, sorted⟩
      exact ⟨isName, List.mergeSort_nil.symm.trans sorted⟩
  | some selector =>
    have brace : Tight ['}'] := tight_of_forall (List.forall_mem_singleton.mpr rfl)
    obtain ⟨inner, isInner, trimmed⟩ := Spaced.trim_ends tight brace named (by simp) spaced
    cases isInner with
    | @cons w _ body _ blank isBody =>
    have split : Text.splitOnce '{' (name ++ w ++ '{' :: (body ++ ['}'])) =
        some (name ++ w, body ++ ['}']) :=
      Text.splitOnce_append (by simp [unbraced, blank.not_mem (c := '{') rfl]) _
    have isName : Text.trim (name ++ w) = name :=
      Spaced.trim_singleton tight (by simpa using (Spaced.token name).append (.nil blank))
    have nonempty : Text.trim s.toList ≠ [] := by simp [trimmed]
    have same : Text.trim s.toList = name ++ w ++ '{' :: (body ++ ['}']) := by
      simp [trimmed]
    -- the loop over the parts between the commas
    have loop (raw : String) (out : List (String × String)) :
        (body.splitOn ',').foldlM (parseSelectorPart raw) [] = .ok out ↔ _ :=
      foldlM_spaced raw out selector.simple (splitOn_spaced isBody) List.nodup_nil
    simp only [parseThresholdMetricKey, nonempty, if_false]
    simp only [same, split, isName, named, if_false, Text.stripSuffix_concat, bind,
      Except.bind_eq_ok, loop, List.nil_append]
    constructor
    · rintro ⟨_, ⟨distinct, rfl⟩, rest⟩
      split_ifs at rest with empty
      cases rest
      exact ⟨rfl, distinct, fun _ => empty, rfl⟩
    · rintro ⟨rfl, distinct, some, rfl⟩
      have nonblank : selector.parts.reduceOption ≠ [] := some rfl
      exact ⟨_, ⟨distinct, rfl⟩, if_neg nonblank⟩

/-- Everything that parses is a key as it is written. -/
theorem exists_keyText {s metric : String} {tags : List (String × String)}
    (ok : parseThresholdMetricKey s = .ok (metric, tags)) :
    ∃ key : KeyText, Spaced key.tokens s.toList := by
  simp only [parseThresholdMetricKey] at ok
  split_ifs at ok with blank
  split at ok
  case h_1 plain =>
    exact ⟨⟨_, none, blank, tight_trim _, Text.splitOnce_eq_none.mp plain⟩, .of_trim (.token _)⟩
  case h_2 nameRaw selectorWithBrace split =>
    split_ifs at ok with unnamed
    split at ok
    · cases ok
    next selector strip =>
      obtain ⟨parsed, loop, -⟩ := Except.bind_eq_ok.mp ok
      obtain ⟨parts, simple, spaced⟩ := exists_parts loop
      have parted : parts ≠ [] := by
        rintro rfl
        exact List.splitOn_ne_nil ',' selector (List.forall₂_nil_left_iff.mp spaced)
      -- the text is split at its first brace
      have unbraced : '{' ∉ Text.trim nameRaw :=
        fun member => Text.not_mem_of_splitOnce split (Text.mem_of_mem_trim member)
      refine ⟨⟨Text.trim nameRaw, some ⟨parts, parted, simple⟩, unnamed, tight_trim _, unbraced⟩, ?_⟩
      have name : Spaced [Text.trim nameRaw] nameRaw := .of_trim (.token _)
      have body : Spaced ([[',']].intercalate (parts.map partTokens)) selector :=
        (Spaced.intercalate_iff (by simpa using parted)).mpr
          ⟨_, (List.intercalate_splitOn ',').symm, spaced⟩
      apply Spaced.of_trim
      rw [Text.eq_of_splitOnce split, Text.eq_of_stripSuffix strip]
      have braces := ((Spaced.token ['{']).append body).append (Spaced.token ['}'])
      simpa [KeyText.tokens] using name.append braces

/-! ### One result for all spellings -/

theorem tagCmp_eq (a b : String × String) :
    tagCmp a b = (compare a.1 b.1).then (compare a.2 b.2) := rfl

theorem fst_le_of_tagLe {a b : String × String} (le : tagLe a b = true) : a.1 ≤ b.1 := by
  rw [tagLe, tagCmp_eq] at le
  by_contra above
  rw [compare_gt_iff_gt.mpr (not_le.mp above)] at le
  cases le

theorem tagLe_antisymm {a b : String × String} (ab : tagLe a b = true) (ba : tagLe b a = true) :
    a = b := by
  have same : tagCmp a b = .eq := Std.OrientedCmp.isLE_antisymm ab ba
  rw [tagCmp_eq, Ordering.then_eq_eq, compare_eq_iff_eq, compare_eq_iff_eq] at same
  exact Prod.ext same.1 same.2

/-- The pairs are sorted in the end, so their order in the text does not matter. -/
theorem KeyText.Means.rearrange {key key' : KeyText} {metric : String}
    {tags : List (String × String)} (means : key.Means metric tags) (same : key'.Rearranges key) :
    key'.Means metric tags := by
  refine ⟨same.name ▸ means.name, ?_, ?_, ?_⟩
  · exact (same.pairs.map Prod.fst).nodup_iff.mpr means.distinct
  · intro selected empty
    have pairs := same.pairs
    rw [empty] at pairs
    exact means.some (same.selector ▸ selected) pairs.nil_eq.symm
  -- two sorted lists of the same pairs
  · have perm : (key'.pairs.mergeSort tagLe).Perm (key.pairs.mergeSort tagLe) :=
      (List.mergeSort_perm _ _).trans (same.pairs.trans (List.mergeSort_perm _ _).symm)
    rw [← means.sorted]
    exact perm.eq_of_pairwise (fun _ _ _ _ => tagLe_antisymm)
      (List.pairwise_mergeSort tagLe_trans tagLe_total _)
      (List.pairwise_mergeSort tagLe_trans tagLe_total _)

/-- The tags of a key are in the strict order of their keys. -/
theorem NormalKey.increasing {metric : String} {tags : List (String × String)}
    (normal : NormalKey metric tags) : (tags.map Prod.fst).Pairwise (· < ·) := by
  have distinct := List.pairwise_map.mp normal.distinct
  rw [List.pairwise_map]
  exact (normal.sorted.and distinct).imp fun both => lt_of_le_of_ne (fst_le_of_tagLe both.1) both.2

end Wrkr.Core
