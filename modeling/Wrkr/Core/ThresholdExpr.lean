import Wrkr.Core.Thresholds
import Wrkr.Lib.Ieee

/-!
# Threshold expressions

`parse_threshold_expr` drops all whitespace and looks for the operators one after the other,
wherever they stand: the longer ones first, so that `<` is not found in `<=`. What it accepts is
the grammar `aggregation operator value` and nothing else (`parseThresholdExpr_grammar`): neither
an aggregation nor a number has a character of an operator, so there is one place to split at.
-/
namespace Wrkr.Core

open Wrkr.Lib

inductive ThresholdOp
  | lt
  | lte
  | gt
  | gte
  | eq
  deriving DecidableEq, Repr

/-- A parsed expression; the value is the bits of an `f64`. -/
structure ThresholdExpr where
  agg : ThresholdAgg
  op : ThresholdOp
  value : UInt64
  deriving DecidableEq, Repr

/-- The operators in the order in which they are looked for. -/
def thresholdOps : List (List Char × ThresholdOp) :=
  [(['<', '='], .lte), (['>', '='], .gte), (['=', '='], .eq), (['<'], .lt), (['>'], .gt)]

/-- The position, length and kind of the operator. -/
def findOp (s : List Char) : Option (Nat × Nat × ThresholdOp) :=
  thresholdOps.findSome? fun (tok, op) => (Text.find tok s).map fun pos => (pos, tok.length, op)

/-- The words in any case, else a percentile in brackets. -/
def parseAgg (raw : String) (left : List Char) : Except String ThresholdAgg :=
  if Text.eqIgnoreAsciiCase left ['a', 'v', 'g'] then .ok .avg
  else if Text.eqIgnoreAsciiCase left ['m', 'i', 'n'] then .ok .min
  else if Text.eqIgnoreAsciiCase left ['m', 'a', 'x'] then .ok .max
  else if Text.eqIgnoreAsciiCase left ['c', 'o', 'u', 'n', 't'] then .ok .count
  else if Text.eqIgnoreAsciiCase left ['r', 'a', 't', 'e'] then .ok .rate
  else match (['p', '('].isPrefixOf? left).bind (Text.stripSuffix ')') with
  | some inner =>
    match Text.parseU32 inner with
    | none => .error ("invalid percentile in threshold: " ++ raw)
    | some p =>
      -- any percentile is accepted here; whether it is evaluated is another matter
      if 1 ≤ p ∧ p ≤ 100 then .ok (.p p)
      else .error ("percentile out of range in threshold: " ++ raw)
  | none =>
    .error ("unknown aggregation `" ++ String.ofList left ++ "` in threshold: " ++ raw)

/-- An expression without its whitespace. -/
def solidText (raw : String) : List Char := raw.toList.filter fun c => !Text.isWhitespace c

section Parse

-- `f64::from_str`, to the bits of the number
variable (parseF64 : List Char → Option UInt64)

/-- Whitespace is removed, then the text is split at its first operator. -/
def parseThresholdExpr (raw : String) : Except String ThresholdExpr :=
  let s := solidText raw
  if s = [] then .error "empty threshold"
  else match findOp s with
  | none => .error ("invalid threshold (missing operator): " ++ raw)
  | some (opPos, opLen, op) =>
    let left := s.take opPos
    let right := (s.drop opPos).drop opLen
    if left = [] ∨ right = [] then .error ("invalid threshold: " ++ raw)
    else do
      let agg ← parseAgg raw left
      match parseF64 right with
      | none => .error ("invalid numeric value in threshold: " ++ raw)
      | some value => .ok ⟨agg, op, value⟩

/-! ### The grammar -/

/-- No character of an operator. -/
def Plain (s : List Char) : Prop := '<' ∉ s ∧ '>' ∉ s ∧ '=' ∉ s

/-- What is relied on of `f64::from_str`: an empty text is no number, nor is one with a character
of an operator. -/
structure LawfulF64 : Prop where
  nonempty : parseF64 [] = none
  plain : ∀ {s value}, parseF64 s = some value → Plain s

def ThresholdOp.text : ThresholdOp → List Char
  | .lt => ['<']
  | .lte => ['<', '=']
  | .gt => ['>']
  | .gte => ['>', '=']
  | .eq => ['=', '=']

/-- The word for an aggregation other than a percentile. -/
def ThresholdAgg.word : ThresholdAgg → Option (List Char)
  | .avg => some ['a', 'v', 'g']
  | .min => some ['m', 'i', 'n']
  | .max => some ['m', 'a', 'x']
  | .count => some ['c', 'o', 'u', 'n', 't']
  | .rate => some ['r', 'a', 't', 'e']
  | .p _ => none

/-- How an aggregation may be written. -/
inductive IsAgg : List Char → ThresholdAgg → Prop
  /-- A word, in any case. -/
  | word {agg : ThresholdAgg} {name s : List Char} (isWord : agg.word = some name)
      (same : Text.eqIgnoreAsciiCase s name = true) : IsAgg s agg
  /-- `p(N)`, in lower case only. -/
  | percentile {digits : List Char} {p : UInt32} (parsed : Text.parseU32 digits = some p)
      (low : 1 ≤ p) (high : p ≤ 100) : IsAgg (['p', '('] ++ digits ++ [')']) (.p p)

/-- The three parts of an expression. -/
structure ThresholdParts where
  agg : List Char
  op : ThresholdOp
  value : List Char

def ThresholdParts.text (parts : ThresholdParts) : List Char :=
  parts.agg ++ parts.op.text ++ parts.value

/-- The parts mean the expression. -/
structure ThresholdParts.Denotes (parts : ThresholdParts) (expr : ThresholdExpr) : Prop where
  agg : IsAgg parts.agg expr.agg
  op : parts.op = expr.op
  value : parseF64 parts.value = some expr.value

/-! ### Aggregations -/

/-- What is accepted for an aggregation is one way of writing it. -/
theorem parseAgg_iff {raw : String} {left : List Char} {agg : ThresholdAgg} :
    parseAgg raw left = .ok agg ↔ IsAgg left agg := by
  constructor
  · intro ok
    unfold parseAgg at ok
    split_ifs at ok with avg min max count rate
    · cases ok
      exact .word rfl avg
    · cases ok
      exact .word rfl min
    · cases ok
      exact .word rfl max
    · cases ok
      exact .word rfl count
    · cases ok
      exact .word rfl rate
    · split at ok
      next inner strip =>
        split at ok
        · cases ok
        next p parsed =>
          split at ok
          next range =>
            cases ok
            obtain ⟨rest, isPrefix, isSuffix⟩ := Option.bind_eq_some_iff.mp strip
            rw [← List.isPrefixOf?_eq_some_iff_append_eq.mp isPrefix, Text.eq_of_stripSuffix isSuffix,
              ← List.append_assoc]
            exact .percentile parsed range.1 range.2
          next => cases ok
      next => cases ok
  · rintro (⟨isWord, same⟩ | @⟨digits, p, parsed, low, high⟩)
    -- the words differ, so no branch before the one of the word is taken
    · cases agg <;> cases isWord <;>
        simp only [parseAgg, Text.eqIgnoreAsciiCase, decide_eq_true_eq] at same ⊢ <;> simp [same]
    · have inner : (['p', '('].isPrefixOf? (['p', '('] ++ digits ++ [')'])).bind
          (Text.stripSuffix ')') = some digits := by
        simp [List.isPrefixOf?]
      simp only [parseAgg, inner, parsed, low, high, and_self, if_true]
      -- no word starts with a `p`
      simp [Text.eqIgnoreAsciiCase]

theorem ThresholdAgg.word_plain {agg : ThresholdAgg} {name : List Char}
    (isWord : agg.word = some name) {c : Char} (operator : c ∈ ['<', '>', '=']) :
    c.toLower ∉ name.map Char.toLower := by
  have none : ['<', '>', '='].all fun c => c.toLower ∉ name.map Char.toLower := by
    cases agg <;> cases isWord <;> decide
  exact of_decide_eq_true (List.all_eq_true.mp none c operator)

/-- No operator is inside of an aggregation. -/
theorem IsAgg.plain {s : List Char} {agg : ThresholdAgg} (isAgg : IsAgg s agg) : Plain s := by
  have absent (c : Char) (operator : c ∈ ['<', '>', '=']) : c ∉ s := by
    intro member
    cases isAgg with
    | word isWord same =>
      exact agg.word_plain isWord operator (Text.mem_of_eqIgnoreAsciiCase same member)
    | @percentile digits p parsed low high =>
      have digit : c ∈ digits → c = '+' ∨ c.isDigit = true := Text.isDigit_of_parseU32 parsed
      simp only [List.mem_cons, List.not_mem_nil, or_false] at operator
      rcases operator with rfl | rfl | rfl <;> simp at member digit <;> exact digit member
  exact ⟨absent '<' (by decide), absent '>' (by decide), absent '=' (by decide)⟩

theorem IsAgg.ne_nil {s : List Char} {agg : ThresholdAgg} (isAgg : IsAgg s agg) : s ≠ [] := by
  rintro rfl
  obtain ⟨isWord, same⟩ := isAgg
  cases agg <;> cases isWord <;> simp [Text.eqIgnoreAsciiCase] at same

/-! ### The operator -/

/-- Between two plain texts the operator is found, and as a whole: `<=` is not taken for `<`. -/
theorem findOp_of_plain {a v : List Char} (left : Plain a) (right : Plain v) (op : ThresholdOp) :
    findOp (a ++ op.text ++ v) = some (a.length, op.text.length, op) := by
  obtain ⟨noLess, noGreater, noEqual⟩ := left
  obtain ⟨noLess', noGreater', noEqual'⟩ := right
  rw [List.append_assoc]
  -- each operator is found; those looked for before it have a character that is missing
  cases op with
  | lte =>
    have found : Text.find ['<', '='] (a ++ ('<' :: '=' :: v)) = some a.length :=
      Text.find_append noLess ['='] v
    simp [findOp, thresholdOps, ThresholdOp.text, found]
  | gte =>
    have found : Text.find ['>', '='] (a ++ ('>' :: '=' :: v)) = some a.length :=
      Text.find_append noGreater ['='] v
    have lte : Text.find ['<', '='] (a ++ ('>' :: '=' :: v)) = none :=
      Text.find_eq_none_of_not_mem List.mem_cons_self (by simp [noLess, noLess'])
    simp [findOp, thresholdOps, ThresholdOp.text, found, lte]
  | eq =>
    have found : Text.find ['=', '='] (a ++ ('=' :: '=' :: v)) = some a.length :=
      Text.find_append noEqual ['='] v
    have lte : Text.find ['<', '='] (a ++ ('=' :: '=' :: v)) = none :=
      Text.find_eq_none_of_not_mem List.mem_cons_self (by simp [noLess, noLess'])
    have gte : Text.find ['>', '='] (a ++ ('=' :: '=' :: v)) = none :=
      Text.find_eq_none_of_not_mem List.mem_cons_self (by simp [noGreater, noGreater'])
    simp [findOp, thresholdOps, ThresholdOp.text, found, lte, gte]
  | lt =>
    have found : Text.find ['<'] (a ++ ('<' :: v)) = some a.length :=
      Text.find_append noLess [] v
    have equal (c : Char) : Text.find [c, '='] (a ++ ('<' :: v)) = none :=
      Text.find_eq_none_of_not_mem (List.mem_cons_of_mem c List.mem_cons_self)
        (by simp [noEqual, noEqual'])
    simp [findOp, thresholdOps, ThresholdOp.text, found, equal]
  | gt =>
    have found : Text.find ['>'] (a ++ ('>' :: v)) = some a.length :=
      Text.find_append noGreater [] v
    have equal (c : Char) : Text.find [c, '='] (a ++ ('>' :: v)) = none :=
      Text.find_eq_none_of_not_mem (List.mem_cons_of_mem c List.mem_cons_self)
        (by simp [noEqual, noEqual'])
    have lt : Text.find ['<'] (a ++ ('>' :: v)) = none :=
      Text.find_eq_none_of_not_mem List.mem_cons_self (by simp [noLess, noLess'])
    simp [findOp, thresholdOps, ThresholdOp.text, found, equal, lt]

/-- What is found is an operator at this place. -/
theorem split_of_findOp {s : List Char} {pos len : Nat} {op : ThresholdOp}
    (found : findOp s = some (pos, len, op)) :
    len = op.text.length ∧ s = s.take pos ++ op.text ++ (s.drop pos).drop len := by
  obtain ⟨⟨tok, op'⟩, member, here⟩ := List.exists_of_findSome?_eq_some found
  obtain ⟨i, standing, same⟩ := Option.map_eq_some_iff.mp here
  cases same
  have text : ∀ entry ∈ thresholdOps, entry.2.text = entry.1 := by decide
  rw [text _ member]
  exact ⟨rfl, Text.split_of_find standing⟩

variable {parseF64}

/-- A text that splits into three parts with a meaning is read as these parts. -/
theorem parse_of_parts (lawful : LawfulF64 parseF64) {raw : String} {parts : ThresholdParts}
    {expr : ThresholdExpr} (text : parts.text = solidText raw)
    (denotes : parts.Denotes parseF64 expr) :
    findOp (solidText raw) = some (parts.agg.length, parts.op.text.length, parts.op) ∧
      parseThresholdExpr parseF64 raw = .ok expr := by
  obtain ⟨agg, op, number⟩ := expr
  obtain ⟨isAgg, same, isNumber⟩ := denotes
  subst same
  have found : findOp parts.text = some (parts.agg.length, parts.op.text.length, parts.op) :=
    findOp_of_plain isAgg.plain (lawful.plain isNumber) parts.op
  have left : parts.text.take parts.agg.length = parts.agg := by
    rw [ThresholdParts.text, List.append_assoc, List.take_left]
  have right : (parts.text.drop parts.agg.length).drop parts.op.text.length = parts.value := by
    rw [ThresholdParts.text, List.append_assoc, List.drop_left, List.drop_left]
  -- no empty text is a number
  have value : parts.value ≠ [] := by
    intro empty
    rw [empty, lawful.nonempty] at isNumber
    cases isNumber
  have nonempty : parts.text ≠ [] := by simp [ThresholdParts.text, isAgg.ne_nil]
  have isParsed : parseAgg raw parts.agg = .ok agg := parseAgg_iff.mpr isAgg
  rw [← text]
  refine ⟨found, ?_⟩
  simp only [parseThresholdExpr, ← text, nonempty, found, left, right, isAgg.ne_nil, value, isParsed,
    isNumber, or_self, if_false]
  rfl

/-- What is read consists of three parts with a meaning. -/
theorem parts_of_parse {raw : String} {expr : ThresholdExpr}
    (ok : parseThresholdExpr parseF64 raw = .ok expr) :
    ∃ parts : ThresholdParts, parts.text = solidText raw ∧ parts.Denotes parseF64 expr := by
  simp only [parseThresholdExpr] at ok
  split_ifs at ok with empty
  split at ok
  next => cases ok
  -- the operator that is found first is where the text is cut
  next pos len op found =>
    split_ifs at ok with missing
    obtain ⟨agg, parsed, rest⟩ := Except.bind_eq_ok.mp ok
    split at rest
    next => cases rest
    next value number =>
      cases rest
      exact ⟨⟨_, op, _⟩, (split_of_findOp found).2.symm, parseAgg_iff.mp parsed, rfl, number⟩

/-- The parser accepts exactly the grammar, and a text has one decomposition at most. -/
theorem parseThresholdExpr_grammar (lawful : LawfulF64 parseF64) (raw : String) :
    (∀ expr, parseThresholdExpr parseF64 raw = .ok expr ↔
        ∃ parts : ThresholdParts, parts.text = solidText raw ∧ parts.Denotes parseF64 expr) ∧
      ∀ (parts parts' : ThresholdParts) (expr expr' : ThresholdExpr),
        parts.text = solidText raw → parts.Denotes parseF64 expr →
        parts'.text = solidText raw → parts'.Denotes parseF64 expr' → parts = parts' := by
  constructor
  · intro expr
    constructor
    · exact parts_of_parse
    · rintro ⟨parts, text, denotes⟩
      exact (parse_of_parts lawful text denotes).2
  · rintro ⟨agg, op, value⟩ ⟨agg', op', value'⟩ expr expr' text denotes text' denotes'
    -- both put the operator where the search finds it
    have found := (parse_of_parts lawful text denotes).1
    rw [(parse_of_parts lawful text' denotes').1] at found
    simp only [Option.some.injEq, Prod.mk.injEq] at found
    obtain ⟨length, -, rfl⟩ := found
    have same : agg ++ (op'.text ++ value) = agg' ++ (op'.text ++ value') := by
      simpa [ThresholdParts.text] using text.trans text'.symm
    obtain ⟨rfl, rest⟩ := List.append_inj same length.symm
    obtain rfl := List.append_cancel_left rest
    rfl

end Parse

/-- `f64::from_str` on whole numbers that fit in 32 bits. -/
def parseWhole (s : List Char) : Option UInt64 :=
  (Text.decimalU32 s).map fun n => Ieee.ofU64 n.toUInt64

theorem lawful_parseWhole : LawfulF64 parseWhole := by
  refine ⟨rfl, fun number => ?_⟩
  obtain ⟨n, parsed, -⟩ := Option.map_eq_some_iff.mp number
  have digits := Text.isDigit_of_decimalU32 parsed
  refine ⟨fun member => ?_, fun member => ?_, fun member => ?_⟩ <;> cases digits _ member

theorem parseThresholdExpr_grammar_avg :
    parseThresholdExpr parseWhole " AVG <= 250 " = .ok ⟨.avg, .lte, Ieee.ofU64 250⟩ := by
  refine ((parseThresholdExpr_grammar lawful_parseWhole _).1 _).mpr
    ⟨⟨['A', 'V', 'G'], .lte, ['2', '5', '0']⟩, by decide, ?_⟩
  exact ⟨.word rfl (by decide), rfl, by decide +kernel⟩

end Wrkr.Core
