import Wrkr.Cli.Ndjson
import Wrkr.Compare.Parse
import Wrkr.Lib.JsonCut

/-!
# What the reader finds in written lines

A line without the three characters of `cuts` is found as it was written. A line with one falls
into parts, and whatever of them is read as an object is neither a progress line nor a summary, so
the line is lost (`found_lines`).
-/
namespace Wrkr.Compare

open Wrkr.Lib Wrkr.Cli.Ndjson

variable {F : Type}

/-- The floats of the writer and of the reader. -/
structure Exchange (F : Type) extends Floats F, PyFloat F

/-- The line ends of `splitlines` that are written as they are. -/
def cuts (c : Char) : Bool := c.toNat == 0x85 || c.toNat == 0x2028 || c.toNat == 0x2029

/-- No string of a line has such a character. -/
def whole (fields : List (String × Json F)) : Bool :=
  (Json.object fields).strings.all fun s => !s.toList.any cuts

/-! ### Keys of parts -/

theorem get_eq_none {obj : List (String × Json F)} {key : String}
    (absent : ∀ field ∈ obj, field.1 ≠ key) : get obj key = none := by
  induction obj with
  | nil => rfl
  | cons field rest ih =>
    obtain ⟨k, v⟩ := field
    have other : k ≠ key := absent _ (List.mem_cons_self ..)
    rw [get, ih fun field member => absent field (List.mem_cons_of_mem _ member), if_neg other]
    rfl

/-- Two results that differ in `sawJson` only. -/
def Found.Same (a b : Found F) : Prop :=
  a.lastProgress = b.lastProgress ∧ a.lastSummary = b.lastSummary

theorem Found.Same.trans {a b c : Found F} (first : a.Same b) (second : b.Same c) : a.Same c :=
  ⟨first.1.trans second.1, first.2.trans second.2⟩

theorem Found.Same.object {a b : Found F} (same : a.Same b) (obj : List (String × Json F)) :
    (a.object obj).Same (b.object obj) := by
  obtain ⟨progress, summary⟩ := same
  unfold Found.object
  split_ifs
  · exact ⟨rfl, summary⟩
  · exact ⟨progress, rfl⟩
  · exact ⟨progress, summary⟩

/-- An object whose keys are none of those that the reader looks for. -/
theorem same_of_keys {obj : List (String × Json F)}
    (marks : ∀ field ∈ obj, ∃ c, field.1.toList.head? = some c ∧ Json.Mark c) (found : Found F) :
    (found.object obj).Same found := by
  have absent {key : String} {c : Char} (first : key.toList.head? = some c) (plain : ¬Json.Mark c) :
      get obj key = none := by
    refine get_eq_none fun field member same => ?_
    obtain ⟨d, head, mark⟩ := marks field member
    rw [same, first] at head
    cases head
    exact plain mark
  -- the keys of a part begin with a mark of the syntax, those of the reader with a letter
  have kind : get obj "kind" = none := absent (c := 'k') rfl (by decide)
  have elapsed : get obj "elapsed_secs" = none := absent (c := 'e') rfl (by decide)
  have totals : get obj "totals" = none := absent (c := 't') rfl (by decide)
  simp [Found.object, isString, isNone, hasKey, kind, elapsed, totals, Found.Same]

/-! ### The parts of a line -/

theorem foreign_of_isSpace {c : Char} (space : PyText.isSpace c = true) : Json.Print.Foreign c := by
  simp only [PyText.isSpace, Text.isWhitespace, Bool.or_eq_true, Bool.and_eq_true,
    decide_eq_true_eq, beq_iff_eq] at space
  rw [Json.Print.Foreign]
  omega

theorem foreign_of_isBreak {c : Char} (cut : PyText.isBreak c = true) : Json.Print.Foreign c := by
  simp only [PyText.isBreak, Bool.or_eq_true, Bool.and_eq_true, decide_eq_true_eq, beq_iff_eq] at cut
  rw [Json.Print.Foreign]
  omega

theorem run_strip {q q' : Json.Print} {s : List Char} (run : q.run s = some q') :
    q.run (PyText.strip s) = some q' := Json.Print.run_trim (fun _ => foreign_of_isSpace) run

variable (x : Exchange F)

/-- A part that ends or starts inside of a string. -/
theorem same_line {q : Json.Print} {part : List Char}
    (cut : Json.Print.outside.run part = some .inside ∨ Json.Print.inside.run part = some q)
    (found : Found F) : (found.line x.toPyFloat part).Same found := by
  rw [Found.line]
  cases parsed : tryParseJsonObjectLine x.toPyFloat part with
  | none => exact ⟨rfl, rfl⟩
  | some obj =>
    rw [tryParseJsonObjectLine] at parsed
    split at parsed
    · cases parsed
    · split at parsed
      next fields loaded =>
        cases parsed
        refine same_of_keys ?_ found
        rcases cut with first | later
        -- a part that ends inside of a string is no JSON
        · rw [Json.loads_of_open (run_strip first)] at loaded
          cases loaded
        · exact Json.key_of_cut (run_strip later) loaded
      next => cases parsed

theorem same_lines {parts : List (List Char)}
    (cut : ∀ part ∈ parts, ∃ q, Json.Print.inside.run part = some q) (found : Found F) :
    (parts.foldl (Found.line x.toPyFloat) found).Same found := by
  induction parts generalizing found with
  | nil => exact ⟨rfl, rfl⟩
  | cons part parts ih =>
    obtain ⟨q, run⟩ := cut part (List.mem_cons_self ..)
    have first := same_line x (.inr run) found
    have later := ih (fun part member => cut part (List.mem_cons_of_mem _ member))
      (found.line x.toPyFloat part)
    exact later.trans first

/-- A written line, as `splitlines` cuts it. -/
def parts (fields : List (String × Json F)) : List (List Char) :=
  (Json.dumps x.text (.object fields)).splitOnP PyText.isBreak

section Line

variable {x} {fields : List (String × Json F)} (finite : Finite x.toFloats (.object fields))

include finite

theorem run_line : Json.Print.outside.run (Json.dumps x.text (.object fields)) = some .outside :=
  Json.Print.run_members fields finite

theorem isBreak_mem_iff :
    (∃ c ∈ Json.dumps x.text (.object fields), PyText.isBreak c = true) ↔ whole fields = false := by
  have plain := Json.Print.not_control (run_line finite)
  have members (c : Char) (cut : cuts c = true) := Json.Print.mem_dumps (c := c) (by
    simp only [cuts, Bool.or_eq_true, beq_iff_eq] at cut
    omega) (.object fields) finite
  -- control characters are escaped, so of the breaks only the others can be in the text
  have same (c : Char) (member : c ∈ Json.dumps x.text (.object fields)) :
      PyText.isBreak c = true ↔ cuts c = true := by
    have := plain c member
    simp only [PyText.isBreak, cuts, Bool.or_eq_true, Bool.and_eq_true, decide_eq_true_eq, beq_iff_eq]
    omega
  constructor
  · rintro ⟨c, member, cut⟩
    have written := (same c member).mp cut
    obtain ⟨s, string, inside⟩ := (members c written).mp member
    rw [whole, List.all_eq_false]
    exact ⟨s, string, by simpa using ⟨c, inside, written⟩⟩
  · intro notWhole
    rw [whole, List.all_eq_false] at notWhole
    obtain ⟨s, string, some_⟩ := notWhole
    obtain ⟨c, inside, written⟩ : ∃ c ∈ s.toList, cuts c = true := by simpa using some_
    have member := (members c written).mpr ⟨s, string, inside⟩
    exact ⟨c, member, (same c member).mpr written⟩

/-- A line with one of the characters is lost. -/
theorem found_cut (notWhole : whole fields = false) (found : Found F) :
    ((parts x fields).foldl (Found.line x.toPyFloat) found).Same found := by
  obtain ⟨first, others, split, open_, later⟩ :=
    Json.Print.run_splitOnP (fun _ => foreign_of_isBreak) (run_line finite)
  rw [parts, split, List.foldl_cons]
  have start := same_line x (q := .inside) (.inl (open_ ((isBreak_mem_iff finite).mpr notWhole))) found
  have rest := same_lines x later (found.line x.toPyFloat first)
  exact rest.trans start

omit finite in
theorem strip_line : PyText.strip (Json.dumps x.text (.object fields)) =
    Json.dumps x.text (.object fields) := by
  have last := Json.getLast?_members x.text fields
  have end_ : ∀ some, (Json.dumps x.text (.object fields)).getLast some = '\x7d' := by
    intro some
    rw [List.getLast_eq_iff_getLast?_eq_some, Json.dumps, List.getLast?_cons, last]
    rfl
  have start : (Json.dumps x.text (.object fields)).dropWhile PyText.isSpace =
      Json.dumps x.text (.object fields) := rfl
  rw [PyText.strip, start, List.rdropWhile_eq_self_iff]
  intro some
  rw [end_ some]
  decide

/-- A line without them is one line, and read as the object. -/
theorem found_whole (isWhole : whole fields = true) (found : Found F) :
    (parts x fields).foldl (Found.line x.toPyFloat) found = found.object fields := by
  have one : parts x fields = [Json.dumps x.text (.object fields)] := by
    refine List.splitOnP_eq_singleton fun c member => ?_
    by_contra cut
    have lost := (isBreak_mem_iff finite).mp ⟨c, member, by simpa using cut⟩
    rw [isWhole] at lost
    cases lost
  have start : (Json.dumps x.text (.object fields)).head? = some '\x7b' := rfl
  have loaded : Json.loads x.toPyFloat.read (Json.dumps x.text (.object fields)) =
      some (.object fields) := Json.loads_dumps x.toFloatText finite
  rw [one, List.foldl_cons, List.foldl_nil, Found.line, tryParseJsonObjectLine, strip_line,
    if_neg (by simp [start]), loaded]

end Line

/-! ### All lines -/

/-- The lines as they are emitted one after the other. -/
def text (lines : List (List (String × Json F))) : List Char :=
  lines.flatMap (emitJsonLine x.toFloats)

theorem splitlines_text {lines : List (List (String × Json F))}
    (finite : ∀ line ∈ lines, Finite x.toFloats (.object line)) :
    PyText.splitlines (text x lines) = lines.flatMap (parts x) := by
  have emitted : text x lines =
      (lines.map fun line => Json.dumps x.text (.object line)).flatMap (· ++ ['\n']) := by
    rw [List.flatMap_map]
    rfl
  rw [emitted, PyText.splitlines_lines, List.flatMap_map]
  · rfl
  · intro written member
    obtain ⟨line, inLines, rfl⟩ := List.mem_map.mp member
    exact Json.Print.not_control (run_line (finite line inLines))

theorem found_parts {lines : List (List (String × Json F))}
    (finite : ∀ line ∈ lines, Finite x.toFloats (.object line)) {found found' : Found F}
    (same : found.Same found') :
    ((lines.flatMap (parts x)).foldl (Found.line x.toPyFloat) found).Same
      ((lines.filter whole).foldl Found.object found') := by
  induction lines generalizing found found' with
  | nil => exact same
  | cons line lines ih =>
    have first := finite line (List.mem_cons_self ..)
    have later := fun line member => finite line (List.mem_cons_of_mem _ member)
    rw [List.flatMap_cons, List.foldl_append]
    cases isWhole : whole line with
    | true =>
      rw [found_whole first isWhole, List.filter_cons_of_pos isWhole]
      exact ih later (same.object line)
    -- a line that is cut has no part with the keys that the reader looks for
    | false =>
      rw [List.filter_cons_of_neg (by simp [isWhole])]
      exact ih later ((found_cut first isWhole found).trans same)

/-- The lines that the reader finds are the whole ones. -/
theorem found_lines {lines : List (List (String × Json F))}
    (finite : ∀ line ∈ lines, Finite x.toFloats (.object line)) (found : Found F) :
    ((PyText.splitlines (text x lines)).foldl (Found.line x.toPyFloat) found).Same
      ((lines.filter whole).foldl Found.object found) := by
  rw [splitlines_text x finite]
  exact found_parts x finite ⟨rfl, rfl⟩

end Wrkr.Compare
