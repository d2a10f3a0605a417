import Wrkr.Lib.Text

/-!
# Lines of a Python text

The methods of Python's `str` that cut a text into lines and trim it. `splitlines` cuts at more
characters than the one that ends the lines of a writer, so a written line can be read as several
(`splitlines_lines`).
-/
namespace Wrkr.Lib.PyText

/-- `str.isspace` of a character. -/
def isSpace (c : Char) : Bool := Text.isWhitespace c || (0x1c ≤ c.toNat && c.toNat ≤ 0x1f)

def strip (s : List Char) : List Char := (s.dropWhile isSpace).rdropWhile isSpace

/-- Where `splitlines` cuts. -/
def isBreak (c : Char) : Bool :=
  let n := c.toNat
  (0xa ≤ n && n ≤ 0xd) || (0x1c ≤ n && n ≤ 0x1e) || n == 0x85 || n == 0x2028 || n == 0x2029

/-- What follows the last cut is a line only if there is something. -/
def splitlines : List Char → List (List Char)
  | [] => []
  | '\r' :: '\n' :: s => [] :: splitlines s
  | c :: s =>
    if isBreak c then [] :: splitlines s
    else
      match splitlines s with
      | [] => [[c]]
      | line :: lines => (c :: line) :: lines

/-- `str.join` of lines with a newline between them. -/
def joinLines (lines : List (List Char)) : List Char := List.intercalate ['\n'] lines

theorem splitlines_cons {c : Char} (other : c ≠ '\r') (s : List Char) :
    splitlines (c :: s) =
      if isBreak c then [] :: splitlines s
      else
        match splitlines s with
        | [] => [[c]]
        | line :: lines => (c :: line) :: lines := by
  rw [splitlines]
  rintro rest same
  exact absurd same other

/-- A written line, which has no control characters. -/
theorem splitlines_append {line : List Char} (plain : ∀ c ∈ line, ¬c.toNat < 0x20)
    (rest : List Char) :
    splitlines (line ++ '\n' :: rest) = line.splitOnP isBreak ++ splitlines rest := by
  induction line with
  | nil => rfl
  | cons c line ih =>
    -- only a carriage return looks at what follows it
    have other : c ≠ '\r' := by
      rintro rfl
      exact plain _ (List.mem_cons_self ..) (by decide)
    rw [List.cons_append, splitlines_cons other, List.splitOnP_cons_eq_if_modifyHead,
      ih fun d member => plain d (List.mem_cons_of_mem _ member)]
    cases isBreak c with
    | true => rfl
    | false =>
      obtain ⟨first, others, parts⟩ := List.exists_cons_of_ne_nil (List.splitOnP_ne_nil isBreak line)
      rw [parts]
      rfl

/-- The lines of a text that was written line by line. -/
theorem splitlines_lines {lines : List (List Char)}
    (plain : ∀ line ∈ lines, ∀ c ∈ line, ¬c.toNat < 0x20) :
    splitlines (lines.flatMap (· ++ ['\n'])) = lines.flatMap (List.splitOnP isBreak) := by
  induction lines with
  | nil => rfl
  | cons line lines ih =>
    rw [List.flatMap_cons, List.append_assoc, List.singleton_append,
      splitlines_append (plain line (List.mem_cons_self ..)),
      ih fun later member => plain later (List.mem_cons_of_mem _ member), List.flatMap_cons]

end Wrkr.Lib.PyText
