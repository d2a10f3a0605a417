import Mathlib.Algebra.Group.Nat.Defs
import Mathlib.Data.List.DropRight
import Mathlib.Data.List.TakeWhile

/-!
# Text as lists of characters

The operations of Rust's `str` that split and trim text, on the list of its characters. Trimming
is described by what it leaves at the two ends (`Tight`): text with tight ends is its own
trimming, and the ends of a concatenation are those of its outer parts.
-/
namespace Wrkr.Lib.Text

/-- `char::is_whitespace`: the Unicode property `White_Space`. -/
def isWhitespace (c : Char) : Bool :=
  let n := c.toNat
  (0x9 ≤ n && n ≤ 0xd) || n == 0x20 || n == 0x85 || n == 0xa0 || n == 0x1680 ||
    (0x2000 ≤ n && n ≤ 0x200a) || n == 0x2028 || n == 0x2029 || n == 0x202f || n == 0x205f ||
    n == 0x3000

def trim (s : List Char) : List Char := (s.dropWhile isWhitespace).rdropWhile isWhitespace

section Split

variable {α : Type} [DecidableEq α]

/-- The parts before and after the first `c`. -/
def splitOnce (c : α) : List α → Option (List α × List α)
  | [] => none
  | x :: xs => if x = c then some ([], xs) else (splitOnce c xs).map fun (a, b) => (x :: a, b)

def stripSuffix (c : α) (s : List α) : Option (List α) :=
  if s.getLast? = some c then some s.dropLast else none

/-- `str::find`: where the pattern first occurs. -/
def find (pattern : List α) : List α → Option Nat
  | [] => if pattern = [] then some 0 else none
  | x :: xs =>
    if pattern.isPrefixOf (x :: xs) then some 0 else (find pattern xs).map (· + 1)

theorem splitOnce_append {c : α} {a : List α} (absent : c ∉ a) (b : List α) :
    splitOnce c (a ++ c :: b) = some (a, b) := by
  induction a with
  | nil => simp [splitOnce]
  | cons x a ih =>
    have other : x ≠ c := fun same => absent (by simp [same])
    have rest : c ∉ a := fun member => absent (List.mem_cons_of_mem _ member)
    simp [splitOnce, other, ih rest]

theorem splitOnce_eq_none {c : α} {s : List α} : splitOnce c s = none ↔ c ∉ s := by
  induction s with
  | nil => simp [splitOnce]
  | cons x s ih =>
    by_cases here : x = c
    · simp [splitOnce, here]
    · simp [splitOnce, here, ih, Ne.symm here]

theorem not_mem_of_splitOnce {c : α} {s a b : List α} (split : splitOnce c s = some (a, b)) :
    c ∉ a := by
  induction s generalizing a with
  | nil => simp [splitOnce] at split
  | cons x s ih =>
    by_cases here : x = c
    · simp only [splitOnce, here, if_true, Option.some.injEq, Prod.mk.injEq] at split
      simp [← split.1]
    · simp only [splitOnce, here, if_false, Option.map_eq_some_iff, Prod.mk.injEq, Prod.exists] at split
      obtain ⟨a', b', found, rfl, rfl⟩ := split
      simp [ih found, Ne.symm here]

theorem eq_of_stripSuffix {c : α} {s t : List α} (strip : stripSuffix c s = some t) :
    s = t ++ [c] := by
  rw [stripSuffix] at strip
  split at strip
  next last =>
    cases strip
    exact (List.dropLast_append_getLast? c last).symm
  next => cases strip

/-- Where a pattern is found, it stands. -/
theorem split_of_find {pattern s : List α} {i : Nat} (found : find pattern s = some i) :
    s = s.take i ++ pattern ++ (s.drop i).drop pattern.length := by
  induction s generalizing i with
  | nil =>
    rw [find] at found
    split at found
    next empty => simp [empty]
    next => cases found
  | cons x xs ih =>
    rw [find] at found
    split at found
    next here =>
      cases found
      -- it stands at the beginning, or further on
      have standing := List.prefix_iff_eq_append.mp (List.isPrefixOf_iff_prefix.mp here)
      simpa using standing.symm
    next =>
      obtain ⟨j, later, rfl⟩ := Option.map_eq_some_iff.mp found
      simpa using ih later

/-- A pattern is not found where one of its characters is missing. -/
theorem find_eq_none_of_not_mem {c : α} {pattern s : List α} (inside : c ∈ pattern)
    (absent : c ∉ s) : find pattern s = none := by
  have nowhere (i : Nat) : find pattern s ≠ some i := by
    intro found
    rw [split_of_find found] at absent
    simp [inside] at absent
  cases found : find pattern s with
  | none => rfl
  | some i => exact absurd found (nowhere i)

/-- Nothing before the first character of the pattern is taken for it. -/
theorem find_append {c : α} {a : List α} (absent : c ∉ a) (pattern b : List α) :
    find (c :: pattern) (a ++ (c :: pattern ++ b)) = some a.length := by
  induction a with
  | nil =>
    have here : (c :: pattern).isPrefixOf (c :: (pattern ++ b)) = true :=
      List.isPrefixOf_iff_prefix.mpr ⟨b, rfl⟩
    rw [List.nil_append, List.cons_append, find, if_pos here, List.length_nil]
  | cons x a ih =>
    have other : (c == x) = false := by simpa using fun same : c = x => absent (by simp [same])
    have rest : c ∉ a := fun member => absent (List.mem_cons_of_mem _ member)
    rw [List.cons_append, find, List.isPrefixOf_cons_cons, other, ih rest]
    rfl

/-- A split text is its two parts with the separator between them. -/
theorem eq_of_splitOnce {c : α} {s a b : List α} (split : splitOnce c s = some (a, b)) :
    s = a ++ c :: b := by
  induction s generalizing a with
  | nil => cases split
  | cons x s ih =>
    rw [splitOnce] at split
    split at split
    next here =>
      cases split
      rw [here, List.nil_append]
    next =>
      obtain ⟨⟨a', b'⟩, later, same⟩ := Option.map_eq_some_iff.mp split
      cases same
      rw [ih later, List.cons_append]

@[simp] theorem stripSuffix_concat (c : α) (s : List α) : stripSuffix c (s ++ [c]) = some s := by
  simp [stripSuffix]

end Split

/-! ### Words and numbers -/

/-- `str::eq_ignore_ascii_case`. -/
def eqIgnoreAsciiCase (a b : List Char) : Bool := a.map Char.toLower = b.map Char.toLower

/-- Without one of the letters in either case, the texts differ. -/
theorem mem_of_eqIgnoreAsciiCase {a b : List Char} (same : eqIgnoreAsciiCase a b = true) {c : Char}
    (member : c ∈ a) : c.toLower ∈ b.map Char.toLower := by
  rw [← of_decide_eq_true same]
  exact List.mem_map_of_mem member

/-- `str::parse::<u32>` on digits alone. -/
def decimalU32 (digits : List Char) : Option UInt32 :=
  if digits = [] ∨ digits.any (!·.isDigit) then none
  else
    let n := Nat.ofDigitChars 10 digits 0
    if n < 2 ^ 32 then some (UInt32.ofNat n) else none

/-- `u32::from_str`: decimal digits, after an optional plus sign. -/
def parseU32 : List Char → Option UInt32
  | '+' :: digits => decimalU32 digits
  | digits => decimalU32 digits

theorem isDigit_of_decimalU32 {digits : List Char} {n : UInt32}
    (parsed : decimalU32 digits = some n) : ∀ c ∈ digits, c.isDigit = true := by
  rw [decimalU32] at parsed
  split at parsed
  next => cases parsed
  next all =>
    simp only [not_or, Bool.not_eq_true, List.any_eq_false, Bool.not_eq_false'] at all
    exact all.2

theorem isDigit_of_parseU32 {s : List Char} {n : UInt32} (parsed : parseU32 s = some n) {c : Char}
    (member : c ∈ s) : c = '+' ∨ c.isDigit = true := by
  unfold parseU32 at parsed
  split at parsed
  next digits =>
    rcases List.mem_cons.mp member with plus | later
    · exact .inl plus
    · exact .inr (isDigit_of_decimalU32 parsed c later)
  next => exact .inr (isDigit_of_decimalU32 parsed c member)

/-- `u64::from_str` on text without a sign. -/
def decimalU64 (digits : List Char) : Option UInt64 :=
  if digits = [] ∨ digits.any (!·.isDigit) then none
  else
    let n := Nat.ofDigitChars 10 digits 0
    if n < 2 ^ 64 then some (UInt64.ofNat n) else none

theorem decimalU64_eq_some_iff {digits : List Char} {n : UInt64} (some : digits ≠ [])
    (all : ∀ c ∈ digits, c.isDigit = true) :
    decimalU64 digits = .some n ↔ Nat.ofDigitChars 10 digits 0 = n.toNat := by
  have plain : ¬(digits = [] ∨ digits.any (!·.isDigit) = true) := by
    simpa [some] using all
  simp only [decimalU64, if_neg plain]
  split
  next small =>
    rw [Option.some.injEq, ← UInt64.toNat_inj, UInt64.toNat_ofNat', Nat.mod_eq_of_lt small]
  next large =>
    have bound := n.toNat_lt
    exact iff_of_false nofun (by omega)

/-- Text in two parts, split where the first character without the property is. -/
theorem takeWhile_eq_iff {p : Char → Bool} {s a b : List Char} :
    s.takeWhile p = a ∧ s.dropWhile p = b ↔
      s = a ++ b ∧ (∀ c ∈ a, p c = true) ∧ ∀ c ∈ b.head?, p c = false := by
  constructor
  · rintro ⟨rfl, rfl⟩
    refine ⟨List.takeWhile_append_dropWhile.symm, fun c => List.mem_takeWhile_imp, fun c first => ?_⟩
    have stopped := List.head?_dropWhile_not p s
    rw [Option.mem_def.mp first] at stopped
    simpa using stopped
  · rintro ⟨rfl, all, stop⟩
    rw [List.takeWhile_append_of_pos all, List.dropWhile_append_of_pos all]
    cases b with
    | nil => simp
    | cons c b => simp [stop c rfl]

/-! ### Trimming -/

/-- No whitespace at either end. -/
def Tight (s : List Char) : Prop :=
  (∀ c ∈ s.head?, isWhitespace c = false) ∧ ∀ c ∈ s.getLast?, isWhitespace c = false

theorem trim_of_tight {s : List Char} (tight : Tight s) : trim s = s := by
  have left : s.dropWhile isWhitespace = s := by
    cases s with
    | nil => rfl
    | cons c s => simp [tight.1 c rfl]
  rw [trim, left, List.rdropWhile_eq_self_iff]
  intro nonempty
  simpa using tight.2 _ (List.getLast?_eq_some_getLast nonempty)

/-- What is trimmed has no white space at its ends. -/
theorem tight_trim (s : List Char) : Tight (trim s) := by
  constructor
  · intro c first
    -- what is cut off at the right does not move the first character
    obtain ⟨rest, cut⟩ := List.rdropWhile_prefix isWhitespace (l := s.dropWhile isWhitespace)
    have head : c ∈ (s.dropWhile isWhitespace).head? := by
      rw [← cut, List.head?_append, show (List.rdropWhile isWhitespace _).head? = some c from first]
      rfl
    have stopped := List.head?_dropWhile_not isWhitespace s
    rw [Option.mem_def.mp head] at stopped
    simpa using stopped
  · intro c last
    have nonempty : trim s ≠ [] := by
      rintro empty
      simp [empty] at last
    have solid := List.rdropWhile_last_not isWhitespace (s.dropWhile isWhitespace) nonempty
    rw [List.getLast?_eq_some_getLast nonempty] at last
    cases last
    exact Bool.eq_false_iff.mpr solid

theorem mem_of_mem_trim {s : List Char} {c : Char} (member : c ∈ trim s) : c ∈ s :=
  (List.dropWhile_sublist isWhitespace).subset
    ((List.rdropWhile_prefix isWhitespace _).subset member)

theorem tight_of_forall {s : List Char} (solid : ∀ c ∈ s, isWhitespace c = false) : Tight s :=
  ⟨fun c first => solid c (List.mem_of_mem_head? first),
    fun c last => solid c (List.mem_of_mem_getLast? last)⟩

theorem tight_append {s t : List Char} (left : Tight s) (right : Tight t) (some : s ≠ [])
    (some' : t ≠ []) : Tight (s ++ t) := by
  constructor
  · rw [List.head?_append_of_ne_nil _ some]
    exact left.1
  · rw [List.getLast?_append_of_ne_nil _ some']
    exact right.2

end Wrkr.Lib.Text
