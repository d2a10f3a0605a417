import Wrkr.Lib.Json

/-!
# Reading back the text of a value

The decoder reads every text of `dumps` as the value that it was made of. A number ends where the
next character cannot belong to it, and after a value of a text comes a comma, a bracket or
nothing.
-/
namespace Wrkr.Lib.Json

variable {F : Type}

/-! ### Numbers -/

/-- One digit or more. -/
def Digits (s : List Char) : Prop := s ≠ [] ∧ ∀ c ∈ s, c.isDigit = true

/-- Nothing or a minus. -/
def IsSign (s : List Char) : Prop := s = [] ∨ s = ['-']

/-- No zero in front of other digits. -/
def IsWhole (s : List Char) : Prop := s = ['0'] ∨ Digits s ∧ s.head? ≠ some '0'

/-- Nothing, or a point and digits. -/
def IsFraction (s : List Char) : Prop := s = [] ∨ ∃ digits, s = '.' :: digits ∧ Digits digits

/-- Nothing, or the letter, a sign or none, and digits. -/
def IsExponent (s : List Char) : Prop :=
  s = [] ∨ ∃ c sign digits, s = c :: (sign ++ digits) ∧ (c = 'e' ∨ c = 'E') ∧
    (sign = ['+'] ∨ IsSign sign) ∧ Digits digits

/-- The text of a number that is no integer. -/
def FloatLiteral (s : List Char) : Prop :=
  ∃ sign whole fraction exponent, s = sign ++ (whole ++ (fraction ++ exponent)) ∧ IsSign sign ∧
    IsWhole whole ∧ IsFraction fraction ∧ IsExponent exponent ∧ ¬(fraction = [] ∧ exponent = [])

/-- Finite numbers have a text that is read as the number. -/
structure FloatText (F : Type) where
  finite : F → Bool
  text : F → List Char
  read : List Char → F
  literal (x : F) : finite x = true → FloatLiteral (text x)
  read_text (x : F) : finite x = true → read (text x) = x

/-- What can follow a value. -/
def Ends (rest : List Char) : Prop := ∀ c ∈ rest.head?, c = ',' ∨ c = '}' ∨ c = ']'

theorem ends_nil : Ends [] := nofun

theorem ends_comma (s : List Char) : Ends (',' :: s) := fun _ head => by
  cases head
  exact .inl rfl

theorem ends_brace (s : List Char) : Ends ('}' :: s) := fun _ head => by
  cases head
  exact .inr (.inl rfl)

theorem ends_bracket (s : List Char) : Ends (']' :: s) := fun _ head => by
  cases head
  exact .inr (.inr rfl)

theorem scanDigits_append {digits rest : List Char} (all : Digits digits)
    (stop : ∀ c ∈ rest.head?, c.isDigit = false) :
    scanDigits (digits ++ rest) = some (digits, rest) := by
  obtain ⟨first, second⟩ := (Text.takeWhile_eq_iff (p := Char.isDigit)).mpr ⟨rfl, all.2, stop⟩
  rw [scanDigits, first, second, if_neg all.1]

/-- A sign, if there is one, comes before a digit. -/
theorem scanSign_append {sign s : List Char} (isSign : IsSign sign) (digit : ∀ c ∈ s.head?,
    c.isDigit = true) : scanSign (sign ++ s) = (sign, s) := by
  rcases isSign with rfl | rfl
  · cases s with
    | nil => rfl
    | cons c s =>
      -- without a sign the text starts with a digit, which is not a minus
      have first := digit c rfl
      rw [List.nil_append, scanSign]
      rintro rest same
      cases same
      cases first
  · rfl

theorem head_of_digits {digits : List Char} (all : Digits digits) (s : List Char) :
    ∀ c ∈ (digits ++ s).head?, c.isDigit = true := by
  obtain ⟨some, all⟩ := all
  cases digits with
  | nil => exact absurd rfl some
  | cons d digits =>
    intro c head
    cases head
    exact all d (List.mem_cons_self ..)

theorem IsWhole.digits {whole : List Char} (isWhole : IsWhole whole) : Digits whole := by
  rcases isWhole with rfl | ⟨digits, -⟩
  · exact ⟨nofun, by simp⟩
  · exact digits

/-- The scanner takes the digits up to the first character that is none. -/
theorem scanWhole_append {whole rest : List Char} (isWhole : IsWhole whole)
    (stop : ∀ c ∈ rest.head?, c.isDigit = false) :
    scanWhole (whole ++ rest) = some (whole, rest) := by
  rcases isWhole with rfl | ⟨digits, nonzero⟩
  · rfl
  · rw [← scanDigits_append digits stop]
    obtain ⟨some, -⟩ := digits
    cases whole with
    | nil => exact absurd rfl some
    | cons d whole =>
      rw [List.cons_append, scanWhole]
      rintro s same
      cases same
      -- the branch for a zero is not taken, as only `0` itself starts with one
      exact nonzero rfl

theorem scanFraction_append {fraction rest : List Char} (isFraction : IsFraction fraction)
    (stop : ∀ c ∈ rest.head?, c ≠ '.' ∧ c.isDigit = false) :
    scanFraction (fraction ++ rest) = (fraction, rest) := by
  rcases isFraction with rfl | ⟨digits, rfl, all⟩
  · cases rest with
    | nil => rfl
    | cons c rest =>
      rw [List.nil_append, scanFraction]
      rintro s same
      cases same
      -- a point here would be of a fraction
      exact (stop '.' rfl).1 rfl
  · rw [List.cons_append, scanFraction, scanDigits_append all fun c head => (stop c head).2]

/-- Both signs are taken, and no sign is none. -/
theorem scanExponentSign_append {sign s : List Char} (isSign : sign = ['+'] ∨ IsSign sign)
    (digit : ∀ c ∈ s.head?, c.isDigit = true) : scanExponentSign (sign ++ s) = (sign, s) := by
  rcases isSign with rfl | rfl | rfl
  · rfl
  · have unsigned := scanSign_append (.inl rfl) digit
    rw [List.nil_append] at unsigned ⊢
    cases s with
    | nil => rfl
    | cons c s =>
      rw [scanExponentSign, unsigned]
      rintro rest same
      cases same
      -- a plus is no digit
      exact absurd (digit '+' rfl) (by decide)
  · rfl

theorem scanExponent_append {exponent rest : List Char} (isExponent : IsExponent exponent)
    (stop : ∀ c ∈ rest.head?, c ≠ 'e' ∧ c ≠ 'E' ∧ c.isDigit = false) :
    scanExponent (exponent ++ rest) = (exponent, rest) := by
  rcases isExponent with rfl | ⟨c, sign, digits, rfl, letter, isSign, all⟩
  · cases rest with
    | nil => rfl
    | cons c rest =>
      obtain ⟨notSmall, notLarge, -⟩ := stop c rfl
      rw [List.nil_append, scanExponent, if_neg (by simp [notSmall, notLarge])]
  · rw [List.cons_append, scanExponent, if_pos letter, List.append_assoc,
      scanExponentSign_append isSign (head_of_digits all rest),
      scanDigits_append all fun c head => (stop c head).2.2]

theorem stop_of_ends {rest : List Char} (ends : Ends rest) :
    ∀ c ∈ rest.head?, c ≠ 'e' ∧ c ≠ 'E' ∧ c ≠ '.' ∧ c.isDigit = false := by
  intro c head
  rcases ends c head with rfl | rfl | rfl <;> decide

theorem stop_of_exponent {exponent rest : List Char} (isExponent : IsExponent exponent)
    (ends : Ends rest) : ∀ c ∈ (exponent ++ rest).head?, c ≠ '.' ∧ c.isDigit = false := by
  rcases isExponent with rfl | ⟨c, sign, digits, rfl, letter, -, -⟩
  · exact fun c head => (stop_of_ends ends c head).2.2
  · intro d head
    cases head
    rcases letter with rfl | rfl <;> decide

theorem stop_of_fraction {fraction s : List Char} (isFraction : IsFraction fraction)
    (stop : ∀ c ∈ s.head?, c ≠ '.' ∧ c.isDigit = false) :
    ∀ c ∈ (fraction ++ s).head?, c.isDigit = false := by
  rcases isFraction with rfl | ⟨digits, rfl, -⟩
  · exact fun c head => (stop c head).2
  · intro d head
    cases head
    rfl

variable {float : List Char → F}

variable (float) in
/-- A number is read to its end. -/
theorem scanNumber_append {sign whole fraction exponent rest : List Char} (isSign : IsSign sign)
    (isWhole : IsWhole whole) (isFraction : IsFraction fraction)
    (isExponent : IsExponent exponent) (ends : Ends rest) :
    scanNumber float (sign ++ (whole ++ (fraction ++ (exponent ++ rest)))) =
      if fraction = [] ∧ exponent = [] then
        some (.int (if sign = [] then Nat.ofDigitChars 10 whole 0
          else -(Nat.ofDigitChars 10 whole 0 : Int)), rest)
      else some (.float (float (sign ++ whole ++ fraction ++ exponent)), rest) := by
  -- each part ends where the next one, or what follows the number, begins
  have afterFraction := stop_of_exponent isExponent ends
  have afterWhole := stop_of_fraction isFraction afterFraction
  rw [scanNumber, scanSign_append isSign (head_of_digits isWhole.digits _)]
  dsimp only
  rw [scanWhole_append isWhole afterWhole]
  dsimp only
  rw [scanFraction_append isFraction afterFraction]
  dsimp only
  rw [scanExponent_append isExponent fun c head =>
    ⟨(stop_of_ends ends c head).1, (stop_of_ends ends c head).2.1, (stop_of_ends ends c head).2.2.2⟩]

/-- Numbers start with a digit or with a sign before one, unlike the names. -/
theorem scanScalar_number {sign s : List Char} (isSign : IsSign sign)
    (digit : ∀ c ∈ s.head?, c.isDigit = true) (some : s ≠ []) :
    scanScalar float (sign ++ s) = scanNumber float (sign ++ s) := by
  cases s with
  | nil => exact absurd rfl some
  | cons d s =>
    have first := digit d rfl
    -- no name starts with a digit, with or without a sign
    have other : d ≠ 'n' ∧ d ≠ 't' ∧ d ≠ 'f' ∧ d ≠ 'N' ∧ d ≠ 'I' ∧ d ≠ '-' := by
      refine ⟨?_, ?_, ?_, ?_, ?_, ?_⟩ <;> (rintro rfl; cases first)
    rcases isSign with rfl | rfl
    all_goals
      unfold scanScalar
      split <;> simp_all

theorem head_toDigits {n : Nat} (positive : 0 < n) : (Nat.toDigits 10 n).head? ≠ some '0' := by
  induction n using Nat.strongRecOn with
  | ind n ih =>
    rcases Nat.lt_or_ge n 10 with one | more
    · rw [Nat.toDigits_of_lt_base one]
      intro zero
      have first : n.digitChar = '0' := Option.some.inj zero
      rw [Nat.digitChar_eq_zero] at first
      omega
    · rw [Nat.toDigits_of_base_le (by decide) more,
        List.head?_append_of_ne_nil _ Nat.toDigits_ne_nil]
      exact ih (n / 10) (by omega) (by omega)

theorem isWhole_toDigits (n : Nat) : IsWhole (Nat.toDigits 10 n) := by
  rcases Nat.eq_zero_or_pos n with rfl | positive
  · exact .inl rfl
  · refine .inr ⟨⟨Nat.toDigits_ne_nil, fun c member => ?_⟩, head_toDigits positive⟩
    exact Nat.isDigit_of_mem_toDigits (by decide) (by decide) member

/-- A printed integer is read back as this integer. -/
theorem scanScalar_int (n : Int) {rest : List Char} (ends : Ends rest) :
    scanScalar float (intText n ++ rest) = some (.int n, rest) := by
  have whole := isWhole_toDigits n.natAbs
  have digits := head_of_digits whole.digits rest
  have some : Nat.toDigits 10 n.natAbs ++ rest ≠ [] := by simp [Nat.toDigits_ne_nil]
  have number (sign : List Char) (isSign : IsSign sign) := scanNumber_append float
    isSign whole (.inl rfl) (.inl rfl) ends
  simp only [List.nil_append, and_self, if_true, Nat.ofDigitChars_ten_toDigits] at number
  unfold intText
  split
  -- the sign is read in front of the digits of the absolute value
  next negative =>
    have read := number ['-'] (.inr rfl)
    rw [if_neg (by decide), ← scanScalar_number (.inr rfl) digits some] at read
    rw [List.cons_append]
    rw [List.cons_append, List.nil_append] at read
    rw [read]
    congr 3
    omega
  next nonnegative =>
    have read := number [] (.inl rfl)
    rw [if_pos rfl, ← scanScalar_number (.inl rfl) digits some] at read
    rw [List.nil_append] at read
    rw [read]
    congr 3
    omega

/-- A printed float is read back as this float, by the law of the float printer. -/
theorem scanScalar_float (floats : FloatText F) {x : F} (finite : floats.finite x = true)
    {rest : List Char} (ends : Ends rest) :
    scanScalar floats.read (floats.text x ++ rest) = some (.float x, rest) := by
  obtain ⟨sign, whole, fraction, exponent, text, isSign, isWhole, isFraction, isExponent, parts⟩ :=
    floats.literal x finite
  have read := scanNumber_append floats.read isSign isWhole isFraction isExponent ends
  have whole_text : sign ++ whole ++ fraction ++ exponent = floats.text x := by
    rw [text]
    simp
  -- with a fraction or an exponent it is read as a float, from the very text that was printed
  rw [if_neg parts, whole_text, floats.read_text x finite] at read
  have digits := head_of_digits isWhole.digits (fraction ++ (exponent ++ rest))
  rw [text]
  simp only [List.append_assoc]
  rw [scanScalar_number isSign digits (by simp [isWhole.digits.1]), read]

/-! ### Strings -/

/-- One code unit before those of the rest. -/
def onUnits (n : Nat) (scanned : Option (List Nat × List Char)) : Option (List Nat × List Char) :=
  scanned.map fun (units, rest) => (n :: units, rest)

theorem scanString_quote (s : List Char) : scanString ('"' :: s) = some ([], s) := by
  rw [scanString.eq_def]
  rfl

theorem scanString_unit {a b c d : Char} {n : Nat} (known : hexUnit a b c d = some n)
    (s : List Char) :
    scanString ('\\' :: 'u' :: a :: b :: c :: d :: s) = onUnits n (scanString s) := by
  rw [scanString.eq_def]
  simp [known, onUnits]

/-- An escape that is known is one unit. -/
theorem scanString_escaped {c : Char} {n : Nat} (known : unescape c = some n) (s : List Char) :
    scanString ('\\' :: c :: s) = onUnits n (scanString s) := by
  -- a `u` begins four digits, and is no short escape
  have other : c ≠ 'u' := by
    rintro rfl
    cases known
  rw [scanString.eq_def]
  simp only [Char.reduceEq, if_false, if_true]
  split
  next same =>
    cases same
    exact absurd rfl other
  next same =>
    cases same
    rw [known]
    rfl
  next same => cases same

theorem scanString_plain {c : Char} (quote : c ≠ '"') (backslash : c ≠ '\\')
    (printable : ¬c.toNat < 0x20) (s : List Char) :
    scanString (c :: s) = onUnits c.toNat (scanString s) := by
  rw [scanString.eq_def]
  simp [quote, backslash, printable, onUnits]

theorem hexUnit_digitChar : ∀ n : Fin 0x20,
    hexUnit '0' '0' (Nat.digitChar (n / 16)) (Nat.digitChar (n % 16)) = some n.val := by decide

/-- A character is read from what is written for it. -/
theorem scanString_escape (c : Char) (s : List Char) :
    scanString (escape c ++ s) = onUnits c.toNat (scanString s) := by
  unfold escape
  split_ifs with quote backslash b t n f r control
  · rw [quote]
    exact scanString_escaped rfl s
  · rw [backslash]
    exact scanString_escaped rfl s
  · rw [b]
    exact scanString_escaped rfl s
  · rw [t]
    exact scanString_escaped rfl s
  · rw [n]
    exact scanString_escaped rfl s
  · rw [f]
    exact scanString_escaped rfl s
  · rw [r]
    exact scanString_escaped rfl s
  -- a control character without a short escape, and every other character
  · exact scanString_unit (hexUnit_digitChar ⟨c.toNat, control⟩) s
  · exact scanString_plain quote backslash control s

theorem scanString_quoted (s rest : List Char) :
    scanString (s.flatMap escape ++ '"' :: rest) = some (s.map Char.toNat, rest) := by
  induction s with
  | nil => exact scanString_quote rest
  | cons c s ih =>
    rw [List.flatMap_cons, List.append_assoc, scanString_escape, ih]
    rfl

/-- No character is a surrogate. -/
theorem not_surrogate (c : Char) : (isHigh c.toNat || isLow c.toNat) = false := by
  have valid : c.toNat < 0xd800 ∨ 0xdfff < c.toNat ∧ c.toNat < 0x110000 := c.valid
  simp only [isHigh, isLow, Bool.or_eq_false_iff, Bool.and_eq_false_iff, decide_eq_false_iff_not]
  omega

/-- Characters that were no surrogates come back as they are. -/
theorem combine_toNat (s : List Char) : combine (s.map Char.toNat) = s := by
  induction s with
  | nil => rfl
  | cons c s ih =>
    have alone := not_surrogate c
    cases s with
    | nil => simp [combine, alone, Char.ofNat_toNat]
    | cons d s =>
      -- the first of two is no high half, so no pair is taken
      have low : (isHigh c.toNat && isLow d.toNat) = false := by
        rw [Bool.or_eq_false_iff] at alone
        rw [alone.1, Bool.false_and]
      rw [List.map_cons, List.map_cons, combine, low, alone, ← List.map_cons, ih]
      simp [Char.ofNat_toNat]

/-! ### Values -/

section Values

/-- The start of a text that is neither a string nor an array nor an object. -/
def ScalarStart (s : List Char) : Prop :=
  ∃ c rest, s = c :: rest ∧ c ≠ '"' ∧ c ≠ '{' ∧ c ≠ '[' ∧ isWs c = false ∧ c ≠ ']'

/-- What begins like a number is neither a string nor a bracket. -/
theorem scalarStart_number {sign s : List Char} (isSign : IsSign sign) (some : s ≠ [])
    (digit : ∀ c ∈ s.head?, c.isDigit = true) : ScalarStart (sign ++ s) := by
  rcases isSign with rfl | rfl
  · cases s with
    | nil => exact absurd rfl some
    | cons c s =>
      have first := digit c rfl
      -- no digit is a blank
      have solid : isWs c = false := by
        by_contra ws
        simp only [isWs, Bool.not_eq_false, Bool.or_eq_true, decide_eq_true_eq] at ws
        rcases ws with ((rfl | rfl) | rfl) | rfl <;> cases first
      refine ⟨c, s, rfl, ?_, ?_, ?_, solid, ?_⟩
      all_goals
        rintro rfl
        cases first
  · exact ⟨'-', s, rfl, by decide⟩

theorem scalarStart_int (n : Int) (rest : List Char) : ScalarStart (intText n ++ rest) := by
  have whole := (isWhole_toDigits n.natAbs).digits
  have digits := head_of_digits whole rest
  have some : Nat.toDigits 10 n.natAbs ++ rest ≠ [] := by simp [whole.1]
  unfold intText
  split
  · have start := scalarStart_number (.inr rfl : IsSign ['-']) some digits
    exact start
  · have start := scalarStart_number (.inl rfl : IsSign []) some digits
    exact start

variable {numbers : FloatText F}

theorem scalarStart_float {x : F} (finite : numbers.finite x = true) (rest : List Char) :
    ScalarStart (numbers.text x ++ rest) := by
  obtain ⟨sign, whole, fraction, exponent, text, isSign, isWhole, -⟩ := numbers.literal x finite
  have digits := head_of_digits isWhole.digits (fraction ++ (exponent ++ rest))
  rw [text]
  simp only [List.append_assoc]
  exact scalarStart_number isSign (by simp [isWhole.digits.1]) digits

theorem scanOnce_scalar {s : List Char} (start : ScalarStart s) (fuel : Nat) :
    scanOnce float (fuel + 1) s = scanScalar float s := by
  obtain ⟨c, rest, rfl, quote, brace, bracket, -⟩ := start
  unfold scanOnce
  split <;> simp_all

theorem skipWs_of_solid {s : List Char} (solid : ∀ c ∈ s.head?, isWs c = false) :
    skipWs s = s := by
  cases s with
  | nil => rfl
  | cons c s => rw [skipWs, List.dropWhile_cons_of_neg (by simp [solid c rfl])]

/-- A value is read from its first character on. -/
theorem start_dumps {v : Json F} (finite : ∀ x ∈ v.floats, numbers.finite x = true)
    (rest : List Char) :
    ∀ c ∈ (dumps numbers.text v ++ rest).head?, isWs c = false ∧ c ≠ ']' := by
  have scalar {s : List Char} (start : ScalarStart s) :
      ∀ c ∈ s.head?, isWs c = false ∧ c ≠ ']' := by
    obtain ⟨c, rest, rfl, -, -, -, ws, bracket⟩ := start
    rintro _ head
    cases head
    exact ⟨ws, bracket⟩
  have first {d : Char} {s : List Char} (solid : isWs d = false ∧ d ≠ ']') :
      ∀ c ∈ (d :: s).head?, isWs c = false ∧ c ≠ ']' := by
    rintro _ head
    cases head
    exact solid
  -- what is no scalar starts with a quote or an opening bracket
  cases v with
  | null => exact first (by decide)
  | bool b => cases b <;> exact first (by decide)
  | int n => exact scalar (scalarStart_int n rest)
  | float x => exact scalar (scalarStart_float (finite x (List.mem_singleton_self x)) rest)
  | string s => exact first (by decide)
  | array items => exact first (by decide)
  | object fields => exact first (by decide)

/-- Every value has a text. -/
theorem dumps_ne_nil {v : Json F} (finite : ∀ x ∈ v.floats, numbers.finite x = true) :
    dumps numbers.text v ≠ [] := by
  have some {s : List Char} (start : ScalarStart s) : s ≠ [] := by
    obtain ⟨c, rest, rfl, -⟩ := start
    exact nofun
  cases v with
  | null => exact nofun
  | bool b => cases b <;> exact nofun
  | int n => exact some (by simpa [dumps] using scalarStart_int n [])
  | float x =>
    have start := scalarStart_float (finite x (List.mem_singleton_self x)) []
    exact some (by simpa [dumps] using start)
  | string s => exact nofun
  | array items => exact nofun
  | object fields => exact nofun

/-- What comes after an item. -/
def afterItem (text : F → List Char) : List (Json F) → List Char
  | [] => [']']
  | item :: items => ',' :: elements text (item :: items)

/-- What comes after a field. -/
def afterField (text : F → List Char) : List (String × Json F) → List Char
  | [] => ['}']
  | field :: fields => ',' :: members text (field :: fields)

theorem afterItem_cons (text : F → List Char) (v : Json F) (items : List (Json F)) :
    afterItem text (v :: items) = ',' :: elements text (v :: items) := rfl

theorem afterField_cons (text : F → List Char) (field : String × Json F)
    (fields : List (String × Json F)) :
    afterField text (field :: fields) = ',' :: members text (field :: fields) := rfl

theorem elements_cons (text : F → List Char) (v : Json F) (items : List (Json F)) :
    elements text (v :: items) = dumps text v ++ afterItem text items := by
  cases items <;> rfl

theorem members_cons (text : F → List Char) (k : String) (v : Json F)
    (fields : List (String × Json F)) :
    members text ((k, v) :: fields) =
      '"' :: (k.toList.flatMap escape ++ '"' :: ':' :: (dumps text v ++ afterField text fields)) := by
  cases fields <;> simp [members, quoted, afterField]

/-- An object ends with its brace. -/
theorem getLast?_members (text : F → List Char) (fields : List (String × Json F)) :
    (members text fields).getLast? = some '\x7d' := by
  induction fields with
  | nil => rfl
  | cons field fields ih =>
    obtain ⟨k, v⟩ := field
    -- behind a field come the other ones, or the brace
    have last : (afterField text fields).getLast? = some '\x7d' := by
      cases fields with
      | nil => rfl
      | cons field fields => rw [afterField_cons, List.getLast?_cons, ih]; rfl
    rw [members_cons]
    simp [List.getLast?_cons, List.getLast?_append, last]

theorem ends_afterItem (text : F → List Char) (items : List (Json F)) (rest : List Char) :
    Ends (afterItem text items ++ rest) := by
  cases items
  · exact ends_bracket rest
  · exact ends_comma _

theorem ends_afterField (text : F → List Char) (fields : List (String × Json F))
    (rest : List Char) : Ends (afterField text fields ++ rest) := by
  cases fields
  · exact ends_brace rest
  · exact ends_comma _

/-- What a fuel of the length of the text is enough for. -/
structure Reads (numbers : FloatText F) (fuel : Nat) : Prop where
  value (v : Json F) (rest : List Char) : (∀ x ∈ v.floats, numbers.finite x = true) →
    (dumps numbers.text v).length ≤ fuel → Ends rest →
    scanOnce numbers.read fuel (dumps numbers.text v ++ rest) = some (v, rest)
  fields (k : String) (v : Json F) (fields : List (String × Json F)) (rest : List Char) :
    (∀ x ∈ floatsOfFields ((k, v) :: fields), numbers.finite x = true) →
    (members numbers.text ((k, v) :: fields)).length ≤ fuel →
    scanMembers numbers.read fuel
      (k.toList.flatMap escape ++
        '"' :: ':' :: (dumps numbers.text v ++ (afterField numbers.text fields ++ rest))) =
      some ((k, v) :: fields, rest)
  items (v : Json F) (items : List (Json F)) (rest : List Char) :
    (∀ x ∈ floatsOfItems (v :: items), numbers.finite x = true) →
    (elements numbers.text (v :: items)).length ≤ fuel →
    scanElements numbers.read fuel
      (dumps numbers.text v ++ (afterItem numbers.text items ++ rest)) = some (v :: items, rest)

/-- A printed value is read back, when its parts are. The fuel is the length of the text, which the
parts do not exceed. -/
theorem Reads.value_succ {fuel : Nat} (reads : Reads numbers fuel) {v : Json F} {rest : List Char}
    (finite : ∀ x ∈ v.floats, numbers.finite x = true)
    (enough : (dumps numbers.text v).length ≤ fuel + 1) (ends : Ends rest) :
    scanOnce numbers.read (fuel + 1) (dumps numbers.text v ++ rest) = some (v, rest) := by
  cases v with
  | null => rfl
  | bool b => cases b <;> rfl
  | int n => exact (scanOnce_scalar (scalarStart_int n rest) fuel).trans (scanScalar_int n ends)
  | float x =>
    have isFinite := finite x (List.mem_singleton_self x)
    exact (scanOnce_scalar (scalarStart_float isFinite rest) fuel).trans
      (scanScalar_float numbers isFinite ends)
  -- the closing quote is that of the string, whatever is in it
  | string s =>
    have read := scanString_quoted s.toList rest
    simp only [dumps, quoted, List.cons_append, List.append_assoc, List.nil_append, scanOnce, read,
      Option.map_some, combine_toNat, String.ofList_toList]
  | array items =>
    cases items with
    | nil => rfl
    | cons v items =>
      have start := start_dumps (fun x member => finite x (List.mem_append_left _ member))
        (afterItem numbers.text items ++ rest)
      have read := reads.items v items rest finite (by simpa [dumps] using enough)
      simp only [dumps, elements_cons, List.cons_append, List.append_assoc, scanOnce]
      rw [skipWs_of_solid fun c head => (start c head).1]
      split
      -- no item starts with a closing bracket
      next text => exact absurd rfl (start ']' (by rw [text]; rfl)).2
      next => rw [read, Option.map_some]
  | object fields =>
    cases fields with
    | nil => rfl
    | cons field fields =>
      obtain ⟨k, v⟩ := field
      have read := reads.fields k v fields rest finite (by simpa [dumps] using enough)
      have quote (s : List Char) : skipWs ('"' :: s) = '"' :: s := rfl
      simp only [dumps, members_cons, List.cons_append, List.append_assoc, scanOnce, quote, read,
        Option.map_some]

/-- The members of an object, the first of them with its key. -/
theorem Reads.fields_succ {fuel : Nat} (reads : Reads numbers fuel) {k : String} {v : Json F}
    {fields : List (String × Json F)} {rest : List Char}
    (finite : ∀ x ∈ floatsOfFields ((k, v) :: fields), numbers.finite x = true)
    (enough : (members numbers.text ((k, v) :: fields)).length ≤ fuel + 1) :
    scanMembers numbers.read (fuel + 1)
      (k.toList.flatMap escape ++
        '"' :: ':' :: (dumps numbers.text v ++ (afterField numbers.text fields ++ rest))) =
      some ((k, v) :: fields, rest) := by
  have finiteValue : ∀ x ∈ v.floats, numbers.finite x = true := fun x member =>
    finite x (List.mem_append_left _ member)
  have start := start_dumps finiteValue (afterField numbers.text fields ++ rest)
  simp only [members_cons, List.length_cons, List.length_append] at enough
  -- the value ends where the text of the next member, or the brace, begins
  have value := reads.value v _ finiteValue (by omega) (ends_afterField numbers.text fields rest)
  have colon (s : List Char) : skipWs (':' :: s) = ':' :: s := rfl
  rw [scanMembers, scanString_quoted]
  simp only [Option.bind_eq_bind, Option.bind_some, colon,
    skipWs_of_solid fun c head => (start c head).1, value, combine_toNat, String.ofList_toList]
  cases fields with
  | nil => rfl
  | cons field fields =>
    obtain ⟨k', v'⟩ := field
    have later := reads.fields k' v' fields rest
      (fun x member => finite x (List.mem_append_right _ member))
      (by simp only [afterField_cons, List.length_cons] at enough; omega)
    have comma (s : List Char) : skipWs (',' :: s) = ',' :: s := rfl
    have quote (s : List Char) : skipWs ('"' :: s) = '"' :: s := rfl
    simp only [afterField_cons, members_cons, List.cons_append, List.append_assoc, comma, quote, later,
      Option.bind_some]

/-- The items of a list. -/
theorem Reads.items_succ {fuel : Nat} (reads : Reads numbers fuel) {v : Json F}
    {items : List (Json F)} {rest : List Char}
    (finite : ∀ x ∈ floatsOfItems (v :: items), numbers.finite x = true)
    (enough : (elements numbers.text (v :: items)).length ≤ fuel + 1) :
    scanElements numbers.read (fuel + 1)
      (dumps numbers.text v ++ (afterItem numbers.text items ++ rest)) = some (v :: items, rest) := by
  have finiteValue : ∀ x ∈ v.floats, numbers.finite x = true := fun x member =>
    finite x (List.mem_append_left _ member)
  simp only [elements_cons, List.length_append] at enough
  -- the value leaves room for what follows it, so its text is the shorter one
  have some : 0 < (afterItem numbers.text items).length := by cases items <;> exact Nat.succ_pos _
  have value := reads.value v _ finiteValue (by omega) (ends_afterItem numbers.text items rest)
  rw [scanElements, value]
  simp only [Option.bind_eq_bind, Option.bind_some]
  cases items with
  | nil => rfl
  | cons v' items =>
    have finiteItems : ∀ x ∈ floatsOfItems (v' :: items), numbers.finite x = true :=
      fun x member => finite x (List.mem_append_right _ member)
    have first := List.length_pos_iff.mpr (dumps_ne_nil finiteValue)
    -- an item has a text, so the rest is shorter too
    have later := reads.items v' items rest finiteItems
      (by simp only [afterItem_cons, List.length_cons] at enough; omega)
    have start := start_dumps (fun x member => finiteItems x (List.mem_append_left _ member))
      (afterItem numbers.text items ++ rest)
    have comma (s : List Char) : skipWs (',' :: s) = ',' :: s := rfl
    simp only [afterItem_cons, elements_cons, List.cons_append, List.append_assoc, comma,
      skipWs_of_solid fun c head => (start c head).1, later, Option.bind_some]

/-- All printed values are read back, by induction on the fuel. -/
theorem reads (numbers : FloatText F) (fuel : Nat) : Reads numbers fuel := by
  induction fuel with
  | zero =>
    constructor
    -- without fuel there is nothing to read, and every text is longer than that
    · intro v rest finite enough
      exact absurd (List.length_eq_zero_iff.mp (Nat.le_zero.mp enough)) (dumps_ne_nil finite)
    · intro k v fields rest _ enough
      rw [members_cons] at enough
      exact absurd enough (Nat.not_succ_le_zero _)
    · intro v items rest finite enough
      have first := dumps_ne_nil fun x member => finite x (List.mem_append_left _ member)
      rw [elements_cons, List.length_append, Nat.le_zero, Nat.add_eq_zero_iff] at enough
      exact absurd (List.length_eq_zero_iff.mp enough.1) first
  | succ fuel ih =>
    exact ⟨fun _ _ => ih.value_succ, fun _ _ _ _ => ih.fields_succ, fun _ _ _ => ih.items_succ⟩

/-- The text of a value is read as the value. -/
theorem loads_dumps (numbers : FloatText F) {v : Json F}
    (finite : ∀ x ∈ v.floats, numbers.finite x = true) :
    loads numbers.read (dumps numbers.text v) = some v := by
  have start := start_dumps finite []
  have read := (reads numbers ((dumps numbers.text v).length + 1)).value v [] finite (by omega)
    ends_nil
  rw [List.append_nil] at start read
  rw [loads, skipWs_of_solid fun c head => (start c head).1, read]
  rfl

end Values

end Wrkr.Lib.Json
