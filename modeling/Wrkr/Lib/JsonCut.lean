import Wrkr.Lib.JsonQuotes

/-!
# Parts of a JSON text

A text of `dumps` that is cut inside of a string falls into parts of two kinds. The first ends
inside of the string and is no JSON text (`loads_of_open`). What comes after a cut may be one, but
then all its quotes have changed sides: what were strings are the gaps, and a key of an object
starts with the character that came after a string (`key_of_cut`).
-/
namespace Wrkr.Lib.Json

variable {F : Type}

/-! ### What a written text looks like -/

/-- Where the writer of a text stands; `closed` is right after a string. -/
inductive Print
  | outside
  | inside
  | escaped
  | closed
  deriving DecidableEq, Repr

/-- A character that stands outside of strings. -/
def Solid (c : Char) : Prop := 0x20 < c.toNat ∧ c.toNat < 0x7f ∧ c ≠ '"' ∧ c ≠ '\\'

instance (c : Char) : Decidable (Solid c) := inferInstanceAs (Decidable (_ ∧ _))

/-- What can follow a string. -/
def Mark (c : Char) : Prop := c = ',' ∨ c = ':' ∨ c = '}' ∨ c = ']'

instance (c : Char) : Decidable (Mark c) := inferInstanceAs (Decidable (_ ∨ _))

theorem Mark.bare {c : Char} (mark : Mark c) : c ≠ '"' ∧ c ≠ '\\' := by
  rcases mark with rfl | rfl | rfl | rfl <;> decide

namespace Print

/-- One character of a printed text. In the places where a printer never puts a character there is
no next state. -/
def step : Print → Char → Option Print
  | .outside, c => if c = '"' then some .inside else if Solid c then some .outside else none
  | .inside, c =>
    if c = '"' then some .closed
    else if c = '\\' then some .escaped
    else if c.toNat < 0x20 then none
    else some .inside
  | .escaped, c => if 0x20 < c.toNat ∧ c.toNat < 0x7f then some .inside else none
  | .closed, c => if Mark c then some .outside else none

/-- All characters of a text, from left to right. -/
def run (q : Print) (s : List Char) : Option Print := s.foldlM step q

theorem run_append (q : Print) (a b : List Char) :
    q.run (a ++ b) = (q.run a).bind fun q => q.run b := List.foldlM_append

theorem run_cons (q : Print) (c : Char) (s : List Char) :
    q.run (c :: s) = (q.step c).bind fun q => q.run s := List.foldlM_cons

theorem run_solid {s : List Char} (solid : ∀ c ∈ s, Solid c) : outside.run s = some .outside := by
  induction s with
  | nil => rfl
  | cons c s ih =>
    have first := solid c (List.mem_cons_self ..)
    rw [run_cons, step, if_neg first.2.2.1, if_pos first]
    exact ih fun d member => solid d (List.mem_cons_of_mem _ member)

theorem solid_word {s : List Char} (all : s.all (fun c => decide (Solid c)) = true) :
    ∀ c ∈ s, Solid c := by simpa using all

theorem solid_digit {c : Char} (digit : c.isDigit = true) : Solid c := by
  have range : 48 ≤ c.toNat ∧ c.toNat ≤ 57 := by
    simpa [Char.isDigit, UInt32.le_iff_toNat_le] using digit
  refine ⟨by omega, by omega, ?_, ?_⟩
  all_goals
    rintro rfl
    cases digit

theorem run_escape (c : Char) : inside.run (escape c) = some .inside := by
  unfold escape
  split_ifs with quote backslash b t n f r control
  any_goals rfl
  · have digits : ∀ n : Fin 0x20, inside.run
        ['\\', 'u', '0', '0', Nat.digitChar (n / 16), Nat.digitChar (n % 16)] = some .inside := by
      decide
    exact digits ⟨c.toNat, control⟩
  · rw [run_cons, step, if_neg quote, if_neg backslash, if_neg control]
    rfl

theorem run_flatMap_escape (s : List Char) : inside.run (s.flatMap escape) = some .inside := by
  induction s with
  | nil => rfl
  | cons c s ih =>
    rw [List.flatMap_cons, run_append, run_escape]
    exact ih

theorem run_quoted (s : String) : outside.run (quoted s) = some .closed := by
  have start : outside.step '"' = some inside := rfl
  rw [quoted, run_cons, start, Option.bind_some, run_append, run_flatMap_escape]
  rfl

theorem solid_digits {s : List Char} (digits : Digits s) : ∀ c ∈ s, Solid c :=
  fun c member => solid_digit (digits.2 c member)

theorem solid_sign {s : List Char} (isSign : IsSign s) : ∀ c ∈ s, Solid c := by
  rcases isSign with rfl | rfl
  · exact nofun
  · simp only [List.mem_singleton, forall_eq]
    decide

/-- The text of a number has no other characters. -/
theorem solid_literal {s : List Char} (literal : FloatLiteral s) : ∀ c ∈ s, Solid c := by
  obtain ⟨sign, whole, fraction, exponent, rfl, isSign, isWhole, isFraction, isExponent, -⟩ := literal
  have inFraction : ∀ c ∈ fraction, Solid c := by
    rcases isFraction with rfl | ⟨digits, rfl, all⟩
    · exact nofun
    · intro c member
      rcases List.mem_cons.mp member with rfl | digit
      · decide
      · exact solid_digits all c digit
  -- the letter, the sign and the digits of the exponent
  have inExponent : ∀ c ∈ exponent, Solid c := by
    rcases isExponent with rfl | ⟨letter, sign, digits, rfl, isLetter, isSign, all⟩
    · exact nofun
    · have inSign : ∀ c ∈ sign, Solid c := by
        rcases isSign with rfl | isSign
        · simp only [List.mem_singleton, forall_eq]
          decide
        · exact solid_sign isSign
      intro c member
      rcases List.mem_cons.mp member with rfl | later
      · rcases isLetter with rfl | rfl <;> decide
      · exact (List.mem_append.mp later).elim (inSign c) (solid_digits all c)
  intro c member
  simp only [List.mem_append] at member
  rcases member with member | member | member | member
  · exact solid_sign isSign c member
  · exact solid_digits isWhole.digits c member
  · exact inFraction c member
  · exact inExponent c member

theorem solid_intText (n : Int) : ∀ c ∈ intText n, Solid c := by
  have digits := solid_digits (isWhole_toDigits n.natAbs).digits
  unfold intText
  split
  · intro c member
    rcases List.mem_cons.mp member with rfl | digit
    · decide
    · exact digits c digit
  · exact digits

/-- After a value the writer is outside of strings. -/
def Ended (q : Option Print) : Prop := q = some outside ∨ q = some closed

theorem Ended.mark {s : List Char} (ended : Ended (outside.run s)) {c : Char}
    (mark : c = ',' ∨ c = '}' ∨ c = ']') (rest : List Char) :
    outside.run (s ++ c :: rest) = outside.run rest := by
  rw [run_append]
  rcases ended with ended | ended
  all_goals
    rw [ended, Option.bind_some, run_cons]
    rcases mark with rfl | rfl | rfl <;> rfl

variable {numbers : FloatText F}

mutual

/-- A printed value ends outside of every string, or as a closed one: for all kinds of values
together, by recursion over them. -/
theorem ended_dumps (v : Json F) (finite : ∀ x ∈ v.floats, numbers.finite x = true) :
    Ended (outside.run (dumps numbers.text v)) := by
  match v with
  | .null => exact .inl rfl
  | .bool true => exact .inl rfl
  | .bool false => exact .inl rfl
  | .int n => exact .inl (run_solid (solid_intText n))
  | .float x =>
    have literal := numbers.literal x (finite x (List.mem_singleton_self x))
    exact .inl (run_solid (solid_literal literal))
  | .string s => exact .inr (run_quoted s)
  | .array items => exact .inl (run_elements items finite)
  | .object fields => exact .inl (run_members fields finite)

theorem run_elements (items : List (Json F))
    (finite : ∀ x ∈ floatsOfItems items, numbers.finite x = true) :
    outside.run (elements numbers.text items) = some outside := by
  match items with
  | [] => rfl
  | v :: rest =>
    have ended := ended_dumps v fun x member => finite x (List.mem_append_left _ member)
    have later := run_elements rest fun x member => finite x (List.mem_append_right _ member)
    rw [elements_cons]
    cases rest with
    | nil => exact ended.mark (.inr (.inr rfl)) []
    | cons w rest => exact (ended.mark (.inl rfl) _).trans later

/-- The members of an object come back to the outside. -/
theorem run_members (fields : List (String × Json F))
    (finite : ∀ x ∈ floatsOfFields fields, numbers.finite x = true) :
    outside.run (members numbers.text fields) = some outside := by
  match fields with
  | [] => rfl
  | (k, v) :: rest =>
    have ended := ended_dumps v fun x member => finite x (List.mem_append_left _ member)
    have later := run_members rest fun x member => finite x (List.mem_append_right _ member)
    have key (s : List Char) : outside.run (quoted k ++ ':' :: s) = outside.run s := by
      rw [run_append, run_quoted]
      rfl
    cases rest with
    | nil => exact (key _).trans (ended.mark (.inr (.inl rfl)) [])
    | cons field rest => exact ((key _).trans (ended.mark (.inl rfl) _)).trans later

end

/-! ### Characters that only strings have -/

section Members

variable {c : Char} (high : 0x7f ≤ c.toNat)

include high

theorem ne_of_high {d : Char} (low : d.toNat < 0x7f) : c ≠ d := by
  rintro rfl
  omega

theorem not_mem_of_solid {s : List Char} (solid : ∀ c ∈ s, Solid c) : c ∉ s := fun member => by
  have := (solid c member).2.1
  omega

/-- Escaping keeps a character that needs no escape, and brings in no other that could be mistaken
for it. -/
theorem mem_escape {d : Char} : c ∈ escape d ↔ c = d := by
  rcases Nat.lt_or_ge d.toNat 0x7f with low | high'
  · -- neither the character nor what is written for it is `c`
    have written : ∀ n : Fin 0x7f,
        (escape (Char.ofNat n)).all (fun x => decide (x.toNat < 0x7f)) = true := by decide
    have inEscape : ∀ x ∈ escape d, x.toNat < 0x7f := by
      simpa [Char.ofNat_toNat] using written ⟨d.toNat, low⟩
    constructor
    · intro member
      exact absurd (inEscape c member) (Nat.not_lt.mpr high)
    · rintro rfl
      exact absurd low (Nat.not_lt.mpr high)
  · have quote : d ≠ '"' := ne_of_high high' (by decide)
    have backslash : d ≠ '\\' := ne_of_high high' (by decide)
    have plain : escape d = [d] := by
      rw [escape, if_neg quote, if_neg backslash]
      repeat rw [if_neg (by omega)]
    rw [plain, List.mem_singleton]

theorem mem_quoted {s : String} : c ∈ quoted s ↔ c ∈ s.toList := by
  have quote : c ≠ '"' := ne_of_high high (by decide)
  simp [quoted, quote, mem_escape high]

variable {numbers : FloatText F}

mutual

/-- What is outside of ASCII comes from the strings of the value. -/
theorem mem_dumps (v : Json F) (finite : ∀ x ∈ v.floats, numbers.finite x = true) :
    c ∈ dumps numbers.text v ↔ ∃ s ∈ v.strings, c ∈ s.toList := by
  have none_ {s : List Char} (solid : ∀ c ∈ s, Solid c) :
      c ∈ s ↔ ∃ s ∈ ([] : List String), c ∈ s.toList := by
    simp [not_mem_of_solid high solid]
  match v with
  | .null => exact none_ (solid_word (s := ['n', 'u', 'l', 'l']) rfl)
  | .bool true => exact none_ (solid_word (s := ['t', 'r', 'u', 'e']) rfl)
  | .bool false => exact none_ (solid_word (s := ['f', 'a', 'l', 's', 'e']) rfl)
  -- scalars are written in ASCII
  | .int n => exact none_ (solid_intText n)
  | .float x =>
    exact none_ (solid_literal (numbers.literal x (finite x (List.mem_singleton_self x))))
  | .string s => simp [dumps, strings, mem_quoted high]
  | .array items =>
    have bracket : c ≠ '[' := ne_of_high high (by decide)
    have inner := mem_elements items finite
    simpa [dumps, strings, bracket] using inner
  | .object fields =>
    have brace : c ≠ '\x7b' := ne_of_high high (by decide)
    have inner := mem_members fields finite
    simpa [dumps, strings, brace] using inner

/-- A character that is foreign to the syntax is in a list exactly if it is in one of its
strings. -/
theorem mem_elements (items : List (Json F))
    (finite : ∀ x ∈ floatsOfItems items, numbers.finite x = true) :
    c ∈ elements numbers.text items ↔ ∃ s ∈ stringsOfItems items, c ∈ s.toList := by
  have bracket : c ≠ ']' := ne_of_high high (by decide)
  have comma : c ≠ ',' := ne_of_high high (by decide)
  match items with
  | [] => simp [elements, stringsOfItems, bracket]
  | v :: rest =>
    have first := mem_dumps v fun x member => finite x (List.mem_append_left _ member)
    have later := mem_elements rest fun x member => finite x (List.mem_append_right _ member)
    rw [elements_cons, List.mem_append, first]
    cases rest with
    | nil => simp [afterItem, stringsOfItems, bracket]
    | cons w rest =>
      rw [afterItem_cons, List.mem_cons, later]
      simp [comma, stringsOfItems, or_and_right, exists_or]

/-- The same of an object, keys included. -/
theorem mem_members (fields : List (String × Json F))
    (finite : ∀ x ∈ floatsOfFields fields, numbers.finite x = true) :
    c ∈ members numbers.text fields ↔ ∃ s ∈ stringsOfFields fields, c ∈ s.toList := by
  -- none of the marks is the character
  have brace : c ≠ '\x7d' := ne_of_high high (by decide)
  have comma : c ≠ ',' := ne_of_high high (by decide)
  have colon : c ≠ ':' := ne_of_high high (by decide)
  match fields with
  | [] => simp [members, stringsOfFields, brace]
  | (k, v) :: rest =>
    have key := mem_quoted high (s := k)
    have first := mem_dumps v fun x member => finite x (List.mem_append_left _ member)
    have later := mem_members rest fun x member => finite x (List.mem_append_right _ member)
    cases rest with
    | nil => simp [members, key, first, colon, brace, stringsOfFields]
    | cons field rest =>
      rw [members, List.mem_append, key, List.mem_cons, List.mem_append, first, List.mem_cons, later]
      simp [comma, colon, stringsOfFields, or_and_right, exists_or]

end

end Members

/-! ### Cuts -/

/-- Characters that are written inside of strings only, if at all. -/
def Foreign (c : Char) : Prop := c.toNat ≤ 0x20 ∨ 0x7f ≤ c.toNat

/-- A character that is foreign to the syntax only occurs inside of a string. -/
theorem step_foreign {q q' : Print} {c : Char} (foreign : Foreign c)
    (next : q.step c = some q') : q = inside ∧ q' = inside := by
  have other {d : Char} (visible : 0x20 < d.toNat ∧ d.toNat < 0x7f) : c ≠ d := by
    rintro rfl
    rw [Foreign] at foreign
    omega
  have quote : c ≠ '"' := other (by decide)
  have backslash : c ≠ '\\' := other (by decide)
  cases q with
  | outside =>
    -- outside of strings only visible ASCII is printed
    have hidden : ¬Solid c := fun solid => other ⟨solid.1, solid.2.1⟩ rfl
    rw [step, if_neg quote, if_neg hidden] at next
    cases next
  | inside =>
    rw [step, if_neg quote, if_neg backslash] at next
    split at next
    · cases next
    · cases next
      exact ⟨rfl, rfl⟩
  | escaped =>
    rw [step, if_neg fun visible => other visible rfl] at next
    cases next
  | closed =>
    have noMark : ¬Mark c := by
      rintro (rfl | rfl | rfl | rfl) <;> exact other (by decide) rfl
    rw [step, if_neg noMark] at next
    cases next

/-- No control character is ever printed. -/
theorem not_control {q q' : Print} {s : List Char} (run : q.run s = some q') :
    ∀ c ∈ s, ¬c.toNat < 0x20 := by
  induction s generalizing q with
  | nil => exact nofun
  | cons c s ih =>
    rw [run_cons] at run
    obtain ⟨q₁, next, run⟩ := Option.bind_eq_some_iff.mp run
    intro d member
    rcases List.mem_cons.mp member with rfl | member
    · intro control
      -- a control character could only be in a string, where it is escaped
      obtain ⟨rfl, rfl⟩ := step_foreign (.inl control.le) next
      have quote : d ≠ '"' := by
        rintro rfl
        exact absurd control (by decide)
      have backslash : d ≠ '\\' := by
        rintro rfl
        exact absurd control (by decide)
      rw [step, if_neg quote, if_neg backslash, if_pos control] at next
      cases next
    · exact ih run d member

section Parts

variable {p : Char → Bool} (foreign : ∀ c, p c = true → Foreign c) {q q' : Print} {s : List Char}

include foreign in
theorem run_of_forall (all : ∀ c ∈ s, p c = true) (run : q.run s = some q') : q' = q := by
  induction s with
  | nil => exact (Option.some.inj run).symm
  | cons c s ih =>
    rw [run_cons] at run
    obtain ⟨q₁, next, run⟩ := Option.bind_eq_some_iff.mp run
    obtain ⟨rfl, rfl⟩ := step_foreign (foreign c (all c (List.mem_cons_self ..))) next
    exact ih (fun d member => all d (List.mem_cons_of_mem _ member)) run

include foreign in
/-- Trimming takes away characters of strings only. -/
theorem run_trim (run : q.run s = some q') :
    q.run ((s.dropWhile p).rdropWhile p) = some q' := by
  have left : q.run (s.dropWhile p) = some q' := by
    have text := List.takeWhile_append_dropWhile (p := p) (l := s)
    rw [← text, run_append] at run
    obtain ⟨q₁, blank, run⟩ := Option.bind_eq_some_iff.mp run
    rw [run_of_forall foreign (fun c => List.mem_takeWhile_imp) blank] at run
    exact run
  have text := List.rdropWhile_append_rtakeWhile (p := p) (l := s.dropWhile p)
  rw [← text, run_append] at left
  obtain ⟨q₁, kept, run⟩ := Option.bind_eq_some_iff.mp left
  rw [kept, run_of_forall foreign (fun c => List.mem_rtakeWhile_imp) run]

include foreign in
/-- A text cut at characters that stand inside of strings: a part that is not the whole text ends
inside if it is the first, and starts inside otherwise. -/
theorem run_splitOnP (run : q.run s = some q') :
    ∃ first others, s.splitOnP p = first :: others ∧
      ((∃ c ∈ s, p c = true) → q.run first = some inside) ∧
      ∀ part ∈ others, ∃ q, inside.run part = some q := by
  induction s generalizing q with
  | nil => exact ⟨[], [], rfl, nofun, nofun⟩
  | cons c s ih =>
    rw [run_cons] at run
    obtain ⟨q₁, next, run⟩ := Option.bind_eq_some_iff.mp run
    obtain ⟨first, others, parts, open_, later⟩ := ih run
    rw [List.splitOnP_cons_eq_if_modifyHead, parts]
    cases cut : p c with
    | true =>
      obtain ⟨rfl, rfl⟩ := step_foreign (foreign c cut) next
      refine ⟨[], first :: others, rfl, fun _ => rfl, fun part member => ?_⟩
      rcases List.mem_cons.mp member with rfl | member
      · by_cases more : ∃ c ∈ s, p c = true
        · exact ⟨_, open_ more⟩
        · -- the last cut: the rest is one part
          have whole : s.splitOnP p = [s] := List.splitOnP_eq_singleton fun c member =>
            Bool.eq_false_iff.mpr fun cut => more ⟨c, member, cut⟩
          rw [whole] at parts
          cases parts
          exact ⟨_, run⟩
      · exact later part member
    -- the character belongs to the first part
    | false =>
      refine ⟨c :: first, others, rfl, ?_, later⟩
      rintro ⟨d, member, cut'⟩
      rw [run_cons, next]
      rcases List.mem_cons.mp member with rfl | member
      · rw [cut] at cut'
        cases cut'
      · exact open_ ⟨d, member, cut'⟩

end Parts

/-! ### What the decoder makes of the parts -/

/-- Where a reader from the start stands. -/
def seen : Print → Quote
  | .outside | .closed => .outside
  | .inside => .inside
  | .escaped => .escaped

/-- What a reader that knows only quotes and backslashes has seen of a step. -/
theorem step_seen {q q' : Print} {c : Char} (next : q.step c = some q') :
    q.seen.step c = some q'.seen := by
  cases q with
  -- what is printed outside is a quote, a mark or solid, and a mark is bare
  | outside =>
    rw [step] at next
    split at next
    next quote =>
      cases next
      exact quote ▸ rfl
    next =>
      split at next
      next solid =>
        cases next
        exact Quote.step_bare (by decide) solid.2.2
      next => cases next
  | inside =>
    rw [step] at next
    split at next
    next quote =>
      cases next
      exact quote ▸ rfl
    next quote =>
      split at next
      next backslash =>
        cases next
        exact backslash ▸ rfl
      next backslash =>
        split at next
        · cases next
        · cases next
          exact Quote.step_bare (by decide) ⟨quote, backslash⟩
  | escaped =>
    rw [step] at next
    split at next
    · cases next
      rfl
    · cases next
  | closed =>
    rw [step] at next
    split at next
    next mark =>
      cases next
      exact Quote.step_bare (by decide) mark.bare
    next => cases next

theorem run_seen {q q' : Print} {s : List Char} (run : q.run s = some q') :
    q.seen.run s = some q'.seen := by
  induction s generalizing q with
  | nil =>
    cases run
    rfl
  | cons c s ih =>
    rw [run_cons] at run
    obtain ⟨q₁, next, run⟩ := Option.bind_eq_some_iff.mp run
    rw [Quote.run_cons, step_seen next]
    exact ih run

/-- Where a reader stands that takes the inside of a string for the outside. -/
def flipped : Print → Option Quote
  | .outside | .closed => some .inside
  | .inside => some .outside
  | .escaped => none

/-- A reader that starts in the wrong place has inside and outside the wrong way round, and stays
so, unless it is between a backslash and what it escapes. -/
theorem step_flipped {q q' : Print} {r r' : Quote} {c : Char} (same : q.flipped = some r)
    (next : q.step c = some q') (next' : r.step c = some r') : q'.flipped = some r' := by
  cases q with
  | outside =>
    cases same
    rw [step] at next
    split at next
    next quote =>
      subst quote
      cases next
      exact next'
    next =>
      split at next
      next solid =>
        cases next
        rw [Quote.step_bare (by decide) solid.2.2] at next'
        exact next'
      next => cases next
  | inside =>
    cases same
    rw [step] at next
    split at next
    next quote =>
      subst quote
      cases next
      exact next'
    next quote =>
      split at next
      next backslash =>
        -- a backslash does not stand outside of strings
        subst backslash
        cases next'
      next backslash =>
        split at next
        · cases next
        · cases next
          rw [Quote.step_bare (by decide) ⟨quote, backslash⟩] at next'
          exact next'
  | escaped => cases same
  | closed =>
    cases same
    rw [step] at next
    split at next
    next mark =>
      cases next
      rw [Quote.step_bare (by decide) mark.bare] at next'
      exact next'
    next => cases next

/-- The same over a whole text. -/
theorem run_flipped {q q' : Print} {r r' : Quote} {s : List Char} (same : q.flipped = some r)
    (run : q.run s = some q') (run' : r.run s = some r') : q'.flipped = some r' := by
  induction s generalizing q r with
  | nil =>
    cases run
    cases run'
    exact same
  | cons c s ih =>
    rw [run_cons] at run
    rw [Quote.run_cons] at run'
    obtain ⟨q₁, next, run⟩ := Option.bind_eq_some_iff.mp run
    obtain ⟨r₁, next', run'⟩ := Option.bind_eq_some_iff.mp run'
    exact ih (step_flipped same next next') run run'

end Print

variable {float : List Char → F}

/-- A part that ends inside of a string is no JSON text. -/
theorem loads_of_open {s : List Char} (run : Print.outside.run s = some .inside) :
    loads float s = none := by
  cases loaded : loads float s with
  | none => rfl
  | some v =>
    have closed : Quote.outside.run s = some .outside := closed_loads loaded
    have open_ : Quote.outside.run s = some .inside := Print.run_seen run
    rw [open_] at closed
    cases closed

/-- The keys of an object that is read from a part that starts inside of a string. -/
theorem key_of_cut {s : List Char} {q : Print} (run : Print.inside.run s = some q)
    {fields : List (String × Json F)} (loaded : loads float s = some (.object fields)) :
    ∀ field ∈ fields, ∃ c, field.1.toList.head? = some c ∧ Mark c := by
  intro field member
  obtain ⟨before, c, after, rfl, closed, start⟩ := opens_loads loaded field member
  rw [Print.run_append] at run
  obtain ⟨q₁, first, run⟩ := Option.bind_eq_some_iff.mp run
  have flipped := Print.run_flipped (q := .inside) rfl first closed
  have inside : q₁ = .inside := by
    cases q₁ <;> first | rfl | cases flipped
  subst inside
  -- the quote that opens the key closes a string
  rw [Print.run_cons] at run
  obtain ⟨q₂, next, run⟩ := Option.bind_eq_some_iff.mp run
  cases next
  rw [Print.run_cons] at run
  obtain ⟨q₃, next, run⟩ := Option.bind_eq_some_iff.mp run
  have mark : Mark c := by
    by_contra other
    rw [Print.step, if_neg other] at next
    cases next
  rcases start with rfl | rfl | start
  · exact absurd mark (by decide)
  · exact absurd mark (by decide)
  · exact ⟨c, start, mark⟩

end Wrkr.Lib.Json
