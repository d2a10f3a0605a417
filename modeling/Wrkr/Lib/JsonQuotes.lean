import Wrkr.Lib.JsonText

/-!
# Quotes in JSON texts

What the decoder reads is closed: outside of the strings no quote is left open (`closed_loads`),
and the keys of an object open after closed parts of its text (`opens_loads`).
-/
namespace Wrkr.Lib.Json

variable {F : Type}

/-! ### Quotes -/

/-- Where a reader of a JSON text stands. -/
inductive Quote
  | outside
  | inside
  | escaped
  deriving DecidableEq, Repr

/-- No quote and no backslash, so nothing that matters to where strings begin and end. -/
def Bare (s : List Char) : Prop := ∀ c ∈ s, c ≠ '"' ∧ c ≠ '\\'

namespace Quote

/-- One character, for a reader that only follows quotes and backslashes. -/
def step : Quote → Char → Option Quote
  | .outside, c => if c = '"' then some .inside else if c = '\\' then none else some .outside
  | .inside, c =>
    if c = '"' then some .outside else if c = '\\' then some .escaped else some .inside
  | .escaped, _ => some .inside

/-- All characters from left to right. -/
def run (q : Quote) (s : List Char) : Option Quote := s.foldlM step q

theorem run_append (q : Quote) (a b : List Char) :
    q.run (a ++ b) = (q.run a).bind fun q => q.run b := List.foldlM_append

theorem run_cons (q : Quote) (c : Char) (s : List Char) :
    q.run (c :: s) = (q.step c).bind fun q => q.run s := List.foldlM_cons

theorem step_bare {q : Quote} (unescaped : q ≠ .escaped) {c : Char} (bare : c ≠ '"' ∧ c ≠ '\\') :
    q.step c = some q := by
  obtain ⟨quote, backslash⟩ := bare
  cases q with
  | outside => rw [step, if_neg quote, if_neg backslash]
  | inside => rw [step, if_neg quote, if_neg backslash]
  | escaped => exact absurd rfl unescaped

/-- Without quotes and backslashes nothing changes. -/
theorem run_bare {q : Quote} (unescaped : q ≠ .escaped) {s : List Char} (bare : Bare s) :
    q.run s = some q := by
  induction s with
  | nil => rfl
  | cons c s ih =>
    rw [run_cons, step_bare unescaped (bare c (List.mem_cons_self ..))]
    exact ih fun d member => bare d (List.mem_cons_of_mem _ member)

end Quote

/-- A complete text: it ends outside of strings. -/
def Closed (s : List Char) : Prop := Quote.outside.run s = some .outside

theorem Closed.append {a b : List Char} (left : Closed a) (right : Closed b) : Closed (a ++ b) := by
  rw [Closed, Quote.run_append, left]
  exact right

theorem closed_bare {s : List Char} (bare : Bare s) : Closed s :=
  Quote.run_bare (q := .outside) (by decide) bare

/-! ### What the decoder reads is closed -/

theorem closed_ws (s : List Char) : ∃ ws, s = ws ++ skipWs s ∧ Closed ws := by
  refine ⟨s.takeWhile isWs, List.takeWhile_append_dropWhile.symm, closed_bare fun c member => ?_⟩
  have ws := List.mem_takeWhile_imp member
  constructor
  all_goals
    rintro rfl
    cases ws

/-- A value after white space. -/
theorem closed_skip {s rest : List Char} (read : ∃ x, skipWs s = x ++ rest ∧ Closed x) :
    ∃ x, s = x ++ rest ∧ Closed x := by
  obtain ⟨x, next, closed⟩ := read
  obtain ⟨ws, text, blank⟩ := closed_ws s
  refine ⟨ws ++ x, ?_, blank.append closed⟩
  rw [List.append_assoc, ← next]
  exact text

/-- A comma, a colon or a bracket after white space. -/
theorem closed_mark {s rest : List Char} {c : Char} (bare : c ≠ '"' ∧ c ≠ '\\')
    (next : skipWs s = c :: rest) : ∃ x, s = x ++ rest ∧ Closed x :=
  closed_skip ⟨[c], next, closed_bare fun d member => by
    rw [List.mem_singleton] at member
    exact member ▸ bare⟩

theorem onUnits_eq_some {n : Nat} {scanned : Option (List Nat × List Char)} {units : List Nat}
    {rest : List Char} (known : onUnits n scanned = some (units, rest)) :
    ∃ later, scanned = some (later, rest) ∧ units = n :: later := by
  cases scanned with
  | none => cases known
  | some read =>
    cases known
    exact ⟨read.1, rfl, rfl⟩

theorem bare_of_hexUnit {a b c d : Char} {n : Nat} (known : hexUnit a b c d = some n) :
    Bare [a, b, c, d] := by
  have quote : hexValue '"' = none := rfl
  have backslash : hexValue '\\' = none := rfl
  intro x member
  simp only [List.mem_cons, List.not_mem_nil, or_false] at member
  constructor
  all_goals
    rintro rfl
    rcases member with rfl | rfl | rfl | rfl <;> simp [hexUnit, quote, backslash] at known

/-- A string is read up to its closing quote, and its text starts with its first character unless
that is written as an escape. -/
theorem closed_string {s rest : List Char} {units : List Nat}
    (scanned : scanString s = some (units, rest)) :
    ∃ c tail, s = c :: (tail ++ rest) ∧ Quote.inside.run (c :: tail) = some .outside ∧
      (c = '"' ∨ c = '\\' ∨ units.head? = some c.toNat) := by
  induction s using scanString.induct generalizing units rest with
  | case1 =>
    rw [scanString.eq_def] at scanned
    cases scanned
  | case2 s =>
    rw [scanString_quote] at scanned
    cases scanned
    exact ⟨'"', [], rfl, rfl, .inl rfl⟩
  -- `\uXXXX`: the backslash takes the letter, the digits are bare
  | case3 a b c d s n known _ ih =>
    rw [scanString_unit known] at scanned
    obtain ⟨later, scannedLater, rfl⟩ := onUnits_eq_some scanned
    obtain ⟨e, tail, rfl, run, -⟩ := ih scannedLater
    have digits := Quote.run_bare (q := .inside) (by decide) (bare_of_hexUnit known)
    refine ⟨'\\', 'u' :: a :: b :: c :: d :: e :: tail, rfl, ?_, .inr (.inl rfl)⟩
    have whole : Quote.inside.run ('\\' :: 'u' :: ([a, b, c, d] ++ e :: tail)) = some .outside := by
      rw [Quote.run_cons, Quote.step]
      simp only [Char.reduceEq, if_false, if_true, Option.bind_some]
      rw [Quote.run_cons, Quote.step, Option.bind_some, Quote.run_append, digits]
      exact run
    exact whole
  | case4 a b c d s unknown =>
    rw [scanString.eq_def] at scanned
    simp [unknown] at scanned
  -- any other escape takes the one character after the backslash
  | case5 c s other n known _ ih =>
    rw [scanString_escaped known] at scanned
    obtain ⟨later, scannedLater, rfl⟩ := onUnits_eq_some scanned
    obtain ⟨e, tail, rfl, run, -⟩ := ih scannedLater
    exact ⟨'\\', c :: e :: tail, rfl, run, .inr (.inl rfl)⟩
  | case6 c s other unknown =>
    rw [scanString.eq_def] at scanned
    simp [unknown] at scanned
  | case7 =>
    rw [scanString.eq_def] at scanned
    cases scanned
  | case8 c s quote backslash control =>
    rw [scanString.eq_def] at scanned
    simp [quote, backslash, control] at scanned
  -- a character that stands for itself
  | case9 c s quote backslash printable ih =>
    rw [scanString_plain quote backslash printable] at scanned
    obtain ⟨later, scannedLater, rfl⟩ := onUnits_eq_some scanned
    obtain ⟨e, tail, rfl, run, -⟩ := ih scannedLater
    refine ⟨c, e :: tail, rfl, ?_, .inr (.inr rfl)⟩
    rw [Quote.run_cons, Quote.step_bare (by decide) ⟨quote, backslash⟩]
    exact run

theorem bare_digits {s : List Char} (all : ∀ c ∈ s, c.isDigit = true) : Bare s := by
  intro c member
  have digit := all c member
  constructor
  all_goals
    rintro rfl
    cases digit

theorem Bare.append {a b : List Char} (left : Bare a) (right : Bare b) : Bare (a ++ b) := by
  intro c member
  exact (List.mem_append.mp member).elim (left c) (right c)

theorem Bare.cons {c : Char} {s : List Char} (first : c ≠ '"' ∧ c ≠ '\\') (rest : Bare s) :
    Bare (c :: s) := by
  intro d member
  rcases List.mem_cons.mp member with rfl | later
  · exact first
  · exact rest d later

theorem bare_nil : Bare [] := nofun

theorem bare_scanSign (s : List Char) :
    s = (scanSign s).1 ++ (scanSign s).2 ∧ Bare (scanSign s).1 := by
  unfold scanSign
  split
  · exact ⟨rfl, bare_nil.cons (by decide)⟩
  · exact ⟨rfl, bare_nil⟩

theorem bare_scanDigits {s digits rest : List Char} (scanned : scanDigits s = some (digits, rest)) :
    s = digits ++ rest ∧ Bare digits := by
  unfold scanDigits at scanned
  split at scanned
  · cases scanned
  · cases scanned
    exact ⟨List.takeWhile_append_dropWhile.symm, bare_digits fun c => List.mem_takeWhile_imp⟩

theorem bare_scanWhole {s whole rest : List Char} (scanned : scanWhole s = some (whole, rest)) :
    s = whole ++ rest ∧ Bare whole := by
  unfold scanWhole at scanned
  split at scanned
  · cases scanned
    exact ⟨rfl, bare_nil.cons (by decide)⟩
  · exact bare_scanDigits scanned

theorem bare_scanFraction (s : List Char) :
    s = (scanFraction s).1 ++ (scanFraction s).2 ∧ Bare (scanFraction s).1 := by
  unfold scanFraction
  split
  · split
    next scanned =>
      obtain ⟨rfl, bare⟩ := bare_scanDigits scanned
      exact ⟨rfl, bare.cons (by decide)⟩
    next => exact ⟨rfl, bare_nil⟩
  · exact ⟨rfl, bare_nil⟩

theorem bare_scanExponentSign (s : List Char) :
    s = (scanExponentSign s).1 ++ (scanExponentSign s).2 ∧ Bare (scanExponentSign s).1 := by
  unfold scanExponentSign
  split
  · exact ⟨rfl, bare_nil.cons (by decide)⟩
  · exact bare_scanSign _

/-- An exponent is bare. -/
theorem bare_scanExponent (s : List Char) :
    s = (scanExponent s).1 ++ (scanExponent s).2 ∧ Bare (scanExponent s).1 := by
  unfold scanExponent
  split
  · exact ⟨rfl, bare_nil⟩
  next c s =>
    split
    next letter =>
      split
      next digits rest scanned =>
        obtain ⟨text, sign⟩ := bare_scanExponentSign s
        obtain ⟨after, bare⟩ := bare_scanDigits scanned
        refine ⟨?_, (sign.append bare).cons (by rcases letter with rfl | rfl <;> decide)⟩
        rw [List.cons_append, List.append_assoc, ← after, ← text]
      -- a letter without digits is left for whoever comes next
      next => exact ⟨rfl, bare_nil⟩
    next => exact ⟨rfl, bare_nil⟩

section Soundness

variable {float : List Char → F}

/-- A number is read from a text that begins and ends outside of strings. -/
theorem closed_number {s rest : List Char} {v : Json F}
    (scanned : scanNumber float s = some (v, rest)) : ∃ x, s = x ++ rest ∧ Closed x := by
  obtain ⟨signText, sign⟩ := bare_scanSign s
  unfold scanNumber at scanned
  dsimp only at scanned
  split at scanned
  next => cases scanned
  next whole afterWhole scannedWhole =>
    obtain ⟨wholeText, bareWhole⟩ := bare_scanWhole scannedWhole
    obtain ⟨fractionText, fraction⟩ := bare_scanFraction afterWhole
    obtain ⟨exponentText, exponent⟩ := bare_scanExponent (scanFraction afterWhole).2
    -- integer or float, the same text is consumed
    have rest_eq : rest = (scanExponent (scanFraction afterWhole).2).2 := by
      split at scanned <;> (cases scanned; rfl)
    refine ⟨(scanSign s).1 ++ (whole ++ ((scanFraction afterWhole).1 ++
      (scanExponent (scanFraction afterWhole).2).1)), ?_, closed_bare
        (sign.append (bareWhole.append (fraction.append exponent)))⟩
    rw [rest_eq]
    simp only [List.append_assoc]
    rw [← exponentText, ← fractionText, ← wholeText, ← signText]

/-- And so is every scalar. -/
theorem closed_scalar {s rest : List Char} {v : Json F}
    (scanned : scanScalar float s = some (v, rest)) : ∃ x, s = x ++ rest ∧ Closed x := by
  unfold scanScalar at scanned
  split at scanned
  · cases scanned
    exact ⟨['n', 'u', 'l', 'l'], rfl, rfl⟩
  · cases scanned
    exact ⟨['t', 'r', 'u', 'e'], rfl, rfl⟩
  · cases scanned
    exact ⟨['f', 'a', 'l', 's', 'e'], rfl, rfl⟩
  · cases scanned
    exact ⟨['N', 'a', 'N'], rfl, rfl⟩
  · cases scanned
    exact ⟨['I', 'n', 'f', 'i', 'n', 'i', 't', 'y'], rfl, rfl⟩
  · cases scanned
    exact ⟨['-', 'I', 'n', 'f', 'i', 'n', 'i', 't', 'y'], rfl, rfl⟩
  · exact closed_number scanned

/-- A key of the text opens after a closed part: its quote is followed by its first character, by
an escape or by the closing quote. -/
def Opens (x : List Char) (key : String) : Prop :=
  ∃ before c after, x = before ++ '"' :: c :: after ∧ Closed before ∧
    (c = '"' ∨ c = '\\' ∨ key.toList.head? = some c)

theorem Opens.after {x : List Char} {key : String} (opens : Opens x key) {before : List Char}
    (closed : Closed before) (rest : List Char) : Opens (before ++ (x ++ rest)) key := by
  obtain ⟨first, c, after, rfl, inner, start⟩ := opens
  refine ⟨before ++ first, c, after ++ rest, ?_, closed.append inner, start⟩
  simp

theorem head_combine (c : Char) (units : List Nat) :
    (combine (c.toNat :: units)).head? = some c := by
  have alone := not_surrogate c
  cases units with
  | nil => simp [combine, alone, Char.ofNat_toNat]
  | cons n units =>
    have noPair : (isHigh c.toNat && isLow n) = false := by
      rw [Bool.or_eq_false_iff] at alone
      rw [alone.1, Bool.false_and]
    rw [combine, noPair, alone]
    simp [Char.ofNat_toNat]

theorem head_key {c : Char} {units : List Nat} (first : units.head? = some c.toNat) :
    (String.ofList (combine units)).toList.head? = some c := by
  cases units with
  | nil => cases first
  | cons n units =>
    cases first
    rw [String.toList_ofList]
    exact head_combine c units

/-- What is read is closed, for every fuel. -/
structure Sound (float : List Char → F) (fuel : Nat) : Prop where
  value (s : List Char) (v : Json F) (rest : List Char) :
    scanOnce float fuel s = some (v, rest) → ∃ x, s = x ++ rest ∧ Closed x
  fields (s : List Char) (fields : List (String × Json F)) (rest : List Char) :
    scanMembers float fuel s = some (fields, rest) →
      ∃ x, s = x ++ rest ∧ Closed ('"' :: x) ∧ ∀ field ∈ fields, Opens ('"' :: x) field.1
  items (s : List Char) (items : List (Json F)) (rest : List Char) :
    scanElements float fuel s = some (items, rest) → ∃ x, s = x ++ rest ∧ Closed x

variable {fuel : Nat}

/-- A value, when the scanner is right about its parts. -/
theorem Sound.value_succ (sound : Sound float fuel) {s : List Char} {v : Json F} {rest : List Char}
    (scanned : scanOnce float (fuel + 1) s = some (v, rest)) : ∃ x, s = x ++ rest ∧ Closed x := by
  unfold scanOnce at scanned
  split at scanned
  next s =>
    obtain ⟨⟨units, after⟩, scanned, same⟩ := Option.map_eq_some_iff.mp scanned
    cases same
    obtain ⟨c, tail, rfl, run, -⟩ := closed_string scanned
    exact ⟨'"' :: c :: tail, rfl, run⟩
  next s =>
    split at scanned
    next peeked =>
      cases scanned
      obtain ⟨x, rfl, closed⟩ := closed_mark (by decide) peeked
      exact ⟨'{' :: x, rfl, closed⟩
    -- an object that is not empty starts with the quote of its first key
    next s' peeked =>
      obtain ⟨⟨fields, after⟩, scanned, same⟩ := Option.map_eq_some_iff.mp scanned
      cases same
      obtain ⟨x, rfl, closed, -⟩ := sound.fields _ _ _ scanned
      obtain ⟨y, rfl, inner⟩ := closed_skip ⟨'"' :: x, peeked, closed⟩
      exact ⟨'{' :: y, rfl, inner⟩
    next => cases scanned
  next s =>
    split at scanned
    next peeked =>
      cases scanned
      obtain ⟨x, rfl, closed⟩ := closed_mark (by decide) peeked
      exact ⟨'[' :: x, rfl, closed⟩
    next =>
      obtain ⟨⟨items, after⟩, scanned, same⟩ := Option.map_eq_some_iff.mp scanned
      cases same
      obtain ⟨y, rfl, inner⟩ := closed_skip (sound.items _ _ _ scanned)
      exact ⟨'[' :: y, rfl, inner⟩
  next => exact closed_scalar scanned

/-- The members of an object: after each comma the next key opens with a quote. -/
theorem Sound.fields_succ (sound : Sound float fuel) {s : List Char}
    {fields : List (String × Json F)} {rest : List Char}
    (scanned : scanMembers float (fuel + 1) s = some (fields, rest)) :
    ∃ x, s = x ++ rest ∧ Closed ('"' :: x) ∧ ∀ field ∈ fields, Opens ('"' :: x) field.1 := by
  unfold scanMembers at scanned
  obtain ⟨⟨units, afterKey⟩, scannedKey, parsed⟩ := Option.bind_eq_some_iff.mp scanned
  obtain ⟨c, tail, rfl, run, start⟩ := closed_string scannedKey
  have opens : Opens ('"' :: c :: tail) (String.ofList (combine units)) :=
    ⟨[], c, tail, rfl, rfl, start.imp_right fun start => start.imp_right head_key⟩
  dsimp only at parsed
  split at parsed
  next afterColon colon =>
    obtain ⟨gap, rfl, closedGap⟩ := closed_mark (by decide) colon
    obtain ⟨⟨value, afterValue⟩, scannedValue, tailParsed⟩ := Option.bind_eq_some_iff.mp parsed
    obtain ⟨x, rfl, closedValue⟩ := closed_skip (sound.value _ _ _ scannedValue)
    -- the text of the first member, from the opening quote of its key
    have closedField : Closed ('"' :: c :: tail ++ (gap ++ x)) :=
      Closed.append run (closedGap.append closedValue)
    dsimp only at tailParsed
    split at tailParsed
    next after brace =>
      cases tailParsed
      obtain ⟨last, rfl, closedLast⟩ := closed_mark (by decide) brace
      refine ⟨c :: (tail ++ (gap ++ (x ++ last))), by simp, ?_, ?_⟩
      · have closed := closedField.append closedLast
        simpa using closed
      · intro field member
        rw [List.mem_singleton] at member
        subst member
        exact opens.after (rfl : Closed []) (gap ++ (x ++ last))
    -- another member: its key opens behind the comma and the space
    next afterComma comma =>
      obtain ⟨last, rfl, closedLast⟩ := closed_mark (by decide) comma
      split at tailParsed
      next later quote =>
        obtain ⟨⟨others, after⟩, scannedOthers, same⟩ := Option.bind_eq_some_iff.mp tailParsed
        cases same
        obtain ⟨y, rfl, closedOthers, opensOthers⟩ := sound.fields _ _ _ scannedOthers
        obtain ⟨ws, text, blank⟩ := closed_ws afterComma
        rw [quote] at text
        subst text
        have closedBefore : Closed ('"' :: c :: tail ++ (gap ++ x) ++ (last ++ ws)) :=
          closedField.append (closedLast.append blank)
        refine ⟨c :: (tail ++ (gap ++ (x ++ (last ++ (ws ++ '"' :: y))))), ?_, ?_, ?_⟩
        · simp
        · have closed := closedBefore.append closedOthers
          simpa using closed
        · intro field member
          rcases List.mem_cons.mp member with rfl | member
          · have opened := opens.after (rfl : Closed []) (gap ++ (x ++ (last ++ (ws ++ '"' :: y))))
            simpa using opened
          · have opened := (opensOthers field member).after closedBefore []
            simpa using opened
      next => cases tailParsed
    next => cases tailParsed
  next => cases parsed

/-- The items of a list. -/
theorem Sound.items_succ (sound : Sound float fuel) {s : List Char} {items : List (Json F)}
    {rest : List Char} (scanned : scanElements float (fuel + 1) s = some (items, rest)) :
    ∃ x, s = x ++ rest ∧ Closed x := by
  unfold scanElements at scanned
  obtain ⟨⟨value, afterValue⟩, scannedValue, parsed⟩ := Option.bind_eq_some_iff.mp scanned
  obtain ⟨x, rfl, closedValue⟩ := sound.value _ _ _ scannedValue
  dsimp only at parsed
  split at parsed
  next after bracket =>
    cases parsed
    obtain ⟨last, rfl, closedLast⟩ := closed_mark (by decide) bracket
    exact ⟨x ++ last, by simp, closedValue.append closedLast⟩
  next afterComma comma =>
    obtain ⟨⟨others, after⟩, scannedOthers, same⟩ := Option.bind_eq_some_iff.mp parsed
    cases same
    obtain ⟨last, rfl, closedLast⟩ := closed_mark (by decide) comma
    obtain ⟨y, rfl, closedOthers⟩ := closed_skip (sound.items _ _ _ scannedOthers)
    exact ⟨x ++ (last ++ y), by simp, closedValue.append (closedLast.append closedOthers)⟩
  next => cases parsed

theorem sound (float : List Char → F) (fuel : Nat) : Sound float fuel := by
  induction fuel with
  | zero => exact ⟨nofun, nofun, nofun⟩
  | succ fuel ih => exact ⟨fun _ _ _ => ih.value_succ, fun _ _ _ => ih.fields_succ,
      fun _ _ _ => ih.items_succ⟩

/-- A text that is read is closed. -/
theorem closed_loads {s : List Char} {v : Json F} (loaded : loads float s = some v) : Closed s := by
  unfold loads at loaded
  split at loaded
  next rest scanned =>
    obtain ⟨x, rfl, closed⟩ := closed_skip ((sound float _).value _ _ _ scanned)
    split at loaded
    next blank =>
      obtain ⟨ws, text, closedWs⟩ := closed_ws rest
      rw [blank, List.append_nil] at text
      exact closed.append (text ▸ closedWs)
    next => cases loaded
  next => cases loaded

theorem scanScalar_ne_object {s rest : List Char} {fields : List (String × Json F)} :
    scanScalar float s ≠ some (.object fields, rest) := by
  intro scanned
  unfold scanScalar at scanned
  split at scanned
  all_goals try cases scanned
  -- a number
  unfold scanNumber at scanned
  dsimp only at scanned
  split at scanned
  · cases scanned
  · split at scanned <;> cases scanned

/-- The keys of an object that is read open in its text. -/
theorem opens_loads {s : List Char} {fields : List (String × Json F)}
    (loaded : loads float s = some (.object fields)) : ∀ field ∈ fields, Opens s field.1 := by
  obtain ⟨ws, text, blank⟩ := closed_ws s
  unfold loads at loaded
  split at loaded
  next v rest scanned =>
    split at loaded
    next =>
      cases loaded
      unfold scanOnce at scanned
      split at scanned
      next =>
        obtain ⟨_, _, same⟩ := Option.map_eq_some_iff.mp scanned
        cases same
      next inner brace =>
        split at scanned
        next =>
          cases scanned
          rintro _ ⟨⟩
        -- space and the brace come before the members
        next start =>
          obtain ⟨⟨_, after⟩, members, same⟩ := Option.map_eq_some_iff.mp scanned
          cases same
          obtain ⟨x, rfl, -, opens⟩ := (sound float _).fields _ _ _ members
          obtain ⟨gap, text', blank'⟩ := closed_ws inner
          rw [start] at text'
          intro field member
          have closedBefore : Closed (ws ++ '{' :: gap) :=
            blank.append (Closed.append (a := ['{']) rfl blank')
          have within := (opens field member).after closedBefore rest
          rw [text, brace, text']
          simpa using within
        next => cases scanned
      next =>
        split at scanned
        · cases scanned
        · obtain ⟨_, _, same⟩ := Option.map_eq_some_iff.mp scanned
          cases same
      next => exact absurd scanned scanScalar_ne_object
    next => cases loaded
  next => cases loaded

end Soundness

end Wrkr.Lib.Json
