import Mathlib.Data.List.Forall2
import Wrkr.Lib.Text

/-!
# Tokens with whitespace around them

A text is `Spaced` over a list of tokens when it is their concatenation with any whitespace before,
between and after them. How a text splits at a delimiter is then read off its tokens: trimming
leaves a token alone, and the parts of a text between separators are spaced over the tokens between
them.
-/
namespace Wrkr.Lib.Text

/-- Nothing but white space. -/
def Blank (s : List Char) : Prop := ∀ c ∈ s, isWhitespace c = true

instance (s : List Char) : Decidable (Blank s) :=
  List.decidableBAll (isWhitespace · = true) s

theorem Blank.append {s t : List Char} (left : Blank s) (right : Blank t) : Blank (s ++ t) := by
  intro c member
  rcases List.mem_append.mp member with inLeft | inRight
  · exact left c inLeft
  · exact right c inRight

theorem Blank.not_mem {s : List Char} (blank : Blank s) {c : Char}
    (solid : isWhitespace c = false) : c ∉ s := by
  intro member
  rw [blank c member] at solid
  cases solid

/-- Trimming drops what is blank at both ends. -/
theorem trim_pad {w w' s : List Char} (left : Blank w) (right : Blank w') (tight : Tight s) :
    trim (w ++ s ++ w') = s := by
  have reversed : ∀ c ∈ w'.reverse, isWhitespace c = true :=
    fun c member => right c (List.mem_reverse.mp member)
  rw [trim, List.append_assoc, List.dropWhile_append_of_pos left]
  cases s with
  | nil =>
    rw [List.nil_append, List.dropWhile_eq_nil_iff.mpr right]
    rfl
  | cons c s =>
    -- the blank at the front ends at `c`, the one at the back before the last character
    have first : isWhitespace c = false := tight.1 c rfl
    rw [List.cons_append, List.dropWhile_cons_of_neg (by simp [first]), List.rdropWhile,
      ← List.cons_append, List.reverse_append, List.dropWhile_append_of_pos reversed]
    exact List.rdropWhile_eq_self_iff.mpr fun some =>
      by simpa using tight.2 _ (List.getLast?_eq_some_getLast some)

theorem exists_pad (s : List Char) : ∃ w w', Blank w ∧ Blank w' ∧ s = w ++ trim s ++ w' := by
  refine ⟨s.takeWhile isWhitespace, (s.dropWhile isWhitespace).rtakeWhile isWhitespace,
    fun c => List.mem_takeWhile_imp, fun c => List.mem_rtakeWhile_imp, ?_⟩
  rw [trim, List.append_assoc, List.rdropWhile_append_rtakeWhile, List.takeWhile_append_dropWhile]

/-- The tokens in order, with any whitespace around them. -/
inductive Spaced : List (List Char) → List Char → Prop
  | nil {w : List Char} (blank : Blank w) : Spaced [] w
  | cons {w token rest : List Char} {tokens : List (List Char)} (blank : Blank w)
      (spaced : Spaced tokens rest) : Spaced (token :: tokens) (w ++ token ++ rest)

namespace Spaced

variable {tokens tokens' : List (List Char)} {s s' : List Char}

theorem pad {w : List Char} (blank : Blank w) (spaced : Spaced tokens s) :
    Spaced tokens (w ++ s) := by
  cases spaced with
  | nil blank' => exact .nil (blank.append blank')
  | cons blank' rest =>
    rw [← List.append_assoc, ← List.append_assoc]
    exact .cons (blank.append blank') rest

theorem append (left : Spaced tokens s) (right : Spaced tokens' s') :
    Spaced (tokens ++ tokens') (s ++ s') := by
  induction left with
  | nil blank => exact right.pad blank
  | cons blank _ ih =>
    rw [List.append_assoc]
    exact .cons blank ih

/-- Whitespace between two runs of tokens can be given to the second. -/
theorem of_append (spaced : Spaced (tokens ++ tokens') s) :
    ∃ left right, s = left ++ right ∧ Spaced tokens left ∧ Spaced tokens' right := by
  induction tokens generalizing s with
  | nil => exact ⟨[], s, rfl, .nil (by simp [Blank]), spaced⟩
  | cons token tokens ih =>
    cases spaced with
    | cons blank rest =>
      obtain ⟨left, right, rfl, isLeft, isRight⟩ := ih rest
      exact ⟨_, right, (List.append_assoc ..).symm, .cons blank isLeft, isRight⟩

/-- A text made of whitespace and a token, again and again. -/
theorem of_padded {padded : List (List Char × List Char)} {w : List Char}
    (blank : ∀ p ∈ padded, Blank p.1) (blank' : Blank w) :
    Spaced (padded.map Prod.snd) ((padded.flatMap fun p => p.1 ++ p.2) ++ w) := by
  induction padded with
  | nil => exact .nil blank'
  | cons p padded ih =>
    rw [List.forall_mem_cons] at blank
    rw [List.map_cons, List.flatMap_cons, List.append_assoc]
    exact .cons blank.1 (ih blank.2)

theorem token (t : List Char) : Spaced [t] t := by
  have empty : Blank [] := by simp [Blank]
  have spaced : Spaced [t] ([] ++ t ++ []) := .cons empty (.nil empty)
  simpa using spaced

theorem trim_nil (spaced : Spaced [] s) : trim s = [] := by
  cases spaced with
  | nil blank =>
    simpa using trim_pad (w := []) (by simp [Blank]) blank (s := []) (by simp [Tight])

theorem trim_singleton {t : List Char} (tight : Tight t) (spaced : Spaced [t] s) : trim s = t := by
  cases spaced with
  | cons blank rest =>
    cases rest with
    | nil blank' => exact trim_pad blank blank' tight

/-- Trimming stops at the outer tokens. -/
theorem trim_ends {first last : List Char} (left : Tight first) (right : Tight last)
    (nonempty : first ≠ []) (nonempty' : last ≠ [])
    (spaced : Spaced (first :: (tokens ++ [last])) s) :
    ∃ inner, Spaced tokens inner ∧ trim s = first ++ inner ++ last := by
  cases spaced with
  | @cons w _ _ _ blank rest =>
  obtain ⟨inner, tail, rfl, isInner, isTail⟩ := rest.of_append
  cases isTail with
  | @cons w' _ _ _ blank' ending =>
  cases ending with
  | @nil w'' blank'' =>
  have isPadded : Spaced tokens (inner ++ w') := by simpa using isInner.append (.nil blank')
  refine ⟨inner ++ w', isPadded, ?_⟩
  -- the outer characters are those of the outer tokens
  have tight : Tight (first ++ (inner ++ w') ++ last) := by
    constructor
    · rw [List.append_assoc, List.head?_append_of_ne_nil _ nonempty]
      exact left.1
    · rw [List.getLast?_append_of_ne_nil _ nonempty']
      exact right.2
  have padded := trim_pad blank blank'' tight
  simpa using padded

/-- What is cut off by trimming is whitespace around the tokens. -/
theorem of_trim (spaced : Spaced tokens (trim s)) : Spaced tokens s := by
  obtain ⟨w, w', blank, blank', split⟩ := exists_pad s
  have padded := (spaced.pad blank).append (.nil blank')
  rwa [List.append_nil, ← split] at padded

/-- A character that is neither whitespace nor in a token does not occur. -/
theorem not_mem {c : Char} (solid : isWhitespace c = false) (absent : ∀ t ∈ tokens, c ∉ t)
    (spaced : Spaced tokens s) : c ∉ s := by
  induction spaced with
  | nil blank => exact blank.not_mem solid
  | cons blank _ ih =>
    simp only [List.forall_mem_cons] at absent
    simp [blank.not_mem solid, absent.1, ih absent.2]

theorem not_mem_texts {c : Char} {parts : List (List (List Char))} {texts : List (List Char)}
    (solid : isWhitespace c = false) (absent : ∀ part ∈ parts, ∀ t ∈ part, c ∉ t)
    (spaced : List.Forall₂ Spaced parts texts) : ∀ text ∈ texts, c ∉ text := by
  induction spaced with
  | nil => simp
  | cons isText _ ih =>
    simp only [List.forall_mem_cons] at absent ⊢
    exact ⟨isText.not_mem solid absent.1, ih absent.2⟩

/-- A text with separators consists of texts between them. -/
theorem intercalate_iff {c : Char} {parts : List (List (List Char))} (some : parts ≠ []) :
    Spaced ([[c]].intercalate parts) s ↔
      ∃ texts, s = [c].intercalate texts ∧ List.Forall₂ Spaced parts texts := by
  induction parts generalizing s with
  | nil => exact absurd rfl some
  | cons part parts ih =>
    by_cases last : parts = []
    · subst last
      simp only [List.intercalate_singleton, List.forall₂_cons_left_iff, List.forall₂_nil_left_iff]
      constructor
      · exact fun spaced => ⟨[s], by simp, s, [], spaced, rfl, rfl⟩
      · rintro ⟨_, rfl, text, _, spaced, rfl, rfl⟩
        simpa using spaced
    · rw [List.intercalate_cons_of_ne_nil last]
      constructor
      · intro spaced
        obtain ⟨front, rest, rfl, isFront, isRest⟩ := spaced.of_append
        obtain ⟨text, separator, rfl, isText, isSeparator⟩ := isFront.of_append
        cases isSeparator with
        | @cons w _ _ _ blank ending =>
        cases ending with
        | @nil w' blank' =>
        -- the whitespace around the separator belongs to the texts on its two sides
        obtain ⟨texts, split, spacedTexts⟩ := (ih last).mp (isRest.pad blank')
        have isPart : Spaced part (text ++ w) := by
          simpa using isText.append (.nil blank)
        have more : texts ≠ [] := by
          rintro rfl
          exact last (List.forall₂_nil_right_iff.mp spacedTexts)
        refine ⟨(text ++ w) :: texts, ?_, .cons isPart spacedTexts⟩
        rw [List.intercalate_cons_of_ne_nil more, ← split]
        simp
      · rintro ⟨_, rfl, spaced⟩
        obtain ⟨text, texts, isText, spacedTexts, rfl⟩ := List.forall₂_cons_left_iff.mp spaced
        have more : texts ≠ [] := by
          rintro rfl
          exact last (List.forall₂_nil_right_iff.mp spacedTexts)
        rw [List.intercalate_cons_of_ne_nil more]
        exact (isText.append (token [c])).append ((ih last).mpr ⟨texts, rfl, spacedTexts⟩)

end Spaced

end Wrkr.Lib.Text
