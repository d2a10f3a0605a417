import Wrkr.Grpc.Wire.Decode

/-!
# Readers as parsers

Every reader of the decoder either returns an `Err` or takes a definite prefix off the buffer: it
never runs into a `panic`, since the remaining bytes are checked before they are taken, and what it
reads does not depend on the bytes behind. `Parses` states both, and the lemmas below give it for
the primitives and for the ways in which the decoders combine them.
-/
namespace Wrkr.Grpc.Wire

open Wrkr.Lib

/-- The `Err` of the source, as opposed to a panic or a loop that hangs. -/
def Failure.IsErr (e : Failure) : Prop := ∃ message, e = .err message

/-- Reads a prefix of the bytes and fails in no other way than with an error. -/
abbrev Parses {β : Type} (read : Bytes → Decoded (β × Bytes)) : Prop :=
  Consumes Failure.IsErr read

variable {β γ : Type}

theorem parses_fail (message : String) :
    Parses fun _ : Bytes => (fail message : Decoded (β × Bytes)) :=
  Consumes.fail ⟨message, rfl⟩

theorem Parses.congr {read read' : Bytes → Decoded (β × Bytes)} (parses : Parses read)
    (same : ∀ src, read' src = read src) : Parses read' := by
  rwa [show read' = read from funext same]

/-- What is done with the value read leaves the buffer alone. -/
theorem Parses.map {read : Bytes → Decoded (β × Bytes)} (parses : Parses read) (f : β → γ) :
    Parses fun src => read src >>= fun p => (.ok (f p.1, p.2) : Decoded (γ × Bytes)) :=
  parses.bind fun b => Consumes.pure (f b)

/-- A check that does not look at the buffer. -/
theorem Parses.after {read : Bytes → Decoded (β × Bytes)} (parses : Parses read)
    {check : Decoded Unit} (clean : check = .ok () ∨ ∃ message, check = fail message) :
    Parses fun src => check >>= fun _ => read src := by
  rcases clean with rfl | ⟨message, rfl⟩
  · exact parses
  · exact parses_fail message

theorem expect_clean (expected : WireType) (message : String) (wireType : WireType) :
    expect expected message wireType = .ok () ∨
      ∃ message', expect expected message wireType = fail message' := by
  unfold expect
  split
  · exact .inr ⟨message, rfl⟩
  · exact .inl rfl

/-! ### Primitives -/

/-- The shift stays below 64, so nothing overflows. -/
theorem readVariantLoop_parses {shift : Nat} (inside : shift < 64) (out : UInt64) :
    Parses (readVariantLoop shift out) := by
  intro src
  induction src generalizing shift out with
  | nil => exact .inl ⟨_, rfl, _, rfl⟩
  | cons b src ih =>
    -- the shift amount stays below 64, so the shift itself is defined
    let out' := out ||| ((b &&& 0x7f).toUInt64 <<< UInt64.ofNat shift)
    have unrolled (more : Bytes) : readVariantLoop shift out (b :: more) =
        if b &&& 0x80 = 0 then .ok (out', more)
        else if 64 ≤ shift + 7 then fail "invalid varint"
        else readVariantLoop (shift + 7) out' more := by
      rw [readVariantLoop, shl, if_pos inside]
      rfl
    by_cases last : b &&& 0x80 = 0
    · refine .inr ⟨out', [b], src, rfl, fun more => ?_⟩
      rw [List.singleton_append, unrolled, if_pos last]
    · by_cases full : 64 ≤ shift + 7
      · exact .inl ⟨_, by rw [unrolled, if_neg last, if_pos full]; rfl, _, rfl⟩
      · rcases ih (Nat.not_le.mp full) out' with
          ⟨e, failed, isErr⟩ | ⟨v, taken, rest, rfl, reads⟩
        · exact .inl ⟨e, by rw [unrolled, if_neg last, if_neg full, failed], isErr⟩
        · refine .inr ⟨v, b :: taken, rest, rfl, fun more => ?_⟩
          rw [List.cons_append, unrolled, if_neg last, if_neg full, reads]

theorem parses_readVariant : Parses readVariant :=
  readVariantLoop_parses (by decide) 0

/-- The bytes are counted before they are split off. -/
theorem splitTo_guarded (n : Nat) (src : Bytes) :
    src.length < n ∨ ∃ taken rest, src = taken ++ rest ∧ taken.length = n := by
  by_cases short : src.length < n
  · exact .inl short
  · exact .inr ⟨src.take n, src.drop n, (List.take_append_drop n src).symm, by
      rw [List.length_take]; omega⟩

theorem parses_splitTo (n : Nat) (message : String) :
    Parses fun src => if src.length < n then fail message else splitTo n src := by
  intro src
  rcases splitTo_guarded n src with short | ⟨taken, rest, rfl, rfl⟩
  · exact .inl ⟨_, if_pos short, message, rfl⟩
  · refine .inr ⟨taken, taken, rest, rfl, fun more => ?_⟩
    simp only [List.length_append, Nat.not_lt.mpr (Nat.le_add_right _ _), ↓reduceIte]
    exact splitTo_append taken more

theorem parses_readLenDelimited : Parses readLenDelimited :=
  parses_readVariant.bind fun len => parses_splitTo len.toNat _

/-- A fixed-width read after the check of the remaining bytes. -/
theorem parses_remaining {n : Nat} {read : Bytes → Decoded (β × Bytes)} (message : String)
    (value : Bytes → β)
    (fixed : ∀ taken more, taken.length = n → read (taken ++ more) = .ok (value taken, more)) :
    Parses fun src => remaining n message src >>= fun _ => read src := by
  intro src
  rcases splitTo_guarded n src with short | ⟨taken, rest, rfl, length⟩
  · refine .inl ⟨_, ?_, message, rfl⟩
    simp only [remaining, short, ↓reduceIte]
    rfl
  · refine .inr ⟨value taken, taken, rest, rfl, fun more => ?_⟩
    have enough : ¬ (taken ++ more).length < n := by simp [length]
    simp only [remaining, enough, ↓reduceIte]
    exact fixed taken more length

theorem getU32Le_append (taken more : Bytes) (length : taken.length = 4) :
    getU32Le (taken ++ more) = .ok (UInt32.ofNat (ofLeBytes taken), more) := by
  rw [getU32Le, ← length, splitTo_append]
  rfl

theorem getU64Le_append (taken more : Bytes) (length : taken.length = 8) :
    getU64Le (taken ++ more) = .ok (UInt64.ofNat (ofLeBytes taken), more) := by
  rw [getU64Le, ← length, splitTo_append]
  rfl

theorem parses_getU32Le (message : String) :
    Parses fun src => remaining 4 message src >>= fun _ => getU32Le src :=
  parses_remaining message _ getU32Le_append

theorem parses_getU64Le (message : String) :
    Parses fun src => remaining 8 message src >>= fun _ => getU64Le src :=
  parses_remaining message _ getU64Le_append

/-! ### Records -/

/-- A wire type is known or it is an error. -/
theorem tryFrom_clean (v : UInt8) :
    (∃ wireType, WireType.tryFrom v = .ok wireType) ∨ ∃ message, WireType.tryFrom v = fail message := by
  unfold WireType.tryFrom
  split_ifs
  · exact .inl ⟨_, rfl⟩
  · exact .inl ⟨_, rfl⟩
  · exact .inl ⟨_, rfl⟩
  · exact .inl ⟨_, rfl⟩
  · exact .inr ⟨_, rfl⟩

/-- A record: its tag, then whatever the tag asks for. -/
theorem parses_record {k : UInt32 → WireType → Bytes → Decoded (β × Bytes)}
    (parses : ∀ n wireType, Parses (k n wireType)) :
    Parses fun src => readTag src >>= fun p => k p.1 p.2.1 p.2.2 := by
  -- behind the tag: an error, which does not depend on the rest, or the value
  have branch (tag : UInt64) : Parses fun src =>
      if tag = 0 then fail "invalid protobuf tag 0"
      else WireType.tryFrom (tag &&& 0x7).toUInt8 >>= fun wireType =>
        k (tag >>> 3).toUInt32 wireType src := by
    by_cases zero : tag = 0
    · simp only [zero, ↓reduceIte]
      exact parses_fail _
    · simp only [zero, ↓reduceIte]
      rcases tryFrom_clean (tag &&& 0x7).toUInt8 with ⟨wireType, isType⟩ | ⟨message, noType⟩
      · rw [isType]
        exact parses _ wireType
      · rw [noType]
        exact parses_fail message
  refine Parses.congr (parses_readVariant.bind branch) fun src => ?_
  rw [readTag]
  cases readVariant src with
  | error e => rfl
  | ok p =>
    obtain ⟨tag, rest⟩ := p
    by_cases zero : tag = 0
    · simp [Bind.bind, Except.bind, zero, fail]
    · simp only [Bind.bind, Except.bind, zero, ↓reduceIte]
      cases WireType.tryFrom (tag &&& 0x7).toUInt8 <;> rfl

/-- A record of a field nobody asks for. -/
theorem parses_skipValue (wireType : WireType) (b : β) :
    Parses fun src => skipValue wireType src >>= fun src => (.ok (b, src) : Decoded (β × Bytes)) := by
  cases wireType with
  | varint =>
    refine (parses_readVariant.map fun _ => b).congr fun src => ?_
    simp only [skipValue]
    cases readVariant src <;> rfl
  | len =>
    refine (parses_readLenDelimited.map fun _ => b).congr fun src => ?_
    simp only [skipValue]
    cases readLenDelimited src <;> rfl
  | sixtyFourBit =>
    refine ((parses_splitTo 8 "invalid fixed64").map fun _ => b).congr fun src => ?_
    simp only [skipValue, advance, splitTo]
    split <;> rfl
  | thirtyTwoBit =>
    refine ((parses_splitTo 4 "invalid fixed32").map fun _ => b).congr fun src => ?_
    simp only [skipValue, advance, splitTo]
    split <;> rfl

end Wrkr.Grpc.Wire
