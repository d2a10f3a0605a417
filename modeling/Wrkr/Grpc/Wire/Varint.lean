import Mathlib.Data.Nat.Digits.Lemmas
import Wrkr.Grpc.Wire.Primitives

/-!
# The number of a varint

A varint is bytes of seven bits each, lowest first, all but the last with the continuation bit; as
an exact integer it is the number with these digits to the base 128. The reader adds the digits in
a 64-bit word. Nine of them fit, and of the tenth only the lowest bit does.
-/
namespace Wrkr.Grpc.Wire

/-- The exact integer of the bytes, `Σ (bᵢ mod 128) · 128ⁱ`. -/
def denoted (bytes : Bytes) : Nat := Nat.ofDigits 128 (bytes.map fun b => b.toNat % 128)

@[simp] theorem denoted_nil : denoted [] = 0 := rfl

@[simp] theorem denoted_cons (b : UInt8) (bytes : Bytes) :
    denoted (b :: bytes) = b.toNat % 128 + 128 * denoted bytes := by
  simp [denoted, Nat.ofDigits_cons]

theorem denoted_eq_sum (bytes : Bytes) :
    denoted bytes = (bytes.mapIdx fun i b => b.toNat % 128 * 128 ^ i).sum := by
  rw [denoted, Nat.ofDigits_eq_sum_mapIdx]
  congr 1
  exact List.ext_getElem (by simp) fun i _ _ => by simp

theorem denoted_append (first second : Bytes) :
    denoted (first ++ second) = denoted first + 128 ^ first.length * denoted second := by
  rw [denoted, List.map_append, Nat.ofDigits_append, List.length_map]
  rfl

theorem denoted_lt (bytes : Bytes) : denoted bytes < 128 ^ bytes.length := by
  induction bytes with
  | nil => simp
  | cons b bytes ih =>
    rw [denoted_cons, List.length_cons, Nat.pow_succ]
    omega

/-! ### One byte -/

theorem septet_toNat (b : UInt8) : (b &&& 0x7f).toNat = b.toNat % 128 := by
  rw [UInt8.toNat_and]
  exact Nat.and_two_pow_sub_one_eq_mod b.toNat 7

theorem lastByte_iff (b : UInt8) : b &&& 0x80 = 0 ↔ b.toNat < 128 := by
  have octets : ∀ x < 256, x &&& 128 = 0 ↔ x < 128 := by decide +kernel
  rw [← octets b.toNat b.toNat_lt, ← UInt8.toNat_inj, UInt8.toNat_and]
  rfl

/-- A digit is put above the ones read before, and what is above 64 bits is shifted out. -/
theorem or_shl_mod {out x : UInt64} {shift : Nat} (inside : shift < 64)
    (below : out.toNat < 2 ^ shift) :
    (out ||| (x <<< UInt64.ofNat shift)).toNat =
      (out.toNat + x.toNat * 2 ^ shift) % 2 ^ 64 := by
  have amount : (UInt64.ofNat shift).toNat = shift := by
    rw [UInt64.toNat_ofNat']
    omega
  have word : 2 ^ 64 = 2 ^ (64 - shift) * 2 ^ shift := by
    rw [← Nat.pow_add]
    congr 1
    omega
  have kept : x.toNat * 2 ^ shift % 2 ^ 64 = 2 ^ shift * (x.toNat % 2 ^ (64 - shift)) := by
    rw [word, Nat.mul_mod_mul_right, Nat.mul_comm]
  -- the part that is kept lies above the bits of `out`, so the two add up without a carry
  have fits : 2 ^ shift * (x.toNat % 2 ^ (64 - shift)) + out.toNat < 2 ^ 64 := by
    have digit : x.toNat % 2 ^ (64 - shift) + 1 ≤ 2 ^ (64 - shift) :=
      Nat.mod_lt _ (Nat.two_pow_pos _)
    have top := Nat.mul_le_mul_right (2 ^ shift) digit
    rw [← word, Nat.add_mul, Nat.mul_comm (x.toNat % _)] at top
    omega
  have sum : (out ||| (x <<< UInt64.ofNat shift)).toNat =
      x.toNat * 2 ^ shift % 2 ^ 64 + out.toNat := by
    rw [UInt64.toNat_or, UInt64.toNat_shiftLeft, amount, Nat.mod_eq_of_lt inside,
      Nat.shiftLeft_eq, kept, Nat.or_comm, ← Nat.two_pow_add_eq_or_of_lt below]
  rw [← kept] at fits
  rw [sum, ← Nat.mod_eq_of_lt fits, Nat.mod_add_mod, Nat.add_comm]

/-! ### The loop -/

/-- The reader takes the bytes up to the first one without the continuation bit and keeps what the
digits are modulo the word. -/
theorem readVariantLoop_digits {shift : Nat} {out : UInt64} {more : Bytes} {last : UInt8}
    (rest : Bytes) (continues : ∀ b ∈ more, 128 ≤ b.toNat) (ends : last.toNat < 128)
    (inside : shift + 7 * more.length < 64) (below : out.toNat < 2 ^ shift) :
    readVariantLoop shift out (more ++ last :: rest) =
      .ok (UInt64.ofNat (out.toNat + denoted (more ++ [last]) * 2 ^ shift), rest) := by
  induction more generalizing shift out with
  | nil =>
    have low : shift < 64 := by simpa using inside
    have value := or_shl_mod (x := (last &&& 0x7f).toUInt64) low below
    rw [UInt8.toNat_toUInt64, septet_toNat] at value
    have word : out ||| ((last &&& 0x7f).toUInt64 <<< UInt64.ofNat shift) =
        UInt64.ofNat (out.toNat + last.toNat % 128 * 2 ^ shift) :=
      UInt64.toNat_inj.mp (by rw [value, UInt64.toNat_ofNat'])
    simp only [List.nil_append, readVariantLoop, shl, low, ↓reduceIte, (lastByte_iff last).mpr ends,
      bind, Except.bind, denoted_cons, denoted_nil, Nat.mul_zero, Nat.add_zero, word]
  | cons b more ih =>
    rw [List.length_cons] at inside
    have low : shift < 64 := by omega
    have continued := continues b (by simp)
    have power : 2 ^ (shift + 7) = 128 * 2 ^ shift := by rw [Nat.pow_add]; omega
    have word : 2 ^ (shift + 7) ≤ 2 ^ 64 := Nat.pow_le_pow_right (by decide) (by omega)
    have value := or_shl_mod (x := (b &&& 0x7f).toUInt64) low below
    rw [UInt8.toNat_toUInt64, septet_toNat] at value
    -- a digit that is followed by another one fits
    have digit : b.toNat % 128 * 2 ^ shift ≤ 127 * 2 ^ shift := Nat.mul_le_mul_right _ (by omega)
    rw [Nat.mod_eq_of_lt (by omega)] at value
    have notLast : ¬ b &&& 0x80 = 0 := by
      rw [lastByte_iff]
      omega
    have notDone : ¬ 64 ≤ shift + 7 := by omega
    simp only [List.cons_append, readVariantLoop, shl, low, ↓reduceIte, notLast, notDone, bind,
      Except.bind, denoted_cons]
    rw [ih (fun c member => continues c (by simp [member])) (by omega) (by omega), value, power]
    congr 3
    ring

/-- What is read: bytes that continue, one that ends, ten at most, and the sum of their bits without
those that are shifted out. -/
theorem readVariantLoop_ok {shift : Nat} {out n : UInt64} {src rest : Bytes}
    (inside : shift < 64) (read : readVariantLoop shift out src = .ok (n, rest)) :
    ∃ more last, src = more ++ last :: rest ∧ (∀ b ∈ more, 128 ≤ b.toNat) ∧
      last.toNat < 128 ∧ shift + 7 * more.length < 64 := by
  induction src generalizing shift out with
  | nil => cases read
  | cons b src ih =>
    simp only [readVariantLoop, shl, inside, ↓reduceIte, bind, Except.bind] at read
    split at read
    -- the byte without a continuation bit ends it
    next last =>
      cases read
      exact ⟨[], b, rfl, by simp, (lastByte_iff b).mp last, by simpa using inside⟩
    next notLast =>
      split at read
      next => cases read
      -- one more byte, as long as the shift is below 64
      next notDone =>
        obtain ⟨more, last, split, continues, ends, room⟩ := ih (by omega) read
        rw [lastByte_iff] at notLast
        refine ⟨b :: more, last, by simp [split], ?_, ends, ?_⟩
        · intro c member
          rcases List.mem_cons.mp member with rfl | member
          · omega
          · exact continues c member
        · rw [List.length_cons]
          omega

/-- The reader succeeds on the buffers that start with a varint of at most ten bytes, takes it off
and returns its number modulo the word. -/
theorem readVariant_iff {n : UInt64} {src rest : Bytes} :
    readVariant src = .ok (n, rest) ↔
      ∃ more last, src = more ++ last :: rest ∧ (∀ b ∈ more, 128 ≤ b.toNat) ∧
        last.toNat < 128 ∧ more.length < 10 ∧ n = UInt64.ofNat (denoted (more ++ [last])) := by
  constructor
  · intro read
    obtain ⟨more, last, rfl, continues, ends, room⟩ := readVariantLoop_ok (by decide) read
    refine ⟨more, last, rfl, continues, ends, by omega, ?_⟩
    rw [readVariant, readVariantLoop_digits rest continues ends room (by simp)] at read
    cases read
    simp
  · rintro ⟨more, last, rfl, continues, ends, room, rfl⟩
    rw [readVariant, readVariantLoop_digits rest continues ends (by omega) (by simp)]
    simp

/-! ### The two directions -/

/-- One byte for each seven bits. -/
theorem length_writeVariantLoop (n : Nat) (v : UInt64) :
    1 ≤ (writeVariantLoop n v).length ∧ (writeVariantLoop n v).length ≤ n + 1 := by
  induction n generalizing v with
  | zero => simp [writeVariantLoop]
  | succ n ih =>
    rw [writeVariantLoop]
    split
    · have rest := ih (v >>> 7)
      rw [List.length_cons]
      omega
    · simp

/-- Whatever is read off the buffer is the exact number of the bytes taken. -/
def ReadsExactly (src : Bytes) : Prop :=
  ∀ n rest, readVariant src = .ok (n, rest) →
    ∃ taken, src = taken ++ rest ∧ n.toNat = (taken.mapIdx fun i b => b.toNat % 128 * 128 ^ i).sum

/-- After nine bytes with the continuation bit comes none, a 0, a 1 or a byte with that bit. -/
def TenthByteFits (src : Bytes) : Prop :=
  (∀ b ∈ src.take 9, 128 ≤ b.toNat) → ∀ b, src[9]? = some b → b.toNat < 2 ∨ 128 ≤ b.toNat

theorem taken_unique {taken rest more : Bytes} {last : UInt8}
    (same : taken ++ rest = more ++ last :: rest) : taken = more ++ [last] := by
  rw [List.append_cons] at same
  exact List.append_cancel_right same

/-- A varint of ten bytes is within the word when the last one is below two. -/
theorem denoted_fits_iff {more : Bytes} {last : UInt8} (ends : last.toNat < 128)
    (room : more.length < 10) :
    denoted (more ++ [last]) < 2 ^ 64 ↔ (more.length = 9 → last.toNat < 2) := by
  rw [denoted_append, denoted_cons, denoted_nil, Nat.mod_eq_of_lt ends]
  have low := denoted_lt more
  by_cases tenth : more.length = 9
  · rw [tenth] at low ⊢
    omega
  · have short : 128 ^ more.length ≤ 128 ^ 8 := Nat.pow_le_pow_right (by decide) (by omega)
    have digit := Nat.mul_le_mul short (show last.toNat + 128 * 0 ≤ 127 by omega)
    simp only [tenth, false_imp_iff, iff_true]
    omega

/-- Only a tenth byte can hold bits that are lost. -/
theorem tenthByteFits_iff {more rest : Bytes} {last : UInt8}
    (continues : ∀ b ∈ more, 128 ≤ b.toNat) (ends : last.toNat < 128) (room : more.length < 10) :
    TenthByteFits (more ++ last :: rest) ↔ (more.length = 9 → last.toNat < 2) := by
  unfold TenthByteFits
  by_cases tenth : more.length = 9
  · have head : (more ++ last :: rest).take 9 = more := by rw [← tenth, List.take_left']; rfl
    have byte : (more ++ last :: rest)[9]? = some last := by rw [← tenth]; simp
    simp only [head, byte, tenth, Option.some.injEq, forall_eq', forall_const]
    constructor
    · intro fits
      exact (fits continues).resolve_right (by omega)
    · exact fun low _ => .inl low
  -- the last byte is one of the first nine, and it does not continue
  · have early : last ∈ (more ++ last :: rest).take 9 := by
      rw [List.take_append, List.take_cons (by omega)]
      simp
    simp only [tenth, false_imp_iff, iff_true]
    intro all
    have := all last early
    omega

/-- A varint is read as the number that its bytes make up exactly if its tenth byte, if there is
one, is 0 or 1. -/
theorem readsExactly_iff (src : Bytes) : ReadsExactly src ↔ TenthByteFits src := by
  by_cases read : ∃ n rest, readVariant src = .ok (n, rest)
  · obtain ⟨n, rest, read⟩ := read
    obtain ⟨more, last, rfl, continues, ends, room, rfl⟩ := readVariant_iff.mp read
    rw [tenthByteFits_iff continues ends room, ← denoted_fits_iff ends room]
    constructor
    · intro exact
      obtain ⟨taken, split, value⟩ := exact _ _ read
      rw [← taken_unique split.symm, denoted_eq_sum, ← value]
      exact UInt64.toNat_lt _
    · intro fits n' rest' again
      rw [read] at again
      cases again
      refine ⟨more ++ [last], List.append_cons .., ?_⟩
      rw [← denoted_eq_sum, UInt64.toNat_ofNat', Nat.mod_eq_of_lt fits]
  -- nothing is read: with nine bytes that continue, a tenth that does not would have ended it
  · refine iff_of_true (fun n rest ok => absurd ⟨n, rest, ok⟩ read) fun continues b tenth => ?_
    by_contra between
    obtain ⟨inside, byte⟩ := List.getElem?_eq_some_iff.mp tenth
    have split : src = src.take 9 ++ b :: src.drop 10 := by
      rw [← byte, ← List.drop_eq_getElem_cons, List.take_append_drop]
    have nine : (src.take 9).length = 9 := by rw [List.length_take]; omega
    exact read ⟨_, _, readVariant_iff.mpr ⟨src.take 9, b, split, continues, by omega, by omega, rfl⟩⟩

/-- What is written is one to ten bytes that are read back, whatever follows them; what is read is
exact for the buffers whose tenth byte fits and for no other. -/
theorem variant_exact_iff (src : Bytes) :
    ((∀ v s, 1 ≤ (writeVariant v).length ∧ (writeVariant v).length ≤ 10 ∧
      readVariant (writeVariant v ++ s) = .ok (v, s)) ∧ ReadsExactly src) ↔ TenthByteFits src := by
  rw [readsExactly_iff]
  refine and_iff_right fun v s => ?_
  obtain ⟨positive, bound⟩ := length_writeVariantLoop 9 v
  exact ⟨positive, bound, readVariant_write v s⟩

/-- The bytes denote `2⁷⁰ - 1` and are read as `2⁶⁴ - 1`. -/
theorem variant_not_exact :
    ¬((∀ v s, 1 ≤ (writeVariant v).length ∧ (writeVariant v).length ≤ 10 ∧
        readVariant (writeVariant v ++ s) = .ok (v, s)) ∧ ∀ src, ReadsExactly src) := by
  rintro ⟨-, exact⟩
  obtain ⟨taken, split, value⟩ :=
    exact (List.replicate 9 0xff ++ [0x7f]) 0xffffffffffffffff [] (by decide)
  rw [List.append_nil] at split
  subst split
  revert value
  decide

end Wrkr.Grpc.Wire
