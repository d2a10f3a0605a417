import Mathlib.Data.Nat.Bitwise
import Wrkr.Lib.ByteLoop

/-!
# Wire primitives

Tags, varints, length-delimited payloads, fixed-width numbers and zigzag. A reader returns what it
read and the rest of the buffer. Besides the `Err` of the source a reader can fail by `panic`, an
operation of the `bytes` crate called with too few bytes, and by `diverge`, a loop that takes
nothing off the buffer; both are part of the model so that their absence can be stated.

For every writer there is the theorem that its reader takes exactly the written bytes off the
front of a buffer and returns the value.
-/
namespace Wrkr.Grpc.Wire

abbrev Bytes := List UInt8

/-- An error that is returned, a panic, or a loop that does not end. -/
inductive Failure
  | err (message : String)
  | panic
  | diverge
  deriving DecidableEq, Repr

abbrev Decoded (α : Type) := Except Failure α

def fail {α : Type} (message : String) : Decoded α := .error (.err message)

/-- The wire types that are supported; groups are not. -/
inductive WireType
  | varint
  | sixtyFourBit
  | len
  | thirtyTwoBit
  deriving DecidableEq, Repr

namespace WireType

/-- The numbers in between are those of the groups. -/
def tryFrom (v : UInt8) : Decoded WireType :=
  if v = 0 then .ok .varint
  else if v = 1 then .ok .sixtyFourBit
  else if v = 2 then .ok .len
  else if v = 5 then .ok .thirtyTwoBit
  else fail ("unsupported protobuf wire type " ++ toString v)

def code : WireType → UInt64
  | .varint => 0
  | .sixtyFourBit => 1
  | .len => 2
  | .thirtyTwoBit => 5

end WireType

/-! ### Varints -/

/-- The loop of `write_variant`, which pushes at most nine bytes with the continuation bit. -/
def writeVariantLoop : Nat → UInt64 → Bytes
  | 0, v => [v.toUInt8]
  | n + 1, v =>
    if 0x80 ≤ v then (v.toUInt8 ||| 0x80) :: writeVariantLoop n (v >>> 7) else [v.toUInt8]

def writeVariant (v : UInt64) : Bytes := writeVariantLoop 9 v

/-- A shift of a `u64`, which overflows from 64 on. -/
def shl (v : UInt64) (shift : Nat) : Decoded UInt64 :=
  if shift < 64 then .ok (v <<< UInt64.ofNat shift) else .error .panic

/-- Seven bits a byte, least significant first. A tenth byte has room for one bit only, and the rest
of it is lost. -/
def readVariantLoop (shift : Nat) (out : UInt64) : Bytes → Decoded (UInt64 × Bytes)
  | [] => fail "invalid varint"
  | b :: src => do
    let septet ← shl (b &&& 0x7f).toUInt64 shift
    let out := out ||| septet
    if b &&& 0x80 = 0 then .ok (out, src)
    else if 64 ≤ shift + 7 then fail "invalid varint"
    else readVariantLoop (shift + 7) out src

/-- At most ten bytes. -/
def readVariant (src : Bytes) : Decoded (UInt64 × Bytes) := readVariantLoop 0 0 src

/-- The number of the field and the wire type in one varint. -/
def writeTag (fieldNumber : UInt32) (wireType : WireType) : Bytes :=
  writeVariant ((fieldNumber.toUInt64 <<< 3) ||| wireType.code)

/-- The head of every record: the three loops of the decoder all start with it. -/
def readTag (src : Bytes) : Decoded (UInt32 × WireType × Bytes) := do
  let (tag, src) ← readVariant src
  if tag = 0 then fail "invalid protobuf tag 0"
  else
    let fieldNumber := (tag >>> 3).toUInt32
    let wireType ← WireType.tryFrom (tag &&& 0x7).toUInt8
    .ok (fieldNumber, wireType, src)

/-! ### Buffers -/

/-- `src.split_to(n)`. -/
def splitTo (n : Nat) (src : Bytes) : Decoded (Bytes × Bytes) :=
  if src.length < n then .error .panic else .ok (src.take n, src.drop n)

/-- `src.advance(n)`. -/
def advance (n : Nat) (src : Bytes) : Decoded Bytes :=
  if src.length < n then .error .panic else .ok (src.drop n)

def writeLenDelimited (bytes : Bytes) : Bytes :=
  writeVariant (UInt64.ofNat bytes.length) ++ bytes

/-- A length and as many bytes. -/
def readLenDelimited (src : Bytes) : Decoded (Bytes × Bytes) := do
  let (len, src) ← readVariant src
  if src.length < len.toNat then fail "invalid length-delimited field"
  else splitTo len.toNat src

/-- Skips a value without looking at it. -/
def skipValue (wireType : WireType) (src : Bytes) : Decoded Bytes :=
  match wireType with
  | .varint => do
    let (_, src) ← readVariant src
    .ok src
  | .sixtyFourBit => if src.length < 8 then fail "invalid fixed64" else advance 8 src
  | .len => do
    let (_, src) ← readLenDelimited src
    .ok src
  | .thirtyTwoBit => if src.length < 4 then fail "invalid fixed32" else advance 4 src

/-! ### Little-endian numbers -/

/-- Little endian. -/
def leBytes : Nat → Nat → Bytes
  | 0, _ => []
  | width + 1, n => UInt8.ofNat n :: leBytes width (n / 256)

def ofLeBytes : Bytes → Nat
  | [] => 0
  | b :: rest => b.toNat + 256 * ofLeBytes rest

def putU32Le (n : UInt32) : Bytes := leBytes 4 n.toNat

def putI32Le (n : Int32) : Bytes := putU32Le n.toUInt32

def putU64Le (n : UInt64) : Bytes := leBytes 8 n.toNat

def putI64Le (n : Int64) : Bytes := putU64Le n.toUInt64

def getU32Le (src : Bytes) : Decoded (UInt32 × Bytes) := do
  let (bytes, src) ← splitTo 4 src
  .ok (UInt32.ofNat (ofLeBytes bytes), src)

def getI32Le (src : Bytes) : Decoded (Int32 × Bytes) := do
  let (n, src) ← getU32Le src
  .ok (n.toInt32, src)

def getU64Le (src : Bytes) : Decoded (UInt64 × Bytes) := do
  let (bytes, src) ← splitTo 8 src
  .ok (UInt64.ofNat (ofLeBytes bytes), src)

def getI64Le (src : Bytes) : Decoded (Int64 × Bytes) := do
  let (n, src) ← getU64Le src
  .ok (n.toInt64, src)

/-! ### Zigzag -/

def encodeZigzag64 (v : Int64) : UInt64 := ((v <<< 1) ^^^ (v >>> 63)).toUInt64

def decodeZigzag64 (v : UInt64) : Int64 := (v >>> 1).toInt64 ^^^ (-(v &&& 1).toInt64)

/-! ### Reading what was written -/

/-- Bits that do not overlap add up. -/
theorem or_shl_toNat {out x : UInt64} {shift : Nat} (low : shift < 64)
    (below : out.toNat < 2 ^ shift) (fits : x.toNat * 2 ^ shift < 2 ^ 64) :
    (out ||| (x <<< UInt64.ofNat shift)).toNat = out.toNat + x.toNat * 2 ^ shift := by
  have amount : (UInt64.ofNat shift).toNat = shift := by
    rw [UInt64.toNat_ofNat']
    omega
  rw [UInt64.toNat_or, UInt64.toNat_shiftLeft, amount, Nat.mod_eq_of_lt low, Nat.shiftLeft_eq,
    Nat.mod_eq_of_lt fits, Nat.or_comm, Nat.mul_comm, ← Nat.two_pow_add_eq_or_of_lt below,
    Nat.add_comm]

/-- A byte with the continuation bit. -/
theorem continued (b : UInt8) :
    ((b ||| 0x80) &&& 0x7f).toNat = b.toNat % 128 ∧ (b ||| 0x80) &&& 0x80 ≠ 0 := by
  have octets : ∀ x < 256, ((x ||| 128) &&& 127 = x % 128) ∧ ((x ||| 128) &&& 128 = 128) := by
    decide +kernel
  obtain ⟨low, high⟩ := octets b.toNat b.toNat_lt
  refine ⟨low, fun zero => ?_⟩
  have number := congrArg UInt8.toNat zero
  exact absurd (high.symm.trans number) (by decide)

/-- A byte without it. -/
theorem ended {b : UInt8} (low : b.toNat < 128) :
    (b &&& 0x7f).toNat = b.toNat ∧ b &&& 0x80 = 0 := by
  have octets : ∀ x < 128, (x &&& 127 = x) ∧ (x &&& 128 = 0) := by decide +kernel
  obtain ⟨same, none⟩ := octets b.toNat low
  exact ⟨same, UInt8.toNat_inj.mp none⟩

/-- The last byte of a varint. -/
theorem readVariantLoop_last {shift : Nat} {out v : UInt64} (rest : Bytes) (low : v.toNat < 128)
    (below : out.toNat < 2 ^ shift) (inside : shift < 64)
    (fits : out.toNat + v.toNat * 2 ^ shift < 2 ^ 64) :
    readVariantLoop shift out (v.toUInt8 :: rest) =
      .ok (UInt64.ofNat (out.toNat + v.toNat * 2 ^ shift), rest) := by
  have byte : v.toUInt8.toNat = v.toNat := by
    rw [UInt64.toNat_toUInt8]
    omega
  obtain ⟨septet, last⟩ := ended (b := v.toUInt8) (by omega)
  rw [byte] at septet
  have value : (out ||| ((v.toUInt8 &&& 0x7f).toUInt64 <<< UInt64.ofNat shift)).toNat =
      out.toNat + v.toNat * 2 ^ shift := by
    rw [or_shl_toNat inside below, UInt8.toNat_toUInt64, septet]
    rw [UInt8.toNat_toUInt64, septet]
    omega
  simp only [readVariantLoop, shl, inside, ↓reduceIte, last, bind, Except.bind]
  rw [← value, UInt64.ofNat_toNat]

/-- A byte before the last one. -/
theorem readVariantLoop_more {shift : Nat} {out v : UInt64} (rest : Bytes)
    (below : out.toNat < 2 ^ shift) (inside : shift + 7 < 64)
    (fits : out.toNat + v.toNat * 2 ^ shift < 2 ^ 64) :
    ∃ out' : UInt64, out'.toNat = out.toNat + v.toNat % 128 * 2 ^ shift ∧
      readVariantLoop shift out ((v.toUInt8 ||| 0x80) :: rest) =
        readVariantLoop (shift + 7) out' rest := by
  obtain ⟨septet, more⟩ := continued v.toUInt8
  have byte : v.toUInt8.toNat % 128 = v.toNat % 128 := by
    rw [UInt64.toNat_toUInt8]
    omega
  rw [byte] at septet
  refine ⟨out ||| (((v.toUInt8 ||| 0x80) &&& 0x7f).toUInt64 <<< UInt64.ofNat shift), ?_, ?_⟩
  · have part : v.toNat % 128 * 2 ^ shift ≤ v.toNat * 2 ^ shift :=
      Nat.mul_le_mul_right _ (Nat.mod_le _ _)
    rw [or_shl_toNat (by omega) below, UInt8.toNat_toUInt64, septet]
    rw [UInt8.toNat_toUInt64, septet]
    omega
  · have start : shift < 64 := by omega
    have inRange : ¬ 64 ≤ shift + 7 := by omega
    simp only [readVariantLoop, shl, start, ↓reduceIte, more, inRange, bind, Except.bind]

/-- The reader adds the written value to what it has read before. -/
theorem readVariantLoop_write (n : Nat) {shift : Nat} {out v : UInt64} (rest : Bytes)
    (enough : v.toNat < 128 ^ (n + 1)) (below : out.toNat < 2 ^ shift) (inside : shift < 64)
    (fits : out.toNat + v.toNat * 2 ^ shift < 2 ^ 64) :
    readVariantLoop shift out (writeVariantLoop n v ++ rest) =
      .ok (UInt64.ofNat (out.toNat + v.toNat * 2 ^ shift), rest) := by
  induction n generalizing shift out v with
  | zero => exact readVariantLoop_last rest (by omega) below inside fits
  | succ n ih =>
    rw [writeVariantLoop]
    split
    next more =>
      have large : 128 ≤ v.toNat := UInt64.le_iff_toNat_le.mp more
      have power : 2 ^ (shift + 7) = 128 * 2 ^ shift := by rw [Nat.pow_add]; omega
      -- there is room for another septet, since the value has a bit there
      have room : shift + 7 < 64 := by
        have bits : 2 ^ (shift + 7) < 2 ^ 64 := by
          have part : 128 * 2 ^ shift ≤ v.toNat * 2 ^ shift := Nat.mul_le_mul_right _ large
          omega
        exact (Nat.pow_lt_pow_iff_right (by decide)).mp bits
      have shifted : (v >>> 7).toNat = v.toNat / 128 := by
        rw [UInt64.toNat_shiftRight]
        exact Nat.shiftRight_eq_div_pow _ 7
      have parts : v.toNat % 128 * 2 ^ shift + v.toNat / 128 * 2 ^ (shift + 7) =
          v.toNat * 2 ^ shift := by
        rw [power, ← Nat.mul_assoc, ← Nat.add_mul, Nat.mul_comm (v.toNat / 128), Nat.mod_add_div]
      obtain ⟨out', grown, read⟩ :=
        readVariantLoop_more (writeVariantLoop n (v >>> 7) ++ rest) below room fits
      rw [List.cons_append, read, ih, shifted, grown, Nat.add_assoc, parts]
      · rw [shifted]
        exact Nat.div_lt_of_lt_mul (by rw [Nat.pow_succ] at enough; omega)
      · have septet : v.toNat % 128 * 2 ^ shift ≤ 127 * 2 ^ shift :=
          Nat.mul_le_mul_right _ (by omega)
        rw [grown, power]
        omega
      · exact room
      · rw [grown, shifted]
        omega
    next last =>
      have low : v.toNat < 128 := Nat.not_le.mp fun large => last (UInt64.le_iff_toNat_le.mpr large)
      exact readVariantLoop_last rest low below inside fits

/-- What was written is read back, and no byte more. -/
@[simp] theorem readVariant_write (v : UInt64) (rest : Bytes) :
    readVariant (writeVariant v ++ rest) = .ok (v, rest) := by
  have bound := v.toNat_lt
  rw [readVariant, writeVariant, readVariantLoop_write]
  · simp
  · omega
  · simp
  · decide
  · simpa using bound

/-- The tag as a number, with room for every field number. -/
theorem tag_toNat (n : UInt32) (wireType : WireType) :
    ((n.toUInt64 <<< 3) ||| wireType.code).toNat = n.toNat * 8 + wireType.code.toNat := by
  have bound := n.toNat_lt
  have code : wireType.code.toNat < 2 ^ 3 := by cases wireType <;> decide
  have shifted : (n.toUInt64 <<< 3).toNat = 2 ^ 3 * n.toNat := by
    rw [UInt64.toNat_shiftLeft, UInt32.toNat_toUInt64, Nat.shiftLeft_eq]
    change n.toNat * 8 % 2 ^ 64 = 8 * n.toNat
    omega
  rw [UInt64.toNat_or, shifted, ← Nat.two_pow_add_eq_or_of_lt code]
  omega

/-- A tag is read back unless its number is zero, which no field has. -/
theorem readTag_write {n : UInt32} (positive : n ≠ 0) (wireType : WireType) (rest : Bytes) :
    readTag (writeTag n wireType ++ rest) = .ok (n, wireType, rest) := by
  have code : wireType.code.toNat < 8 := by cases wireType <;> decide
  have tag := tag_toNat n wireType
  have above : n.toNat ≠ 0 := fun zero => positive (UInt32.toNat_inj.mp zero)
  rw [readTag, writeTag, readVariant_write]
  generalize (n.toUInt64 <<< 3) ||| wireType.code = t at tag
  have some : t ≠ 0 := by
    rintro rfl
    rw [UInt64.toNat_zero] at tag
    omega
  have number : (t >>> 3).toUInt32 = n := by
    have bound := n.toNat_lt
    apply UInt32.toNat_inj.mp
    rw [UInt64.toNat_toUInt32, UInt64.toNat_shiftRight, tag]
    change ((n.toNat * 8 + wireType.code.toNat) >>> 3) % 2 ^ 32 = n.toNat
    rw [Nat.shiftRight_eq_div_pow]
    omega
  have low : (t &&& 0x7).toUInt8 = wireType.code.toUInt8 := by
    apply UInt8.toNat_inj.mp
    rw [UInt64.toNat_toUInt8, UInt64.toNat_toUInt8, UInt64.toNat_and, tag]
    change ((n.toNat * 8 + wireType.code.toNat) &&& (2 ^ 3 - 1)) % 2 ^ 8 = _
    rw [Nat.and_two_pow_sub_one_eq_mod]
    omega
  have back : WireType.tryFrom wireType.code.toUInt8 = .ok wireType := by cases wireType <;> rfl
  simp only [bind, Except.bind, some, ↓reduceIte, number, low, back]

theorem splitTo_append (bytes rest : Bytes) :
    splitTo bytes.length (bytes ++ rest) = .ok (bytes, rest) := by
  simp [splitTo]

theorem readLenDelimited_write {bytes : Bytes} (fits : bytes.length < 2 ^ 64) (rest : Bytes) :
    readLenDelimited (writeLenDelimited bytes ++ rest) = .ok (bytes, rest) := by
  have length : (UInt64.ofNat bytes.length).toNat = bytes.length := by
    rw [UInt64.toNat_ofNat', Nat.mod_eq_of_lt fits]
  have enough : ¬ (bytes ++ rest).length < bytes.length := by simp
  rw [readLenDelimited, writeLenDelimited, List.append_assoc, readVariant_write]
  simp only [bind, Except.bind, length, enough, ↓reduceIte]
  exact splitTo_append bytes rest

theorem length_leBytes (width n : Nat) : (leBytes width n).length = width := by
  induction width generalizing n with
  | zero => rfl
  | succ width ih => simp [leBytes, ih]

theorem ofLeBytes_leBytes (width n : Nat) : ofLeBytes (leBytes width n) = n % 256 ^ width := by
  induction width generalizing n with
  | zero => simp [leBytes, ofLeBytes, Nat.mod_one]
  | succ width ih =>
    have byte : (UInt8.ofNat n).toNat = n % 256 := by rw [UInt8.toNat_ofNat']
    rw [leBytes, ofLeBytes, ih, byte, Nat.pow_succ, Nat.mul_comm (256 ^ width), Nat.mod_mul]

theorem splitTo_leBytes (width n : Nat) (rest : Bytes) :
    splitTo width (leBytes width n ++ rest) = .ok (leBytes width n, rest) := by
  have split := splitTo_append (leBytes width n) rest
  rwa [length_leBytes] at split

theorem getU32Le_put (n : UInt32) (rest : Bytes) :
    getU32Le (putU32Le n ++ rest) = .ok (n, rest) := by
  have value : ofLeBytes (leBytes 4 n.toNat) = n.toNat := by
    rw [ofLeBytes_leBytes]
    exact Nat.mod_eq_of_lt n.toNat_lt
  rw [getU32Le, putU32Le, splitTo_leBytes]
  simp [bind, Except.bind, value]

theorem getU64Le_put (n : UInt64) (rest : Bytes) :
    getU64Le (putU64Le n ++ rest) = .ok (n, rest) := by
  have value : ofLeBytes (leBytes 8 n.toNat) = n.toNat := by
    rw [ofLeBytes_leBytes]
    exact Nat.mod_eq_of_lt n.toNat_lt
  rw [getU64Le, putU64Le, splitTo_leBytes]
  simp [bind, Except.bind, value]

theorem getI32Le_put (n : Int32) (rest : Bytes) :
    getI32Le (putI32Le n ++ rest) = .ok (n, rest) := by
  rw [getI32Le, putI32Le, getU32Le_put]
  rfl

theorem getI64Le_put (n : Int64) (rest : Bytes) :
    getI64Le (putI64Le n ++ rest) = .ok (n, rest) := by
  rw [getI64Le, putI64Le, getU64Le_put]
  rfl

theorem zigzag_bits (v : BitVec 64) :
    ((v <<< 1 ^^^ v.sshiftRight 63) >>> 1) ^^^ (-((v <<< 1 ^^^ v.sshiftRight 63) &&& 1#64)) = v := by
  have top : v[63] = v.msb := by rw [BitVec.msb_eq_getLsbD_last, ← BitVec.getLsbD_eq_getElem]
  have even : (v <<< 1) &&& 1#64 = 0#64 := by
    ext i low
    by_cases first : i = 0
    · simp [first]
    · simp [BitVec.getElem_one, first]
  cases sign : v.msb with
  -- without a sign nothing is flipped, with one everything is, twice
  | false =>
    have fill : v.sshiftRight 63 = 0#64 := by
      ext i low
      rw [BitVec.getElem_sshiftRight]
      by_cases first : i = 0
      · simp [first, top, sign]
      · simp [show ¬ 63 + i < 64 by omega, sign]
    rw [fill, BitVec.xor_zero, even, BitVec.neg_zero, BitVec.xor_zero]
    ext i low
    by_cases last : i = 63
    · simp [last, top, sign]
    · simp [show 1 + i < 64 by omega]
  | true =>
    have fill : v.sshiftRight 63 = BitVec.allOnes 64 := by
      ext i low
      rw [BitVec.getElem_sshiftRight, BitVec.getElem_allOnes]
      by_cases first : i = 0
      · simp [first, top, sign]
      · simp [show ¬ 63 + i < 64 by omega, sign]
    have odd : ~~~(v <<< 1) &&& 1#64 = 1#64 := by
      ext i low
      by_cases first : i = 0
      · simp [first]
      · simp [BitVec.getElem_one, first]
    have ones : -1#64 = BitVec.allOnes 64 := by decide
    rw [fill, BitVec.xor_allOnes, odd, ones, BitVec.xor_allOnes]
    ext i low
    by_cases last : i = 63
    · simp [last, top, sign]
    · simp [show 1 + i < 64 by omega]

@[simp] theorem decodeZigzag64_encode (v : Int64) : decodeZigzag64 (encodeZigzag64 v) = v := by
  apply Int64.toBitVec.inj
  exact zigzag_bits v.toBitVec

/-! ### What is left of the buffer -/

theorem bind_ok {ε α β : Type} {x : Except ε α} {f : α → Except ε β} {b : β}
    (done : (x >>= f) = .ok b) : ∃ a, x = .ok a ∧ f a = .ok b := by
  cases x with
  | error e => cases done
  | ok a => exact ⟨a, rfl, done⟩

/-- Every read takes at least one byte. -/
theorem readVariantLoop_shrinks {shift : Nat} {out v : UInt64} {src rest : Bytes}
    (read : readVariantLoop shift out src = .ok (v, rest)) : rest.length < src.length := by
  induction src generalizing shift out with
  | nil => cases read
  | cons b src ih =>
    rw [readVariantLoop] at read
    obtain ⟨septet, -, read⟩ := bind_ok read
    dsimp only at read
    split at read
    · cases read
      simp
    · split at read
      · cases read
      · have shorter := ih read
        rw [List.length_cons]
        omega

theorem readVariant_shrinks {v : UInt64} {src rest : Bytes}
    (read : readVariant src = .ok (v, rest)) : rest.length < src.length :=
  readVariantLoop_shrinks read

theorem readTag_shrinks {n : UInt32} {wireType : WireType} {src rest : Bytes}
    (read : readTag src = .ok (n, wireType, rest)) : rest.length < src.length := by
  obtain ⟨⟨tag, after⟩, isVarint, read⟩ := bind_ok read
  have shorter := readVariant_shrinks isVarint
  dsimp only at read
  split at read
  · cases read
  · obtain ⟨wireType', -, read⟩ := bind_ok read
    cases read
    exact shorter

theorem splitTo_shrinks {n : Nat} {src bytes rest : Bytes}
    (split : splitTo n src = .ok (bytes, rest)) : rest.length ≤ src.length := by
  unfold splitTo at split
  split at split
  · cases split
  · cases split
    simp

/-- What is split off is missing from the rest. -/
theorem splitTo_shorter {n : Nat} (positive : 0 < n) {src bytes rest : Bytes}
    (split : splitTo n src = .ok (bytes, rest)) : rest.length < src.length := by
  unfold splitTo at split
  split at split
  · cases split
  · cases split
    rw [List.length_drop]
    omega

theorem readLenDelimited_shrinks {src bytes rest : Bytes}
    (read : readLenDelimited src = .ok (bytes, rest)) : rest.length < src.length := by
  obtain ⟨⟨len, after⟩, isVarint, read⟩ := bind_ok read
  have shorter := readVariant_shrinks isVarint
  dsimp only at read
  split at read
  · cases read
  · have rest := splitTo_shrinks read
    omega

theorem skipValue_shrinks {wireType : WireType} {src rest : Bytes}
    (skipped : skipValue wireType src = .ok rest) : rest.length ≤ src.length := by
  cases wireType with
  | varint =>
    obtain ⟨⟨v, after⟩, read, skipped⟩ := bind_ok skipped
    cases skipped
    exact Nat.le_of_lt (readVariant_shrinks read)
  | len =>
    obtain ⟨⟨bytes, after⟩, read, skipped⟩ := bind_ok skipped
    cases skipped
    exact Nat.le_of_lt (readLenDelimited_shrinks read)
  | sixtyFourBit =>
    simp only [skipValue, advance] at skipped
    split at skipped
    · cases skipped
    · cases skipped
      simp
  | thirtyTwoBit =>
    simp only [skipValue, advance] at skipped
    split at skipped
    · cases skipped
    · cases skipped
      simp

end Wrkr.Grpc.Wire
