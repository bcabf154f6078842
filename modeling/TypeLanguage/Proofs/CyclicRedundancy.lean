/-
This file proves that the checksum is the remainder of a division of polynomials over the
field of two elements, as the standard has it. A word stands for the polynomial whose
coefficients are its bits, the lowest bit being the one of the highest power. To shift such a
word is to multiply by a power of `X`, except for the bits that are shifted out, and these
are made up for by multiples of the generator. So the register is congruent to what was read
so far, byte by byte; and it has fewer bits than the generator, so it is the remainder.
-/

import Mathlib
import TypeLanguage.Checksum.Crc32

namespace TypeLanguage.Crc32

open Polynomial

noncomputable section

/-! ### Words as polynomials -/

/-- A bit as an element of the field of two elements. -/
def bit (value : Bool) : ZMod 2 :=
  if value then 1 else 0

theorem bit_xor (first second : Bool) : bit (first ^^ second) = bit first + bit second := by
  cases first <;> cases second <;> decide

/-- The polynomial of a word, whose lowest bit is the coefficient of the highest power. -/
def reflected {width : Nat} (word : BitVec width) : (ZMod 2)[X] :=
  ∑ place ∈ Finset.range width, C (bit (word.getMsbD place)) * X ^ place

variable {width : Nat}

theorem coeff_reflected (word : BitVec width) (place : Nat) :
    (reflected word).coeff place = bit (word.getMsbD place) := by
  simp only [reflected, finsetSum_coeff, coeff_C_mul, coeff_X_pow, mul_ite, mul_one, mul_zero,
    Finset.sum_ite_eq, Finset.mem_range]
  split
  · rfl
  · next outside =>
    rw [BitVec.getMsbD_of_ge word place (Nat.le_of_not_lt outside)]
    rfl

theorem reflected_xor (first second : BitVec width) :
    reflected (first ^^^ second) = reflected first + reflected second := by
  ext place
  rw [coeff_add, coeff_reflected, coeff_reflected, coeff_reflected, BitVec.getMsbD_xor, bit_xor]

theorem degree_reflected_lt (word : BitVec width) : (reflected word).degree < width := by
  rw [degree_lt_iff_coeff_zero]
  intro place outside
  rw [coeff_reflected, BitVec.getMsbD_of_ge word place outside]
  rfl

/-- A shift multiplies by a power of `X`, but for the bits that are shifted out. -/
theorem X_pow_mul_reflected (count : Nat) (within : count ≤ width) (word : BitVec width) :
    X ^ count * reflected word =
      reflected (word >>> count) + X ^ width * reflected (word.setWidth count) := by
  ext place
  rw [coeff_add, coeff_X_pow_mul', coeff_X_pow_mul', coeff_reflected, coeff_reflected,
    coeff_reflected, BitVec.getMsbD_ushiftRight, BitVec.getMsbD_setWidth]
  by_cases inside : place < width
  · by_cases shifted : count ≤ place
    · simp [inside, shifted, Nat.not_le_of_lt inside, Nat.not_lt_of_le shifted]
    · simp [shifted, Nat.not_le_of_lt inside, Nat.lt_of_not_le shifted, bit]
  · have outside := Nat.le_of_not_lt inside
    simp [inside, outside, within.trans outside, Nat.sub_eq_zero_of_le within, bit]

/-- A word with more bits above is multiplied by the power of `X` that these make. -/
theorem reflected_setWidth {count : Nat} (within : count ≤ width) (word : BitVec count) :
    reflected (word.setWidth width) = X ^ (width - count) * reflected word := by
  ext place
  rw [coeff_X_pow_mul', coeff_reflected, coeff_reflected, BitVec.getMsbD_setWidth]
  by_cases above : width - count ≤ place
  · have same : place + count - width = place - (width - count) := by omega
    simp [above, same]
  · simp [above, bit]

theorem reflected_injective : Function.Injective (@reflected width) := by
  intro first second same
  have bits (place : Nat) : first.getMsbD place = second.getMsbD place := by
    have equal := congrArg (fun polynomial => polynomial.coeff place) same
    simp only [coeff_reflected] at equal
    cases left : first.getMsbD place <;> cases right : second.getMsbD place <;>
      simp_all [bit]
  exact BitVec.eq_of_getMsbD_eq fun place _ => bits place

/-! ### The generator -/

/-- The generator polynomial of IEEE 802.3. -/
def generator : (ZMod 2)[X] :=
  X ^ 32 + X ^ 26 + X ^ 23 + X ^ 22 + X ^ 16 + X ^ 12 + X ^ 11 + X ^ 10 + X ^ 8 + X ^ 7 + X ^ 5 +
    X ^ 4 + X ^ 2 + X + 1

theorem monic_generator : generator.Monic := by
  unfold generator
  monicity!

theorem degree_generator : generator.degree = 32 := by
  unfold generator
  compute_degree!

theorem reflected_constant : X ^ 32 + reflected 0xedb88320#32 = generator := by
  simp [reflected, generator, Finset.sum_range_succ, bit, BitVec.getMsbD]
  ring

/-! ### The register -/

/-- Polynomials modulo the generator. -/
def residue : (ZMod 2)[X] →+* AdjoinRoot generator :=
  AdjoinRoot.mk generator

/-- One more zero bit multiplies the register by `X`. -/
theorem residue_shiftBit (register : UInt32) :
    residue (reflected (shiftBit register).toBitVec) =
      residue (X * reflected register.toBitVec) := by
  have shift := X_pow_mul_reflected 1 (by decide) register.toBitVec
  have low : (register.toBitVec.setWidth 1).toNat = register.toNat % 2 :=
    BitVec.toNat_setWidth 1 register.toBitVec
  have parity : (register &&& 1).toNat = register.toNat % 2 :=
    (UInt32.toNat_and register 1).trans (Nat.and_one_is_mod register.toNat)
  rw [pow_one] at shift
  rw [shift, shiftBit]
  split
  · next odd =>
    have isOne : register.toBitVec.setWidth 1 = 1#1 := by
      refine BitVec.eq_of_toNat_eq ?_
      rw [low, ← parity, odd]
      rfl
    have one : reflected 1#1 = 1 := by simp [reflected, bit]
    have shifted : ((register >>> 1) ^^^ 0xedb88320).toBitVec =
        register.toBitVec >>> 1 ^^^ 0xedb88320#32 := rfl
    have constant : reflected 0xedb88320#32 = X ^ 32 + generator := by
      rw [← reflected_constant, ← add_assoc, CharTwo.add_self_eq_zero, zero_add]
    have vanishes : residue generator = 0 := AdjoinRoot.mk_self
    rw [shifted, isOne, one, reflected_xor, constant, mul_one, ← add_assoc, map_add, vanishes,
      add_zero]
  · next even =>
    have isZero : register.toBitVec.setWidth 1 = 0#1 := by
      refine BitVec.eq_of_toNat_eq ?_
      have other : (register &&& 1).toNat ≠ 1 := fun one => even (UInt32.toNat_inj.1 one)
      rw [low]
      show register.toNat % 2 = 0
      omega
    have zero : reflected 0#1 = 0 := by simp [reflected, bit]
    have shifted : (register >>> 1).toBitVec = register.toBitVec >>> 1 := rfl
    rw [shifted, isZero, zero, mul_zero, add_zero]

theorem residue_shiftBits (count : Nat) (register : UInt32) :
    residue (reflected (shiftBits count register).toBitVec) =
      residue (X ^ count * reflected register.toBitVec) := by
  induction count generalizing register with
  | zero => rw [pow_zero, one_mul]; rfl
  | succ count inductionHypothesis =>
    rw [shiftBits, inductionHypothesis, map_mul, residue_shiftBit, ← map_mul, ← mul_assoc, pow_succ]

/-- One more byte comes in behind what was read so far. -/
theorem residue_step (register : UInt32) (byte : UInt8) :
    residue (reflected (step register byte).toBitVec) =
      residue (X ^ 8 * reflected register.toBitVec + X ^ 32 * reflected byte.toBitVec) := by
  let low := (register ^^^ byte.toUInt32).toUInt8
  have looked : step register byte = shiftBits 8 low.toUInt32 ^^^ (register >>> 8) := by
    have entry : table.get ⟨low.toNat, low.toNat_lt⟩ = shiftBits 8 (UInt32.ofNat low.toNat) :=
      Vector.getElem_ofFn low.toNat_lt
    rw [UInt32.ofNat_uInt8ToNat] at entry
    exact congrArg (· ^^^ (register >>> 8)) entry
  have lowBits : low.toBitVec = register.toBitVec.setWidth 8 ^^^ byte.toBitVec := by
    rw [UInt32.toBitVec_toUInt8, UInt32.toBitVec_xor, BitVec.setWidth_xor, UInt8.toBitVec_toUInt32,
      BitVec.setWidth_setWidth_of_le _ (by decide), BitVec.setWidth_eq]
  have widened : reflected low.toUInt32.toBitVec = X ^ 24 * reflected low.toBitVec :=
    reflected_setWidth (by decide) low.toBitVec
  have shifted : (register >>> 8).toBitVec = register.toBitVec >>> 8 := rfl
  have shift := X_pow_mul_reflected 8 (by decide) register.toBitVec
  rw [looked, UInt32.toBitVec_xor, reflected_xor, map_add, residue_shiftBits, ← map_add, widened,
    lowBits, reflected_xor, shifted, shift]
  exact congrArg residue (by ring)

/-- The polynomial of a message, whose first bit is the coefficient of the highest power. -/
def message : List UInt8 → (ZMod 2)[X]
  | [] => 0
  | byte :: bytes => X ^ (8 * bytes.length) * reflected byte.toBitVec + message bytes

theorem residue_foldl_step (bytes : List UInt8) (register : UInt32) :
    residue (reflected (bytes.foldl step register).toBitVec) =
      residue (X ^ (8 * bytes.length) * reflected register.toBitVec + X ^ 32 * message bytes) := by
  induction bytes generalizing register with
  | nil => simp [message]
  | cons byte bytes inductionHypothesis =>
    rw [List.foldl_cons, inductionHypothesis, map_add, map_mul, residue_step, ← map_mul, ← map_add,
      message, List.length_cons]
    exact congrArg residue (by ring)

/-! ### The checksum -/

theorem foldlM_loop_eq {State : Type} (combine : State → UInt8 → State) (bytes : ByteArray)
    {left start : Nat} (whole : start + left = bytes.size) (state : State) :
    ByteArray.foldlM.loop (m := Id) (fun state byte => pure (combine state byte)) bytes bytes.size
        (Nat.le_refl _) left start state = (bytes.data.toList.drop start).foldl combine state := by
  induction left generalizing start state with
  | zero =>
    have ends : bytes.data.toList.length ≤ start := by
      rw [Array.length_toList, ByteArray.size_data]
      omega
    rw [ByteArray.foldlM.loop, List.drop_of_length_le ends]
    split <;> rfl
  | succ left inductionHypothesis =>
    have inside : start < bytes.size := by omega
    have next : bytes.data.toList.drop start =
        bytes[start] :: bytes.data.toList.drop (start + 1) :=
      List.drop_eq_getElem_cons (by simpa using inside)
    rw [ByteArray.foldlM.loop, dif_pos inside, next, List.foldl_cons]
    exact inductionHypothesis (by omega) (combine state bytes[start])

/-- A fold over a byte array goes over the list of its bytes. -/
theorem foldl_eq_foldl_toList {State : Type} (combine : State → UInt8 → State) (start : State)
    (bytes : ByteArray) : bytes.foldl combine start = bytes.data.toList.foldl combine start := by
  have loop := foldlM_loop_eq combine bytes (Nat.zero_add bytes.size) start
  rw [List.drop_zero] at loop
  rw [ByteArray.foldl, ByteArray.foldlM, dif_pos (Nat.le_refl _)]
  exact loop

/-- Whether a word is the CRC-32 of IEEE 802.3 of a message: its complement is the remainder by the
generator of the message with 32 zero bits behind it, whose first 32 bits are complemented. -/
def IsCheck (bytes : List UInt8) (check : UInt32) : Prop :=
  reflected (~~~check).toBitVec =
    (X ^ (8 * bytes.length) * ∑ place ∈ Finset.range 32, X ^ place + X ^ 32 * message bytes) %ₘ
      generator

/-- A library computes the CRC-32 of IEEE 802.3. -/
def ComputesCheck (library : Crc32) : Prop :=
  ∀ bytes : ByteArray, IsCheck bytes.data.toList (library.checksum bytes)

/-- The checksum by the table is the CRC-32, and there is no other. -/
theorem isCheck_iff {bytes : ByteArray} {check : UInt32} :
    IsCheck bytes.data.toList check ↔ check = tableChecksum bytes := by
  let register := bytes.data.toList.foldl step 0xffffffff
  have whole : tableChecksum bytes = ~~~register := by
    rw [tableChecksum, foldl_eq_foldl_toList]
  have ones : ∑ place ∈ Finset.range 32, X ^ place = reflected 0xffffffff#32 := by
    simp [reflected, Finset.sum_range_succ, bit, BitVec.getMsbD]
  have remainder : reflected register.toBitVec = (X ^ (8 * bytes.data.toList.length) *
      ∑ place ∈ Finset.range 32, X ^ place + X ^ 32 * message bytes.data.toList) %ₘ generator := by
    have small : (reflected register.toBitVec).degree < generator.degree := by
      rw [degree_generator]
      exact degree_reflected_lt register.toBitVec
    rw [← (modByMonic_eq_self_iff monic_generator).2 small]
    refine modByMonic_eq_of_dvd_sub monic_generator ?_
    rw [ones, ← AdjoinRoot.mk_eq_mk]
    exact residue_foldl_step bytes.data.toList 0xffffffff
  rw [IsCheck, ← remainder, whole]
  constructor
  · intro same
    have equal : ~~~check = register := UInt32.toBitVec_inj.1 (reflected_injective same)
    rw [← equal, UInt32.not_not]
  · rintro rfl
    rw [UInt32.not_not]

theorem computesCheck_byTable : byTable.ComputesCheck :=
  fun _ => isCheck_iff.2 rfl

end

end TypeLanguage.Crc32
