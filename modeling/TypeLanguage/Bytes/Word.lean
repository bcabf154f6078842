/-
This file holds the fixed-width words of the wire. A word of `width` bytes is
written least significant byte first; writing and reading back are inverse to
each other because the bytes are exactly the base-256 digits of the number.
Big-endian numbers, which only keys use, are the same digits in reverse.
-/

-- Powers of numbers are those of the core library, whatever others are in scope.
attribute [default_instance 10000, instance(10000)] instPowNat

namespace TypeLanguage

/-! ### Least significant byte first -/

/-- The `width` lowest base-256 digits of a number, least significant first. -/
def littleEndian : Nat → Nat → List UInt8
  | 0, _ => []
  | width + 1, number => UInt8.ofNat number :: littleEndian width (number / 256)

/-- The number that base-256 digits denote, least significant first. -/
def ofLittleEndian : List UInt8 → Nat
  | [] => 0
  | byte :: rest => byte.toNat + 256 * ofLittleEndian rest

@[simp] theorem length_littleEndian (width number : Nat) :
    (littleEndian width number).length = width := by
  induction width generalizing number with
  | zero => rfl
  | succ width inductionHypothesis => simp [littleEndian, inductionHypothesis]

theorem ofLittleEndian_lt (bytes : List UInt8) : ofLittleEndian bytes < 256 ^ bytes.length := by
  induction bytes with
  | nil => simp [ofLittleEndian]
  | cons byte rest inductionHypothesis =>
    have small : byte.toNat < 256 := byte.toNat_lt
    simp only [ofLittleEndian, List.length_cons, Nat.pow_succ]
    omega

/-- Reading back what was written gives the number, if it fits in the width. -/
theorem ofLittleEndian_littleEndian (width number : Nat) (fits : number < 256 ^ width) :
    ofLittleEndian (littleEndian width number) = number := by
  induction width generalizing number with
  | zero =>
    simp only [Nat.pow_zero] at fits
    simp only [littleEndian, ofLittleEndian]
    omega
  | succ width inductionHypothesis =>
    have high : number / 256 < 256 ^ width := by
      apply (Nat.div_lt_iff_lt_mul (by decide : 0 < 256)).2
      simpa [Nat.pow_succ] using fits
    simp only [littleEndian, ofLittleEndian, inductionHypothesis _ high, UInt8.toNat_ofNat']
    omega

/-- Writing back what was read gives the same bytes. -/
theorem littleEndian_ofLittleEndian (bytes : List UInt8) :
    littleEndian bytes.length (ofLittleEndian bytes) = bytes := by
  induction bytes with
  | nil => rfl
  | cons byte rest inductionHypothesis =>
    have small : byte.toNat < 256 := byte.toNat_lt
    have low : UInt8.ofNat (byte.toNat + 256 * ofLittleEndian rest) = byte := by
      apply UInt8.toNat_inj.1
      rw [UInt8.toNat_ofNat']
      omega
    have high : (byte.toNat + 256 * ofLittleEndian rest) / 256 = ofLittleEndian rest := by omega
    simp only [List.length_cons, ofLittleEndian, littleEndian, low, high, inductionHypothesis]

/-- The number that bytes denote, most significant first. The halves are joined
by a shift, so that a long number costs no more than its multiplications. -/
def ofBigEndianSlice (bytes : ByteArray) (start : Nat) : Nat → Nat
  | 0 => 0
  | 1 => if inside : start < bytes.size then bytes[start].toNat else 0
  | count + 2 =>
    let low := (count + 2) / 2
    let high := count + 2 - low
    (ofBigEndianSlice bytes start high <<< (8 * low)) + ofBigEndianSlice bytes (start + high) low
termination_by count => count

/-- The number that a whole byte array denotes, most significant byte first. -/
def ofBigEndian (bytes : ByteArray) : Nat :=
  ofBigEndianSlice bytes 0 bytes.size

/-- The `width` lowest base-256 digits of a number, most significant first, in front of
other bytes. The number is cut in halves for the same reason. -/
def bigEndianOnto (number : Nat) : (width : Nat) → List UInt8 → List UInt8
  | 0, done => done
  | 1, done => UInt8.ofNat number :: done
  | width + 2, done =>
    let low := (width + 2) / 2
    bigEndianOnto (number >>> (8 * low)) (width + 2 - low)
      (bigEndianOnto (number % 2 ^ (8 * low)) low done)
termination_by width => width

/-- How many bytes a number takes; zero takes one. -/
def octetCount (number : Nat) : Nat :=
  number.log2 / 8 + 1

/-- The shortest big-endian bytes of a number; one zero byte for zero. -/
def bigEndian (number : Nat) : ByteArray :=
  (bigEndianOnto number (octetCount number) []).toByteArray

/-! ### Arrays of a known size -/

/-- A byte array of exactly `width` bytes. -/
structure Octets (width : Nat) where
  bytes : ByteArray
  size_eq : bytes.size = width

namespace Octets

theorem data_eq_iff {width : Nat} {first second : Octets width} :
    first.bytes.data = second.bytes.data ↔ first = second := by
  refine ⟨fun same => ?_, fun same => by rw [same]⟩
  cases first
  cases second
  cases ByteArray.ext same
  rfl

instance decidableEq {width : Nat} : DecidableEq (Octets width) :=
  fun _ _ => decidable_of_decidable_of_iff data_eq_iff

/-- The number in the array, least significant byte first. -/
def toNat {width : Nat} (octets : Octets width) : Nat :=
  ofLittleEndian octets.bytes.data.toList

end Octets

/-- The bytes of a number's `width` lowest digits as an array. -/
def word (width number : Nat) : ByteArray :=
  (littleEndian width number).toByteArray

end TypeLanguage
