/-
This file holds RSA public keys. A key is a pair of positive numbers, however it was
written: as big-endian bytes, in hexadecimal, or in decimal. Its fingerprint is taken
over the shortest bytes of the two numbers, so it depends on the key alone.
-/

import TypeLanguage.Bytes.Hex
import TypeLanguage.Library
import TypeLanguage.Wire.Primitive

namespace TypeLanguage

/-- Why a key cannot be built. -/
inductive KeyError
  /-- A component is no hexadecimal text. -/
  | invalidHex
  /-- A component is no decimal number. -/
  | invalidDecimal
  /-- A component is zero. -/
  | zero
  deriving DecidableEq, Repr

namespace KeyError

/-- The wording of the error. -/
def message : KeyError → String
  | invalidHex => "invalid hexadecimal key component"
  | invalidDecimal => "invalid decimal key component"
  | zero => "key components must not be zero"

end KeyError

/-! ### Decimal numbers -/

namespace Decimal

/-- Continues a number with the digits that follow it; underscores are passed over. -/
def extend : (value : Nat) → List Char → Option Nat
  | value, [] => some value
  | value, character :: rest =>
    if character = '_' then extend value rest
    else if '0' ≤ character ∧ character ≤ '9' then extend (10 * value + (character.toNat - 48)) rest
    else none

/-- The text without one leading plus sign. -/
def dropSign (text : List Char) : List Char :=
  match text with
  | '+' :: digits => digits
  | digits => digits

/-- The number of a text without sign and blanks, in which a digit comes first. -/
def unsigned? (text : List Char) : Option Nat :=
  match text with
  | [] => none
  | '_' :: _ => none
  | digits => extend 0 digits

/-- The number that a text denotes. Blanks may surround it, one plus sign may precede
its digits, and underscores may stand anywhere but in front of them. -/
def parse? (text : List Char) : Option Nat :=
  unsigned? (dropSign (Text.trim text))

end Decimal

/-! ### Fingerprints -/

/-- What a fingerprint is taken over: the components of a key, each as a byte string. -/
def hashed (modulus exponent : ByteArray) : ByteArray :=
  Wire.byteString modulus ++ Wire.byteString exponent

/-- The last eight bytes of a digest, in reverse. -/
def reversedTail (digest : Octets 20) : Octets 8 :=
  ⟨(digest.bytes.data.toList.drop 12).reverse.toByteArray, by
    have size : digest.bytes.data.toList.length = 20 := digest.size_eq
    rw [List.size_toByteArray, List.length_reverse, List.length_drop, size]⟩

/-- The fingerprint of a key's components under a digest of twenty bytes. -/
def fingerprintBy (digest : ByteArray → Octets 20) (modulus exponent : ByteArray) : Octets 8 :=
  reversedTail (digest (hashed modulus exponent))

/-- The fingerprint of a key's components. -/
def fingerprint [Sha1] (modulus exponent : ByteArray) : Octets 8 :=
  fingerprintBy Sha1.digest modulus exponent

/-! ### Keys -/

/-- A public key. -/
structure PublicKey where
  modulus : Nat
  exponent : Nat
  deriving DecidableEq, Repr

namespace PublicKey

/-- The key of two numbers, neither of which may be zero. -/
def ofNumbers (modulus exponent : Nat) : Except KeyError PublicKey :=
  if modulus = 0 ∨ exponent = 0 then .error .zero else .ok ⟨modulus, exponent⟩

/-- The key whose components are given by their big-endian bytes. -/
def ofBytes (modulus exponent : ByteArray) : Except KeyError PublicKey :=
  ofNumbers (ofBigEndian modulus) (ofBigEndian exponent)

/-- The key whose components are given in hexadecimal. -/
def ofHex (modulus exponent : String) : Except KeyError PublicKey :=
  match Hex.decode modulus, Hex.decode exponent with
  | some modulus, some exponent => ofBytes modulus exponent
  | _, _ => .error .invalidHex

/-- The key whose components are given in decimal. -/
def ofDecimal (modulus exponent : String) : Except KeyError PublicKey :=
  match Decimal.parse? modulus.toList, Decimal.parse? exponent.toList with
  | some modulus, some exponent => ofNumbers modulus exponent
  | _, _ => .error .invalidDecimal

/-- What the fingerprint is taken over, for the shortest bytes of the components. -/
def hashed (key : PublicKey) : ByteArray :=
  TypeLanguage.hashed (bigEndian key.modulus) (bigEndian key.exponent)

/-- The fingerprint under a digest, over the shortest bytes of the components. -/
def fingerprintBy (digest : ByteArray → Octets 20) (key : PublicKey) : Octets 8 :=
  TypeLanguage.fingerprintBy digest (bigEndian key.modulus) (bigEndian key.exponent)

/-- The fingerprint under a digest as a signed number, most significant byte first. -/
def fingerprintIdBy (digest : ByteArray → Octets 20) (key : PublicKey) : Int64 :=
  (UInt64.ofNat (ofBigEndian (key.fingerprintBy digest).bytes)).toInt64

/-- The fingerprint, over the shortest bytes of the components. -/
def fingerprint [Sha1] (key : PublicKey) : Octets 8 :=
  key.fingerprintBy Sha1.digest

/-- The fingerprint as a signed number, most significant byte first. -/
def fingerprintId [Sha1] (key : PublicKey) : Int64 :=
  key.fingerprintIdBy Sha1.digest

/-- The number of bits of the modulus. -/
def bits (key : PublicKey) : Nat :=
  if key.modulus = 0 then 0 else key.modulus.log2 + 1

/-- The display of a key: its size and its fingerprint. -/
def display [Sha1] (key : PublicKey) : String :=
  Nat.repr key.bits ++ "-bit RSA key 0x" ++ Hex.encode key.fingerprint.bytes

end PublicKey

end TypeLanguage
