/-
This file names what is taken from libraries: two digests of byte strings, and their
packed form. Everything is defined, and proved, over any such library. Where a fact about
one is needed, it is assumed under its name.
-/

import TypeLanguage.Bytes.Word

namespace TypeLanguage

/-- A library for the CRC-32. -/
class Crc32 where
  /-- The checksum of a byte array. -/
  checksum : ByteArray → UInt32

/-- A library for SHA-1. -/
class Sha1 where
  /-- The digest of a message. -/
  digest : (message : ByteArray) → Octets 20

/-- A library for gzip members. -/
class Gzip where
  /-- A member that holds the given bytes, or why there is none. -/
  pack : (bytes : ByteArray) → Except String ByteArray
  /-- The first bytes that a member expands to, all of them if there are no more than `most`.
  There are none if a fault of the member comes before their end. -/
  expand : (packed : ByteArray) → (most : Nat) → Option ByteArray

namespace Gzip

/-- A member expands to the given bytes, however many of them are wanted. -/
def UnpacksTo (gzip : Gzip) (packed bytes : ByteArray) : Prop :=
  ∀ most, gzip.expand packed most = some (bytes.extract 0 most)

/-- What a library packs it expands again. -/
def UnpacksWhatItPacks (gzip : Gzip) : Prop :=
  ∀ {bytes packed}, gzip.pack bytes = .ok packed → gzip.UnpacksTo packed bytes

end Gzip

end TypeLanguage
