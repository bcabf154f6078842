/-
This file holds the wire forms that every layout is made of: little-endian words,
Booleans as constructor identifiers, counts that are checked against the bytes
left, and byte strings. A byte string is its length, its bytes and up to three
padding bytes that complete a multiple of four; lengths below 254 take one byte,
longer ones a mark and three bytes.
-/

import TypeLanguage.Bytes.Cursor

namespace TypeLanguage

/-! ### Built-in identifiers -/

namespace Identifier

/-- The identifier of `boolTrue`. -/
def boolTrue : UInt32 := 0x997275b5

/-- The identifier of `boolFalse`. -/
def boolFalse : UInt32 := 0xbc799737

/-- The identifier of `true`, which a Boolean may carry instead of `boolTrue`. -/
def trueFlag : UInt32 := 0x3fedd339

/-- The identifier of `vector`. -/
def vector : UInt32 := 0x1cb5c415

/-- The identifier of `null`. -/
def null : UInt32 := 0x56730bcc

/-- The identifier of `gzip_packed`. -/
def gzipPacked : UInt32 := 0x3072cfa1

end Identifier

/-! ### Reading -/

namespace Reader

/-- A 32-bit word. -/
def word32 : Reader UInt32 := do
  return UInt32.ofNat (← octets 4).toNat

/-- A signed 32-bit number. -/
def int32 : Reader Int32 := do
  return (← word32).toInt32

/-- A 64-bit word. -/
def word64 : Reader UInt64 := do
  return UInt64.ofNat (← octets 8).toNat

/-- A signed 64-bit number. -/
def int64 : Reader Int64 := do
  return (← word64).toInt64

/-- A Boolean, by its constructor identifier. -/
def bool : Reader Bool := do
  let id ← word32
  if id = Identifier.boolTrue ∨ id = Identifier.trueFlag then return true
  else if id = Identifier.boolFalse then return false
  else throw (.unexpectedConstructor "Bool" id)

/-- The constructor identifier of a vector. -/
def vectorTag : Reader Unit := do
  let id ← word32
  if id = Identifier.vector then return ()
  else throw (.unexpectedConstructor "Vector" id)

/-- A count of elements that take at least `least` bytes each, all of which must
still be there. -/
def count (least : Nat) : Reader Nat := do
  let declared := (← word32).toNat
  let left ← remaining
  if left < declared * least then throw (.malformedLength declared left)
  else return declared

end Reader

/-- How many bytes complete a size to a multiple of four. -/
def padding (size : Nat) : Nat :=
  (4 - size % 4) % 4

theorem padding_lt (size : Nat) : padding size < 4 :=
  Nat.mod_lt _ (by decide)

theorem add_padding_mod (size : Nat) : (size + padding size) % 4 = 0 := by
  unfold padding
  omega

namespace Reader

/-- The bytes of a byte string after a header of `header` bytes that declared
`length`, and their padding, whatever it holds. -/
def byteStringBody (header length : Nat) : Reader ByteArray := do
  let bytes ← take length
  skip (padding (header + length))
  return bytes

/-- A byte string. -/
def byteString : Reader ByteArray := do
  let first ← byte
  if first = 255 then throw (.malformedLength 255 (← remaining))
  else if first = 254 then
    let length ← octets 3
    byteStringBody 4 length.toNat
  else byteStringBody 1 first.toNat

end Reader

/-! ### Writing -/

namespace Wire

/-- A 32-bit word. -/
def word32 (number : UInt32) : ByteArray :=
  word 4 number.toNat

/-- A signed 32-bit number. -/
def int32 (number : Int32) : ByteArray :=
  word32 number.toUInt32

/-- A 64-bit word. -/
def word64 (number : UInt64) : ByteArray :=
  word 8 number.toNat

/-- A signed 64-bit number. -/
def int64 (number : Int64) : ByteArray :=
  word64 number.toUInt64

/-- A Boolean, as its constructor identifier. -/
def bool (value : Bool) : ByteArray :=
  word32 (if value then Identifier.boolTrue else Identifier.boolFalse)

/-- A count, of which the word keeps the lowest 32 bits. -/
def count (number : Nat) : ByteArray :=
  word 4 number

/-- The longest byte string whose length three bytes can hold. -/
def longestByteString : Nat := 2 ^ 24 - 1

/-- The header of a byte string of the given length, of which the long form keeps
the lowest 24 bits. -/
def byteStringHeader (length : Nat) : List UInt8 :=
  if length ≤ 253 then [UInt8.ofNat length] else 254 :: littleEndian 3 length

/-- A byte string, with zeros for padding. -/
def byteString (bytes : ByteArray) : ByteArray :=
  let header := byteStringHeader bytes.size
  header.toByteArray ++ bytes ++
    (List.replicate (padding (header.length + bytes.size)) (0 : UInt8)).toByteArray

end Wire

end TypeLanguage
