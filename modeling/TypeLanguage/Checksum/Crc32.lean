/-
This file holds the IEEE CRC-32 of a byte array: the remainder of the bytes, as a
polynomial over two elements with the lowest bit first, by the polynomial
`0xedb88320`, with the register complemented before and after. A byte is taken in
one step through a table of the eight single-bit steps.
-/

import TypeLanguage.Library

namespace TypeLanguage.Crc32

/-- The remainder after one more zero bit. -/
def shiftBit (register : UInt32) : UInt32 :=
  if register &&& 1 = 1 then (register >>> 1) ^^^ 0xedb88320 else register >>> 1

/-- The remainder after `count` more zero bits. -/
def shiftBits : Nat → UInt32 → UInt32
  | 0, register => register
  | count + 1, register => shiftBits count (shiftBit register)

/-- The remainders that the low byte of the register leads to. -/
def table : Vector UInt32 256 :=
  Vector.ofFn fun low => shiftBits 8 (UInt32.ofNat low.val)

/-- The register after one more byte. -/
def step (register : UInt32) (byte : UInt8) : UInt32 :=
  let low := (register ^^^ byte.toUInt32).toUInt8
  table.get ⟨low.toNat, low.toNat_lt⟩ ^^^ (register >>> 8)

/-- The checksum by the table. -/
def tableChecksum (bytes : ByteArray) : UInt32 :=
  ~~~(bytes.foldl step 0xffffffff)

instance byTable : Crc32 :=
  ⟨tableChecksum⟩

end TypeLanguage.Crc32
