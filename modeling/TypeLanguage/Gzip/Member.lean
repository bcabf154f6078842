/-
This file is a library for gzip members: a header, compressed data, and a trailer with
the CRC-32 and the size of the expanded bytes. Packing stores the bytes uncompressed,
which every reader of the format expands to the same bytes. Expanding reads one
member, ignores what follows it, and ends once there is as much output as is wanted.
-/

import TypeLanguage.Checksum.Crc32
import TypeLanguage.Gzip.Inflate
import TypeLanguage.Wire.Primitive

namespace TypeLanguage.Gzip

/-! ### Expanding -/

/-- The longest name or comment that a header may hold. -/
def longestField : Nat := 65535

/-- Passes over a text that a zero byte ends and that has at most `room` bytes. -/
def skipText : (room : Nat) → Reader Unit
  | 0 => do
    if (← Reader.byte) = 0 then return () else throw .decompression
  | room + 1 => do
    if (← Reader.byte) = 0 then return () else skipText room

/-- Whether the header's flags have the bit of the given value. -/
def hasFlag (flags mask : UInt8) : Bool :=
  flags &&& mask != 0

/-- Passes over an extra field, and gives the position from which portions are counted.
A field that goes on to the end of the second portion is taken as a whole, and
the portions are counted from its end. -/
def extraField : Reader Nat := do
  Reader.skip (← Reader.octets 2).toNat
  let position := (← get).position
  return if 2 * portionSize ≤ position then position else 0

/-- Passes over a header, and checks its own checksum if it has one. Gives the position
from which portions are counted. -/
def header : Reader Nat := do
  let fixed ← Reader.octets 10
  match fixed.bytes.data.toList with
  | 0x1f :: 0x8b :: 8 :: flags :: _ =>
    if hasFlag flags 0xe0 then throw .decompression
    let origin ← if hasFlag flags 0x04 then extraField else pure 0
    if hasFlag flags 0x08 then skipText longestField
    if hasFlag flags 0x10 then skipText longestField
    if hasFlag flags 0x02 then
      let cursor ← get
      let expected := (Crc32.checksum (cursor.data.extract 0 cursor.position)).toNat % 65536
      let stored ← Reader.octets 2
      if stored.toNat ≠ expected then throw .decompression
    return origin
  | _ => throw .decompression

/-- Checks the trailer at a position against the expanded bytes. -/
def trailerMatches (packed : ByteArray) (position : Nat) (unpacked : ByteArray) : Bool :=
  let trailer := (packed.extract position (position + 8)).data.toList
  trailer == littleEndian 4 (Crc32.checksum unpacked).toNat ++ littleEndian 4 unpacked.size

/-- The first bytes that a member expands to. The expansion may run past them up to the end
of a portion or a window; data that merely ends early has been put out up to its end. -/
def expandMember (packed : ByteArray) (most : Nat) : Option ByteArray :=
  match header (Cursor.ofBytes packed) with
  | .error _ _ => none
  | .ok origin cursor =>
    match inflate ⟨packed, origin, most - 1⟩ cursor.position with
    | .ok _ progress =>
      if most ≤ progress.output.size ∨
          trailerMatches packed (progress.bit / 8) progress.output then
        some (progress.output.extract 0 most)
      else none
    | .error .full progress => some (progress.output.extract 0 most)
    | .error .truncated progress =>
      if most ≤ progress.output.size then some (progress.output.extract 0 most) else none
    | .error .corrupt _ => none

/-! ### Packing -/

/-- The most bytes that one stored block holds. -/
def longestBlock : Nat := 65535

/-- A stored block: its mark, the number of its bytes, the complement of that, the bytes. -/
def storedBlock (last : Bool) (bytes : ByteArray) : ByteArray :=
  ((if last then (1 : UInt8) else 0) :: littleEndian 2 bytes.size ++
    littleEndian 2 (65535 - bytes.size)).toByteArray ++ bytes

/-- Appends the bytes from a position on as stored blocks. -/
def storeOnto (done bytes : ByteArray) (start : Nat) : ByteArray :=
  if bytes.size - start ≤ longestBlock then
    done ++ storedBlock true (bytes.extract start bytes.size)
  else
    storeOnto (done ++ storedBlock false (bytes.extract start (start + longestBlock))) bytes
      (start + longestBlock)
termination_by bytes.size - start
decreasing_by
  simp only [longestBlock] at *
  omega

/-- The header of a member without a name, a date or a known system. -/
def plainHeader : List UInt8 :=
  [0x1f, 0x8b, 8, 0, 0, 0, 0, 0, 0, 0xff]

/-- A member that holds the given bytes as they are. -/
def store (bytes : ByteArray) : ByteArray :=
  storeOnto plainHeader.toByteArray bytes 0 ++
    (littleEndian 4 (Crc32.checksum bytes).toNat ++ littleEndian 4 bytes.size).toByteArray

instance storing : Gzip where
  pack bytes := .ok (store bytes)
  expand := expandMember

end TypeLanguage.Gzip
