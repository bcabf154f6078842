/-
This file holds the shapes of data whose layout is fixed without a schema: words,
fixed arrays, byte strings, text, and vectors of any of these with or without the
vector constructor in front. A shape says what type its values have, how they are
read and how they are written.
-/

import TypeLanguage.Text.Lossy
import TypeLanguage.Wire.Primitive

namespace TypeLanguage

/-- A layout that is fixed without a schema. -/
inductive Shape
  | bool
  | int32
  | word32
  | int64
  | double
  | octets16
  | octets32
  | bytes
  | text
  /-- A vector with its constructor identifier in front. -/
  | vector (element : Shape)
  /-- A vector of only its count and its elements. -/
  | bareVector (element : Shape)
  deriving DecidableEq, Repr

namespace Shape

/-- The values of a shape; a double is given by its bits. -/
def Carrier : Shape → Type
  | bool => Bool
  | int32 => Int32
  | word32 => UInt32
  | int64 => Int64
  | double => UInt64
  | octets16 => Octets 16
  | octets32 => Octets 32
  | bytes => ByteArray
  | text => String
  | vector element => List element.Carrier
  | bareVector element => List element.Carrier

/-- Reads a value. Every element of a vector is assumed to take a byte at least. -/
def read : (shape : Shape) → Reader shape.Carrier
  | bool => Reader.bool
  | int32 => Reader.int32
  | word32 => Reader.word32
  | int64 => Reader.int64
  | double => Reader.word64
  | octets16 => Reader.octets 16
  | octets32 => Reader.octets 32
  | bytes => Reader.byteString
  | text => do
    let bytes ← Reader.byteString
    return Text.lossy bytes
  | vector element => do
    Reader.vectorTag
    let count ← Reader.count 1
    Reader.replicate count element.read
  | bareVector element => do
    let count ← Reader.count 1
    Reader.replicate count element.read

/-- Writes a value after the bytes so far. -/
def writeOnto : (shape : Shape) → ByteArray → shape.Carrier → ByteArray
  | bool, done, value => done ++ Wire.bool value
  | int32, done, value => done ++ Wire.int32 value
  | word32, done, value => done ++ Wire.word32 value
  | int64, done, value => done ++ Wire.int64 value
  | double, done, value => done ++ Wire.word64 value
  | octets16, done, value => done ++ Octets.bytes value
  | octets32, done, value => done ++ Octets.bytes value
  | bytes, done, value => done ++ Wire.byteString value
  | text, done, value => done ++ Wire.byteString (String.toUTF8 value)
  | vector element, done, items =>
    List.foldl element.writeOnto
      (done ++ Wire.word32 Identifier.vector ++ Wire.count (List.length items)) items
  | bareVector element, done, items =>
    List.foldl element.writeOnto (done ++ Wire.count (List.length items)) items

/-- Writes a value. -/
def write (shape : Shape) (value : shape.Carrier) : ByteArray :=
  shape.writeOnto ByteArray.empty value

end Shape

end TypeLanguage
