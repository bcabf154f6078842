/-
This file holds the reasons why bytes cannot be read as a value, and their
wording. Each reason carries just the numbers that its wording shows.
-/

import TypeLanguage.Bytes.Hex

namespace TypeLanguage

/-- Why bytes could not be read. -/
inductive DecodeError
  /-- The bytes end before the value does. -/
  | truncated
  /-- The schema has no constructor with this identifier. -/
  | unknownConstructor (id : UInt32)
  /-- The constructor found is not of the type that the place demands. -/
  | unexpectedConstructor (expected : String) (id : UInt32)
  /-- A declared length or count cannot be met by the bytes that remain. -/
  | malformedLength (declared remaining : Nat)
  /-- Objects and vectors are nested past the limit. -/
  | tooDeep (limit : Nat)
  /-- A whole value was read and bytes are left. -/
  | trailingBytes (count : Nat)
  /-- A packed object is no intact compressed data. -/
  | decompression
  /-- A packed object expands past the limit. -/
  | unpackedTooLarge (limit : Nat)
  deriving DecidableEq, Repr

namespace DecodeError

/-- The wording of the error. -/
def message : DecodeError → String
  | truncated => "unexpected end of data"
  | unknownConstructor id => "unknown constructor: " ++ Hex.word id
  | unexpectedConstructor expected id =>
    "unexpected constructor " ++ Hex.word id ++ " for " ++ expected
  | malformedLength declared remaining =>
    "malformed length: " ++ Nat.repr declared ++ " declared with " ++ Nat.repr remaining ++
      " bytes remaining"
  | tooDeep limit => "values nested deeper than " ++ Nat.repr limit
  | trailingBytes count => Nat.repr count ++ " trailing bytes after value"
  | decompression => "failed to decompress packed object"
  | unpackedTooLarge limit => "packed object expands past " ++ Nat.repr limit ++ " bytes"

end DecodeError

end TypeLanguage
