/-
This file holds decoded values. A value carries no type beyond its own form, so the
schema is needed to write it back. A double is given by its bits, so that no bit of a
NaN is lost, and the wide integers by their bytes in wire order.
-/

import TypeLanguage.Bytes.Word

namespace TypeLanguage

/-- A decoded value. -/
inductive Value
  /-- An `int`, or the word of a flags field. -/
  | int (number : Int32)
  | long (number : Int64)
  | int128 (octets : Octets 16)
  | int256 (octets : Octets 32)
  | bool (value : Bool)
  | double (bits : UInt64)
  /-- Bytes, or a string that is not valid UTF-8. -/
  | bytes (content : ByteArray)
  | string (text : String)
  | vector (items : List Value)
  /-- An instance of a constructor, with all its fields by name in order. -/
  | object (id : UInt32) (name : String) (fields : List (String × Value))
  /-- An absent conditional field, or `null`. -/
  | nothing

namespace Value

/-- A short name for the form of a value. -/
def kind : Value → String
  | int _ => "int"
  | long _ => "long"
  | int128 _ => "int128"
  | int256 _ => "int256"
  | bool _ => "Bool"
  | double _ => "double"
  | bytes _ => "bytes"
  | string _ => "string"
  | vector _ => "Vector"
  | object .. => "Object"
  | nothing => "null"

/-! ### Views -/

/-- The number of an `int`. -/
def int? : Value → Option Int32
  | int number => some number
  | _ => none

/-- The number of a `long`. -/
def long? : Value → Option Int64
  | long number => some number
  | _ => none

/-- The Boolean of a `Bool`. -/
def bool? : Value → Option Bool
  | bool value => some value
  | _ => none

/-- The bits of a `double`. -/
def double? : Value → Option UInt64
  | double bits => some bits
  | _ => none

/-- The bytes of `bytes`, or of a `string`. -/
def bytes? : Value → Option ByteArray
  | bytes content => some content
  | string text => some text.toUTF8
  | _ => none

/-- The text of a `string`. -/
def string? : Value → Option String
  | string text => some text
  | _ => none

/-- The elements of a vector. -/
def vector? : Value → Option (List Value)
  | vector items => some items
  | _ => none

/-- The name and the fields of an object. -/
def object? : Value → Option (String × List (String × Value))
  | object _ name fields => some (name, fields)
  | _ => none

/-- The first field of an object with a name. -/
def field? (name : String) : Value → Option Value
  | object _ _ fields => (fields.find? fun field => field.1 = name).map Prod.snd
  | _ => none

/-- Whether the value stands for nothing. -/
def isNothing : Value → Bool
  | nothing => true
  | _ => false

end Value

end TypeLanguage
