/-
This file writes values over a schema. Everything is written after the bytes so far,
by recursion on the value; the schema is asked for the layout of each object, and its
words of flags are computed from the fields that are present before any field of it is
written.
-/

import TypeLanguage.Codec.Basic
import TypeLanguage.Codec.Flags
import TypeLanguage.Wire.Primitive

namespace TypeLanguage

namespace Codec

/-! ### Parts without parts of their own -/

/-- The bytes of a byte string as written, if its length can be said. -/
def writtenBytes (bytes : ByteArray) : Except EncodeError ByteArray :=
  if Wire.longestByteString < bytes.size then
    .error (.byteStringTooLong bytes.size Wire.longestByteString)
  else .ok (Wire.byteString bytes)

/-- The constructor of an object. -/
def constructorOf (schema : Schema) (id : UInt32) (name : String) :
    Except EncodeError Constructor :=
  match schema.get? id with
  | some constructor => .ok constructor
  | none => .error (.unknownConstructor id name)

/-- The words of flags of an object, once its fields are checked against the parameters
of its constructor. -/
def flagsOf (name : String) (fields : List (String × Value)) (params : List Param) :
    Except EncodeError FlagWords := do
  if fields.map Prod.fst ≠ params.map Param.name then throw (.fieldMismatch name)
  let paired := (fields.map Prod.snd).zip params
  let flags ← FlagWords.compute params .empty paired
  FlagWords.check name flags paired
  return flags

/-- The bytes of a value without parts as a type demands it. Of these only a Boolean
and nothing have a constructor, by which they can be boxed. -/
def writtenLeaf (type : FieldType) (value : Value) : Except EncodeError ByteArray :=
  match type, value with
  | .int, .int number | .flags, .int number => .ok (Wire.int32 number)
  | .long, .long number => .ok (Wire.int64 number)
  | .int128, .int128 octets => .ok octets.bytes
  | .int256, .int256 octets => .ok octets.bytes
  | .double, .double bits => .ok (Wire.word64 bits)
  | .bool, .bool value | .boxed _, .bool value => .ok (Wire.bool value)
  | .boxed _, .nothing => .ok (Wire.word32 Identifier.null)
  | .trueFlag, .bool true => .ok ByteArray.empty
  | .bytes, .bytes content | .string, .bytes content => writtenBytes content
  | .bytes, .string text | .string, .string text => writtenBytes text.toUTF8
  | .boxed _, value => .error (.noConstructor value.kind)
  | type, value => .error (.wrongType value.kind type)

/-- What stands in front of the count of a vector as a type demands it, and the type of
its elements. The elements of a boxed vector are boxed too. -/
def vectorLayout (type : FieldType) : Except EncodeError (ByteArray × FieldType) :=
  match type with
  | .vector element => .ok (Wire.word32 Identifier.vector, element)
  | .bareVector element => .ok (ByteArray.empty, element)
  | .boxed _ => .ok (Wire.word32 Identifier.vector, .boxed none)
  | _ => .error (.wrongType "Vector" type)

/-- What stands in front of the fields of an object as a type demands it, and the
object's constructor. -/
def objectLayout (schema : Schema) (type : FieldType) (id : UInt32) (name : String) :
    Except EncodeError (ByteArray × Constructor) := do
  match type with
  | .boxed _ =>
    let constructor ← constructorOf schema id name
    return (Wire.word32 constructor.id, constructor)
  | .bare wanted =>
    if id = wanted then return (ByteArray.empty, ← constructorOf schema id name)
    else throw (.wrongType "Object" type)
  | _ => throw (.wrongType "Object" type)

mutual

/-- Writes a value as a type demands it. -/
def writeField (schema : Schema) (done : ByteArray) (type : FieldType) :
    Value → Except EncodeError ByteArray
  | .vector items =>
    match vectorLayout type with
    | .ok (front, element) =>
      writeItems schema (done ++ front ++ Wire.count items.length) element items
    | .error error => .error error
  | .object id name fields =>
    match objectLayout schema type id name with
    | .ok (front, constructor) =>
      match flagsOf name fields constructor.params with
      | .ok flags => writeFields schema name flags (done ++ front) fields constructor.params
      | .error error => .error error
    | .error error => .error error
  | value => (done ++ ·) <$> writtenLeaf type value

/-- Writes the elements of a vector, each one as the type demands it. -/
def writeItems (schema : Schema) (done : ByteArray) (type : FieldType) :
    List Value → Except EncodeError ByteArray
  | [] => .ok done
  | item :: items =>
    match writeField schema done type item with
    | .ok done => writeItems schema done type items
    | .error error => .error error

/-- Writes the words of flags of an object, and its fields that are present. -/
def writeFields (schema : Schema) (object : String) (flags : FlagWords) (done : ByteArray) :
    List (String × Value) → List Param → Except EncodeError ByteArray
  | (_, value) :: fields, param :: params =>
    if param.type = .flags then
      writeFields schema object flags
        (done ++ Wire.word32 ((flags.get? param.name).getD 0)) fields params
    else if param.flag.isNone || value.isPresentAs param.type then
      match writeField schema done param.type value with
      | .ok done => writeFields schema object flags done fields params
      | .error error => .error (.inField object param.name error)
    else writeFields schema object flags done fields params
  | _, _ => .ok done

end

/-! ### Whole values -/

/-- The bytes of a value as a type demands it. -/
def encodeAs (codec : Codec) (value : Value) (type : FieldType) : Except EncodeError ByteArray :=
  writeField codec.schema ByteArray.empty type value

/-- The bytes of a boxed value. The elements of vectors are boxed too. -/
def encode (codec : Codec) (value : Value) : Except EncodeError ByteArray :=
  codec.encodeAs value (.boxed none)

/-- A boxed value as a packed object. -/
def encodePacked (codec : Codec) (value : Value) : Except EncodeError ByteArray := do
  let bytes ← codec.encode value
  let packed ← (codec.gzip.pack bytes).mapError EncodeError.compressionFailed
  let written ← writtenBytes packed
  return Wire.word32 Identifier.gzipPacked ++ written

end Codec

end TypeLanguage
