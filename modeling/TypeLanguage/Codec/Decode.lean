/-
This file reads values over a schema. The parts of a value that nest, namely boxed
values, the elements of vectors and the fields of objects, are read at a level, and
each level reads the parts within it at the next one. The recursion is on the number
of levels left, so that it ends however the schema refers to itself, and the limit on
nesting is the recursion itself running out.
-/

import TypeLanguage.Codec.Basic
import TypeLanguage.Codec.Flags
import TypeLanguage.Wire.Primitive

namespace TypeLanguage

/-- A part of a value that takes up a level. -/
inductive Part
  /-- A constructor identifier and what it introduces; of the given type if one is named. -/
  | boxed (typeName : Option String)
  /-- The count and the elements of a vector. -/
  | elements (type : FieldType)
  /-- The fields of an object. -/
  | object (constructor : Constructor)

/-- The bytes that a packed byte string expands to, unless there are too many. One byte more
than the limit allows is asked for to tell. -/
def Gzip.unpack [Gzip] (packed : ByteArray) (limit : Nat) : Except DecodeError ByteArray :=
  match Gzip.expand packed (limit + 1) with
  | some bytes => if limit < bytes.size then .error (.unpackedTooLarge limit) else .ok bytes
  | none => .error .decompression

namespace Codec

variable (codec : Codec)

/-! ### One level -/

/-- Whether a constructor may stand where a type is named: it has to be of that type,
unless it is a function. -/
def isExpected (typeName : Option String) (constructor : Constructor) : Bool :=
  match typeName with
  | some typeName => constructor.category = .functions || constructor.typeName = typeName
  | none => true

/-- The bytes that a packed byte string expands to within the limit. -/
def unpack (packed : ByteArray) : Except DecodeError ByteArray :=
  @Gzip.unpack codec.gzip packed codec.maxUnpackedLen

/-- The bytes of a packed object. -/
def unpacked : Reader ByteArray := do
  let packed ← Reader.byteString
  match codec.unpack packed with
  | .ok bytes => return bytes
  | .error error => throw error

/-- The constructor with an identifier. -/
def known (id : UInt32) : Reader Constructor :=
  match codec.schema.get? id with
  | some constructor => return constructor
  | none => throw (.unknownConstructor id)

/-- Reads a boxed value whose parts are read by `deeper`. -/
def readBoxed (deeper : Part → Reader Value) (typeName : Option String) : Reader Value := do
  let id ← Reader.word32
  if id = Identifier.boolTrue then return .bool true
  else if id = Identifier.boolFalse then return .bool false
  else if id = Identifier.null then return .nothing
  else if id = Identifier.vector then deeper (.elements (.boxed none))
  else if id = Identifier.gzipPacked ∧ codec.unpackGzip then
    let bytes ← codec.unpacked
    Reader.inside bytes (deeper (.boxed typeName))
  else
    let constructor ← codec.known id
    if isExpected typeName constructor then deeper (.object constructor)
    else throw (.unexpectedConstructor (typeName.getD "") id)

/-- A string, or its bytes if they are not valid UTF-8. -/
def stringOfBytes (bytes : ByteArray) : Value :=
  match String.fromUTF8? bytes with
  | some text => .string text
  | none => .bytes bytes

/-- Reads a field of a type. A boxed field is read at the same level by `boxed`, and
the parts of vectors and bare objects are read by `deeper`. -/
def readField (boxed : Option String → Reader Value) (deeper : Part → Reader Value) :
    FieldType → Reader Value
  | .int | .flags => do return .int (← Reader.int32)
  | .long => do return .long (← Reader.int64)
  | .int128 => do return .int128 (← Reader.octets 16)
  | .int256 => do return .int256 (← Reader.octets 32)
  | .double => do return .double (← Reader.word64)
  | .bool => do return .bool (← Reader.bool)
  | .trueFlag => return .bool true
  | .bytes => do return .bytes (← Reader.byteString)
  | .string => do return stringOfBytes (← Reader.byteString)
  | .vector element => do
    Reader.vectorTag
    deeper (.elements element)
  | .bareVector element => deeper (.elements element)
  | .boxed typeName => boxed typeName
  | .bare id => do
    let constructor ← codec.known id
    deeper (.object constructor)

/-- Reads the fields for the parameters that are left, when `flags` are the words read
so far. -/
def readParams (field : FieldType → Reader Value) (flags : FlagWords) :
    List Param → Reader (List (String × Value))
  | [] => return []
  | param :: params => do
    if (param.flag.all fun flag => flags.has flag) = false then
      let fields ← readParams field flags params
      return (param.name, .nothing) :: fields
    else if param.type = .flags then
      let word ← Reader.word32
      let fields ← readParams field (flags.push param.name word) params
      return (param.name, .int word.toInt32) :: fields
    else
      let value ← field param.type
      let fields ← readParams field flags params
      return (param.name, value) :: fields

/-- Reads a part whose own parts are read by `deeper`. -/
def readPart (deeper : Part → Reader Value) : Part → Reader Value
  | .boxed typeName => codec.readBoxed deeper typeName
  | .elements type => do
    let count ← Reader.count (max type.leastSize 1)
    let items ← Reader.replicate count (codec.readField (codec.readBoxed deeper) deeper type)
    return .vector items
  | .object constructor => do
    let fields ← readParams (codec.readField (codec.readBoxed deeper) deeper) .empty
      constructor.params
    return .object constructor.id constructor.name fields

/-! ### All levels -/

/-- Reads a part when `room` levels are left. -/
def readWithin : (room : Nat) → Part → Reader Value
  | 0, _ => throw (.tooDeep codec.maxDepth)
  | room + 1, part => codec.readPart (readWithin room) part

/-- Reads a value of a type when `room` levels are left. -/
def readFieldWithin (room : Nat) (type : FieldType) : Reader Value :=
  codec.readField (fun typeName => codec.readWithin room (.boxed typeName))
    (codec.readWithin (room - 1)) type

/-! ### Whole values -/

/-- Reads a boxed value; on failure the cursor stays where it is. -/
def decodeFrom : Reader Value :=
  Reader.atomically (codec.readWithin codec.maxDepth (.boxed none))

/-- Reads a value of a type; on failure the cursor stays where it is. -/
def decodeAsFrom (type : FieldType) : Reader Value :=
  Reader.atomically (codec.readFieldWithin codec.maxDepth type)

/-- The boxed value at the start of the bytes. -/
def decode (data : ByteArray) : Except DecodeError Value :=
  codec.decodeFrom.run data

/-- The value of a type at the start of the bytes. -/
def decodeAs (data : ByteArray) (type : FieldType) : Except DecodeError Value :=
  (codec.decodeAsFrom type).run data

/-- The boxed value that takes up all the bytes. -/
def decodeExact (data : ByteArray) : Except DecodeError Value :=
  match codec.decodeFrom (Cursor.ofBytes data) with
  | .error error _ => .error error
  | .ok value cursor =>
    if cursor.remaining = 0 then .ok value else .error (.trailingBytes cursor.remaining)

end Codec

end TypeLanguage
