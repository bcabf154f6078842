/-
This file holds the reasons why a value cannot be written, and their wording. A fault
in a field is wrapped in the field's name at each level that it passes on its way out.
-/

import TypeLanguage.Schema.Basic

namespace TypeLanguage

/-- Why a value could not be written. -/
inductive EncodeError
  /-- A value of this kind has no constructor, but one is due. -/
  | noConstructor (kind : String)
  /-- The object's constructor is not in the schema. -/
  | unknownConstructor (id : UInt32) (name : String)
  /-- The object's fields are not the parameters of its constructor. -/
  | fieldMismatch (object : String)
  /-- A flags field holds a value of another kind. -/
  | notFlags (param kind : String)
  /-- A field is absent though its flag is set, or present though it is not. -/
  | flagMismatch (object param : String) (flagIsSet : Bool) (flag : Flag)
  /-- A value of this kind does not fit the type. -/
  | wrongType (kind : String) (type : FieldType)
  /-- A byte string is longer than its length prefix can say. -/
  | byteStringTooLong (length limit : Nat)
  /-- The library could not pack the bytes. -/
  | compressionFailed (cause : String)
  /-- The fault lies in a field of an object. -/
  | inField (object param : String) (cause : EncodeError)
  deriving DecidableEq, Repr

namespace EncodeError

/-- What is wrong, in words. -/
def reason : EncodeError → String
  | noConstructor kind => kind ++ " has no constructor and cannot be boxed, use encode_as"
  | unknownConstructor id name =>
    "constructor " ++ Hex.word id ++ " (" ++ name ++ ") is not in the schema"
  | fieldMismatch object => "fields of " ++ object ++ " do not match its constructor"
  | notFlags param kind => "flags field " ++ param ++ " holds " ++ kind
  | flagMismatch object param flagIsSet flag =>
    object ++ "." ++ param ++ " is " ++ (if flagIsSet then "absent" else "present") ++ " but " ++
      flag.text ++ " says otherwise"
  | wrongType kind type => "cannot write " ++ kind ++ " as " ++ type.text
  | byteStringTooLong length limit =>
    "byte string of " ++ Nat.repr length ++ " bytes exceeds the " ++ Nat.repr limit ++
      " bytes a length prefix can hold"
  | compressionFailed cause => "compression failed: " ++ cause
  | inField object param cause => object ++ "." ++ param ++ ": " ++ cause.reason

/-- The wording of the error. -/
def message (error : EncodeError) : String :=
  "unencodable value: " ++ error.reason

end EncodeError

end TypeLanguage
