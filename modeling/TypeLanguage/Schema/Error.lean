/-
This file holds the reasons why the text of a schema cannot be loaded, and their
wording.
-/

import TypeLanguage.Text.Numeral

namespace TypeLanguage

/-- Why the text of a schema could not be loaded. -/
inductive SchemaError
  /-- The definition is empty. -/
  | empty
  /-- The explicit identifier is no 32-bit hexadecimal number. -/
  | invalidId (cause : Text.NumeralError)
  /-- A parameter or type is malformed; the part at fault is given as written. -/
  | invalidParam (param : String)
  /-- A condition names a flags parameter that was not declared before it. -/
  | missingFlags (name : String)
  /-- A reference names a generic type that was not declared. -/
  | missingGeneric (name : String)
  /-- The definition has no name. -/
  | missingName
  /-- The definition has no type. -/
  | missingType
  /-- The definition describes a built-in type. -/
  | notImplemented
  /-- A separator is neither of the two known ones. -/
  | unknownSeparator
  /-- A bare type does not name exactly one constructor; it is given as written. -/
  | unresolvedBareType (name : String)
  deriving DecidableEq, Repr

namespace SchemaError

/-- The wording of the error. -/
def message : SchemaError → String
  | empty => "empty definition"
  | invalidId cause => "invalid constructor id: " ++ cause.message
  | invalidParam param => "invalid parameter: " ++ param
  | missingFlags name => "flags field " ++ name ++ " is not declared"
  | missingGeneric name => "generic " ++ name ++ " is not declared"
  | missingName => "definition has no name"
  | missingType => "definition has no type"
  | notImplemented => "built-in definitions cannot be loaded"
  | unknownSeparator => "unknown separator"
  | unresolvedBareType name => "bare type " ++ name ++ " does not name a single constructor"

end SchemaError

end TypeLanguage
