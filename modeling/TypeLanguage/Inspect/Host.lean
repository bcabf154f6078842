/-
This file holds what the inspection tool needs from its surroundings, and why a file
cannot be had from them. The surroundings are an argument of the tool, so that it can
be run, and reasoned about, over any files, with any library for configurations, and
whatever order its tables are gone through in.
-/

import TypeLanguage.Config
import TypeLanguage.Schema.Basic
import TypeLanguage.Text.Quoted

namespace TypeLanguage.Inspect

/-- Why a file could not be read. -/
inductive ReadError
  /-- The system refused; by number, kind and wording. -/
  | system (code : Nat) (kind message : String)
  /-- The request or the contents were unusable; by kind and wording. -/
  | unusable (kind message : String)
  deriving DecidableEq, Repr

namespace ReadError

/-- There is no such file. -/
def notFound : ReadError :=
  .system 2 "NotFound" "No such file or directory"

/-- The file may not be read. -/
def permissionDenied : ReadError :=
  .system 13 "PermissionDenied" "Permission denied"

/-- A part of the path that is not the last one is no directory. -/
def notADirectory : ReadError :=
  .system 20 "NotADirectory" "Not a directory"

/-- The path leads to a directory. -/
def isADirectory : ReadError :=
  .system 21 "IsADirectory" "Is a directory"

/-- A part of the path, or all of it, is too long. -/
def nameTooLong : ReadError :=
  .system 36 "InvalidFilename" "File name too long"

/-- The path holds a zero character. -/
def zeroInName : ReadError :=
  .unusable "InvalidInput" "file name contained an unexpected NUL byte"

/-- The contents are no text. -/
def notText : ReadError :=
  .unusable "InvalidData" "stream did not contain valid UTF-8"

/-- The wording of the error. -/
def message : ReadError → String
  | system code _ message => message ++ " (os error " ++ Nat.repr code ++ ")"
  | unusable _ message => message

/-- All that is known of the error. -/
def details : ReadError → String
  | system code kind message =>
    "Os \x7b code: " ++ Nat.repr code ++ ", kind: " ++ kind ++ ", message: " ++
      Text.quoted message ++ " \x7d"
  | unusable kind message =>
    "Error \x7b kind: " ++ kind ++ ", message: " ++ Text.quoted message ++ " \x7d"

end ReadError

/-- The surroundings of the tool. -/
structure Host (m : Type → Type) where
  /-- The contents of a file. -/
  readFile : String → m (Except ReadError ByteArray)
  /-- What is left of the standard input. -/
  readInput : m (Except ReadError ByteArray)
  /-- The path of the configuration, if the environment gives one. -/
  configPath : Option String
  /-- The configuration in a text, or all that is known of the fault in it. -/
  parseConfig : String → Except String Config
  /-- The order in which constructors are gone through. -/
  order : Schema.Order

end TypeLanguage.Inspect
