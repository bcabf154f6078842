/-
This file is the command line of the inspection tool: it hands the arguments, the files
and the environment to the tool, and puts out what the tool leaves behind.
-/

import TypeLanguage.Checksum.Sha1
import TypeLanguage.Gzip.Member
import TypeLanguage.Inspect.Tool
import TypeLanguage.Toml.Config

namespace TypeLanguage.Inspect

/-- The number of a fault, which some calls of the system report as its negative. -/
def faultNumber (code : UInt32) : Nat :=
  min code.toNat (0 - code).toNat

/-- Why the system did not read a file. -/
def readErrorOf (error : IO.Error) : ReadError :=
  match error with
  | .noFileOrDirectory .. => .notFound
  | .permissionDenied .. => .permissionDenied
  | .inappropriateType _ code _ =>
    if faultNumber code = 20 then .notADirectory else .isADirectory
  | .invalidArgument _ code _ =>
    if faultNumber code = 36 then .nameTooLong else .unusable "InvalidInput" error.toString
  | _ => .unusable "Other" error.toString

/-- Reads a file of the system. -/
def readSystemFile (path : String) : IO (Except ReadError ByteArray) := do
  if path.toList.contains '\x00' then return .error .zeroInName
  try
    return .ok (← IO.FS.readBinFile path)
  catch error =>
    return .error (readErrorOf error)

/-- Reads what is left of the standard input of the system. -/
def readSystemInput : IO (Except ReadError ByteArray) := do
  try
    return .ok (← (← IO.getStdin).readBinToEnd)
  catch error =>
    return .error (readErrorOf error)

/-- The variable of the environment that holds the path of the configuration. -/
def configVariable : String := "TLCAT_CONFIG"

/-- The surroundings that the system provides. -/
def systemHost : IO (Host IO) := do
  let configPath ← IO.getEnv configVariable
  return ⟨readSystemFile, readSystemInput, configPath, Config.parse, .rising⟩

end TypeLanguage.Inspect

open TypeLanguage.Inspect in
/-- Runs the tool with the arguments of the command line. -/
def main (arguments : List String) : IO UInt32 := do
  let outcome ← run (← systemHost) arguments
  for text in outcome.notes do IO.println text
  IO.print outcome.output
  IO.eprint outcome.errors
  return outcome.exitCode
