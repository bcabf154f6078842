/-
This file is the inspection tool: it decodes files over schemas, and shows the
fingerprints of keys. A run prints lines as it goes, some of them complaints, and may
end in a failure. An input that cannot be decoded is complained about and does not keep
the others from being decoded; it only makes the run fail in the end.
-/

import TypeLanguage.Codec.Decode
import TypeLanguage.Config
import TypeLanguage.Inspect.Host
import TypeLanguage.Inspect.Options
import TypeLanguage.Inspect.Path
import TypeLanguage.Schema.Load
import TypeLanguage.Value.Display

namespace TypeLanguage.Inspect

/-! ### Failures and reports -/

/-- Why a run failed. -/
inductive Failure
  /-- The arguments make no command. -/
  | usage
  | missingValue (option : String)
  | unreadableConfig (cause : ReadError)
  | invalidConfig (details : String)
  | unreadableSchema (path : String) (cause : ReadError)
  | invalidSchema (path : String) (cause : SchemaError)
  | invalidKey (cause : KeyError)
  /-- Some of the inputs could not be decoded. -/
  | undecoded (failed total : Nat)
  deriving DecidableEq, Repr

/-- How the tool is called. -/
def usageText : String :=
  "usage: tl-inspect decode <file>... [--schema <file.tl>]... [--config <file.toml>]\n" ++
  "       tl-inspect fingerprint <modulus-hex> [<exponent-hex>]\n" ++
  "       tl-inspect keys [--config <file.toml>]"

/-- The name of a fault in a key. -/
def keyErrorName : KeyError → String
  | .invalidHex => "InvalidHex"
  | .invalidDecimal => "InvalidDecimal"
  | .zero => "Zero"

namespace Failure

/-- The failure as the last line shows it. -/
def text : Failure → String
  | usage => Text.quoted usageText
  | missingValue option => Text.quoted (option ++ " requires a value")
  | unreadableConfig cause => cause.details
  | invalidConfig details => details
  | unreadableSchema path cause => Text.quoted ("cannot read " ++ path ++ ": " ++ cause.message)
  | invalidSchema path cause => Text.quoted (path ++ ": " ++ cause.message)
  | invalidKey cause => keyErrorName cause
  | undecoded failed total =>
    Text.quoted (Nat.repr failed ++ " of " ++ Nat.repr total ++ " inputs could not be decoded")

end Failure

/-- What a run has printed so far. -/
structure Report where
  output : String
  complaints : String
  /-- What was noted on the way, one text for each note. -/
  notes : List String

/-- A run of the tool. -/
abbrev Run (m : Type → Type) := ExceptT Failure (StateT Report m)

variable {m : Type → Type} [Monad m]

/-- Lets the surroundings act during a run. -/
def perform {α : Type} (action : m α) : Run m α :=
  liftM action

/-- Prints a line. -/
def say (line : String) : Run m Unit :=
  modify fun report => { report with output := report.output ++ line ++ "\n" }

/-- Prints a line of complaint. -/
def complain (line : String) : Run m Unit :=
  modify fun report => { report with complaints := report.complaints ++ line ++ "\n" }

/-- Notes down texts. -/
def note (texts : List String) : Run m Unit :=
  modify fun report => { report with notes := report.notes ++ texts }

/-! ### Files -/

variable (host : Host m)

/-- The contents of a file as text. -/
def readText (path : String) : m (Except ReadError String) := do
  match ← host.readFile path with
  | .error cause => return .error cause
  | .ok bytes =>
    match String.fromUTF8? bytes with
    | some text => return .ok text
    | none => return .error .notText

/-- The configuration in a file, with its schema paths taken from the file's directory. -/
def readConfig (path : String) : Run m Config := do
  match ← perform (readText host path) with
  | .error cause => throw (.unreadableConfig cause)
  | .ok text =>
    match host.parseConfig text with
    | .error details => throw (.invalidConfig details)
    | .ok config =>
      return { config with schema := config.schema.map (Path.join (Path.directory path)) }

/-- The configuration of the last path given, or of the path in the environment. -/
def loadConfig (paths : List String) : Run m Config :=
  match paths.getLast?.or host.configPath with
  | some path => readConfig host path
  | none => return .empty

/-- The note of a built-in definition in a schema text. -/
def builtinNote (definition : List Char) : String :=
  "skipping built-in definition: " ++ String.ofList definition

/-- The note of a schema file that was added. -/
def loadedNote (path : String) (schema : Schema) : String :=
  "loaded " ++ path ++ ", " ++ Nat.repr schema.size ++ " constructors known"

/-- The schema with the definitions of files added in order. -/
def extendFrom [Crc32] (schema : Schema) : List String → Run m Schema
  | [] => return schema
  | path :: paths => do
    match ← perform (readText host path) with
    | .error cause => throw (.unreadableSchema path cause)
    | .ok text =>
      note ((Source.builtins (Source.readings text.toList)).map builtinNote)
      match schema.extend text host.order with
      | .error cause => throw (.invalidSchema path cause)
      | .ok schema =>
        note [loadedNote path schema]
        extendFrom schema paths

/-- The bytes of an input; a dash stands for the standard input. -/
def readInput (name : String) : m (Except ReadError ByteArray) :=
  if name = "-" then host.readInput else host.readFile name

/-! ### Commands -/

/-- The values of an option, and the other arguments. -/
def takeValues (option : String) (arguments : List String) :
    Run m (List String × List String) :=
  match takeValues? option arguments with
  | some taken => return taken
  | none => throw (.missingValue option)

/-- The display of the value in an input, or why there is none. -/
def inputText (codec : Codec) (contents : Except ReadError ByteArray) : Except String String :=
  match contents with
  | .error cause => .error cause.message
  | .ok bytes =>
    match codec.decodeExact bytes with
    | .error cause => .error cause.message
    | .ok value => .ok value.display

/-- Decodes the inputs in order, and gives the number of those that failed. -/
def decodeInputs (codec : Codec) : List String → Run m Nat
  | [] => return 0
  | name :: names => do
    match inputText codec (← perform (readInput host name)) with
    | .ok text =>
      say (name ++ ": " ++ text)
      decodeInputs codec names
    | .error cause =>
      complain (name ++ ": " ++ cause)
      return 1 + (← decodeInputs codec names)

/-- Decodes files and shows their values. -/
def decode [Crc32] [Gzip] (arguments : List String) : Run m Unit := do
  let (schemas, arguments) ← takeValues schemaOption arguments
  let (configs, inputs) ← takeValues configOption arguments
  let config ← loadConfig host configs
  if inputs.isEmpty then throw .usage
  let schema ← extendFrom host .empty (config.schema ++ schemas)
  let failed ← decodeInputs host { schema } inputs
  if failed ≠ 0 then throw (.undecoded failed inputs.length)

/-- Shows the fingerprint of a key. -/
def showFingerprint [Sha1] (arguments : List String) : Run m Unit := do
  let key ← match arguments with
    | [modulus] => pure (PublicKey.ofHex modulus defaultExponent)
    | [modulus, exponent] => pure (PublicKey.ofHex modulus exponent)
    | _ => throw .usage
  match key with
  | .ok key =>
    say ("0x" ++ Hex.encode key.fingerprint.bytes ++ " " ++ Int.repr key.fingerprintId.toInt)
  | .error cause => throw (.invalidKey cause)

/-- Shows configured keys, the first of which has the given number. -/
def showKeys [Sha1] (number : Nat) : List KeyConfig → Run m Unit
  | [] => return ()
  | config :: configs => do
    let name := config.name.getD ("#" ++ Nat.repr number)
    match config.publicKey with
    | .ok key =>
      say (name ++ ": " ++ key.display ++ " (" ++ Int.repr key.fingerprintId.toInt ++ ")")
    | .error cause => complain (name ++ ": " ++ cause.message)
    showKeys (number + 1) configs

/-- Shows the keys of the configuration. -/
def keys [Sha1] (arguments : List String) : Run m Unit := do
  let (configs, others) ← takeValues configOption arguments
  let config ← loadConfig host configs
  if ¬ others.isEmpty then throw .usage
  showKeys 0 config.keys

variable [Crc32] [Sha1] [Gzip]

/-- Runs the command that the arguments name. -/
def command (arguments : List String) : Run m Unit :=
  match arguments with
  | "decode" :: arguments => decode host arguments
  | "fingerprint" :: arguments => showFingerprint arguments
  | "keys" :: arguments => keys host arguments
  | _ => throw .usage

/-! ### Whole runs -/

/-- What a run leaves behind. -/
structure Outcome where
  /-- Zero, or one after a failure. -/
  exitCode : UInt32
  output : String
  errors : String
  /-- What was noted on the way, if the arguments ask for it. -/
  notes : List String

/-- Runs the tool. -/
def run (arguments : List String) : m Outcome := do
  let verbose := arguments.contains verboseOption
  let arguments := arguments.filter fun argument => argument != verboseOption
  let (result, report) ← (command host arguments).run ⟨"", "", []⟩
  let notes := if verbose then report.notes else []
  match result with
  | .ok () => return ⟨0, report.output, report.complaints, notes⟩
  | .error failure =>
    return ⟨1, report.output, report.complaints ++ "Error: " ++ failure.text ++ "\n", notes⟩

end TypeLanguage.Inspect
