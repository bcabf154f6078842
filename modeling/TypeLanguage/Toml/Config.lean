/-
This file reads the configuration of the inspection tool. It is a TOML document with just
two entries, the schema files and the keys; anything else in it makes it invalid. A key may
be a table, or a list of its name, modulus and exponent.
-/

import TypeLanguage.Config
import TypeLanguage.Toml.Document

namespace TypeLanguage

namespace KeyConfig

/-- The strings under the given names, if no entry has another name and all are strings. -/
def strings? (names : List String) : List Toml.Entry → Option (List (String × String))
  | [] => some []
  | ([name], .string text) :: entries =>
    if name ∈ names then (strings? names entries).map ((name, text) :: ·) else none
  | _ => none

/-- The key in the entries of a table. -/
def ofEntries? (entries : List Toml.Entry) : Option KeyConfig := do
  let fields ← strings? ["name", "modulus", "exponent"] entries
  let modulus ← fields.lookup "modulus"
  return ⟨fields.lookup "name", modulus, (fields.lookup "exponent").getD defaultExponent⟩

/-- The key in a value. -/
def ofValue? : Toml.Value → Option KeyConfig
  | .table entries => ofEntries? entries
  | .array [.string name, .string modulus] => some ⟨some name, modulus, defaultExponent⟩
  | .array (.string name :: .string modulus :: .string exponent :: _) =>
    some ⟨some name, modulus, exponent⟩
  | _ => none

end KeyConfig

namespace Config

/-- The string in a value. -/
def string? : Toml.Value → Option String
  | .string text => some text
  | _ => none

/-- The configuration with the value of a top-level entry. -/
def addEntry? (config : Config) : Toml.Entry → Option Config
  | (["schema"], .array items) => do
    let paths ← items.mapM string?
    return { config with schema := paths }
  | (["keys"], .array items) => do
    let keys ← items.mapM KeyConfig.ofValue?
    return { config with keys }
  | _ => none

/-- The key in a section. -/
def sectionKey? (part : Toml.Section) : Option KeyConfig :=
  if part.key = ["keys"] ∧ part.isElement then KeyConfig.ofEntries? part.entries else none

/-- The configuration in a document. Keys are given by an entry or by sections, not by
both. -/
def ofDocument? (document : Toml.Document) : Option Config := do
  let config ← document.entries.foldlM addEntry? empty
  let keys ← document.sections.mapM sectionKey?
  if document.sections.isEmpty then return config
  else if document.entries.any fun entry => entry.1 = ["keys"] then none
  else return { config with keys }

/-- The configuration in a text. -/
def parse? (text : String) : Option Config :=
  (Toml.parse? text).bind ofDocument?

/-- The configuration in a text; of a fault nothing is told but that there is one. -/
def parse (text : String) : Except String Config :=
  match parse? text with
  | some config => .ok config
  | none => .error "Toml"

end Config

end TypeLanguage
