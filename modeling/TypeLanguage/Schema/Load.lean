/-
This file loads schema text: it reads the definitions and adds them to a schema.
Loading either adds every definition or changes nothing. Bare types are looked up among the
constructors that are known before, in whatever order these are gone through.
-/

import TypeLanguage.Schema.Resolution
import TypeLanguage.Schema.Source

namespace TypeLanguage.Schema

variable [Crc32]

/-- The schema with the definitions of a text added. -/
def extend (schema : Schema) (text : String) (order : Order := .rising) :
    Except SchemaError Schema := do
  let definitions ← Source.definitions text.toList
  schema.addDefinitions definitions order

/-- The schema that a text describes. -/
def load (text : String) : Except SchemaError Schema :=
  empty.extend text

end TypeLanguage.Schema
