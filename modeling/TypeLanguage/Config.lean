/-
This file holds the configuration of the inspection tool: the schema files to load and
the keys to trust. How a configuration is read from a text is up to a library.
-/

import TypeLanguage.Key.PublicKey

namespace TypeLanguage

/-- A key as configured. -/
structure KeyConfig where
  name : Option String
  /-- The modulus in hexadecimal. -/
  modulus : String
  /-- The exponent in hexadecimal. -/
  exponent : String
  deriving DecidableEq, Repr

/-- A configuration. -/
structure Config where
  /-- The paths of schema files. -/
  schema : List String
  keys : List KeyConfig
  deriving DecidableEq, Repr

/-- The exponent of a key that gives none, 65537 in hexadecimal. -/
def defaultExponent : String := "010001"

/-- The key that is described. -/
def KeyConfig.publicKey (config : KeyConfig) : Except KeyError PublicKey :=
  PublicKey.ofHex config.modulus config.exponent

/-- The configuration without schema files and keys. -/
def Config.empty : Config :=
  ⟨[], []⟩

end TypeLanguage
