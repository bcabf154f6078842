/-
This file holds the codec: a schema and the limits that reading keeps to, with the library
by which objects are packed and unpacked.
-/

import TypeLanguage.Library
import TypeLanguage.Schema.Basic

namespace TypeLanguage

/-- A schema, and how values are read over it. -/
structure Codec where
  schema : Schema
  /-- How deeply objects, vectors and packed values may be nested. -/
  maxDepth : Nat := 64
  /-- Whether packed objects are expanded and replaced by what they hold. -/
  unpackGzip : Bool := true
  /-- How many bytes a packed object may expand to. -/
  maxUnpackedLen : Nat := 64 * 1024 * 1024
  [gzip : Gzip]

end TypeLanguage
