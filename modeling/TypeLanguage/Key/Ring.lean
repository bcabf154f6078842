/-
This file holds the set of trusted keys, by fingerprint. Of two keys with the same
fingerprint the one inserted last is kept.
-/

import Std.Data.TreeMap
import TypeLanguage.Key.PublicKey

namespace TypeLanguage

/-- Keys by their fingerprints. -/
structure KeyRing where
  table : Std.TreeMap Int64 PublicKey

namespace KeyRing

/-- The ring without keys. -/
def empty : KeyRing :=
  ⟨∅⟩

/-- The key with a fingerprint. -/
def get? (ring : KeyRing) (id : Int64) : Option PublicKey :=
  ring.table[id]?

@[simp] theorem get?_empty (id : Int64) : empty.get? id = none := by
  simp [empty, get?]

variable [Sha1]

/-- The ring with a key under its own fingerprint. -/
def insert (ring : KeyRing) (key : PublicKey) : KeyRing :=
  ⟨ring.table.insert key.fingerprintId key⟩

/-- The ring of keys inserted in order. -/
def ofList (keys : List PublicKey) : KeyRing :=
  keys.foldl insert empty

/-- How many keys there are. -/
def size (ring : KeyRing) : Nat :=
  ring.table.size

/-- All keys with their fingerprints, by rising fingerprint. -/
def toList (ring : KeyRing) : List (Int64 × PublicKey) :=
  ring.table.toList

/-- The first of the fingerprints offered that has a key, and the key. -/
def findFirstKnown? (ring : KeyRing) (offered : List Int64) : Option (Int64 × PublicKey) :=
  offered.findSome? fun id => (ring.get? id).map fun key => (id, key)

theorem get?_insert (ring : KeyRing) (key : PublicKey) (id : Int64) :
    (ring.insert key).get? id = if key.fingerprintId = id then some key else ring.get? id := by
  simp [insert, get?, Std.TreeMap.getElem?_insert]

end KeyRing

end TypeLanguage
