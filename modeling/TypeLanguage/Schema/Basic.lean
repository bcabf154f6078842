/-
This file holds what a schema knows: for each constructor identifier, the name of
the constructor, the type it belongs to, and the layout of its parameters. A
parameter may be conditional, that is present only if a bit of an earlier flags
word is set.
-/

import Std.Data.TreeMap
import TypeLanguage.Bytes.Hex

namespace TypeLanguage

/-! ### Layouts -/

/-- Whether a definition makes values of a type or stands for a callable function. -/
inductive Category
  | types
  | functions
  deriving DecidableEq, Repr

/-- The bit that a conditional parameter depends on. -/
structure Flag where
  /-- The name of the flags parameter. -/
  name : String
  index : UInt32
  deriving DecidableEq, Repr

/-- How a field is laid out. -/
inductive FieldType
  | int
  | long
  | int128
  | int256
  | double
  /-- A Boolean, by constructor identifier. -/
  | bool
  /-- The type `true`, which takes no space and is told by its flag alone. -/
  | trueFlag
  | bytes
  | string
  /-- The type `#`, a word of flags. -/
  | flags
  /-- A vector with its constructor identifier in front. -/
  | vector (element : FieldType)
  /-- A vector of only its count and its elements. -/
  | bareVector (element : FieldType)
  /-- Any constructor, with its identifier in front; one of the given type if a type is named. -/
  | boxed (typeName : Option String)
  /-- The constructor with the given identifier, without the identifier in front. -/
  | bare (id : UInt32)
  deriving DecidableEq, Repr

/-- A parameter of a constructor. -/
structure Param where
  name : String
  type : FieldType
  flag : Option Flag
  deriving DecidableEq, Repr

/-- The layout of a constructor or function. -/
structure Constructor where
  id : UInt32
  name : String
  /-- The name of the type that it belongs to. -/
  typeName : String
  category : Category
  params : List Param
  deriving DecidableEq, Repr

namespace Flag

/-- The flag as it is written in front of a conditional type. -/
def text (flag : Flag) : String :=
  flag.name ++ "." ++ Nat.repr flag.index.toNat

/-- The word in which only this flag's bit is set; no word has a bit past the 31st. -/
def mask (flag : Flag) : UInt32 :=
  if flag.index < 32 then 1 <<< flag.index else 0

end Flag

namespace FieldType

/-- The type as it is written in a definition, except that a bare constructor is
given by its identifier. -/
def text : FieldType → String
  | int => "int"
  | long => "long"
  | int128 => "int128"
  | int256 => "int256"
  | double => "double"
  | bool => "Bool"
  | trueFlag => "true"
  | bytes => "bytes"
  | string => "string"
  | flags => "#"
  | vector element => "Vector<" ++ element.text ++ ">"
  | bareVector element => "vector<" ++ element.text ++ ">"
  | boxed (some typeName) => typeName
  | boxed none => "Object"
  | bare id => "%" ++ Hex.word id

/-- The least number of bytes that a value of the type takes. -/
def leastSize : FieldType → Nat
  | trueFlag | bare _ => 0
  | long | double | vector _ => 8
  | int128 => 16
  | int256 => 32
  | int | bool | bytes | string | flags | bareVector _ | boxed _ => 4

end FieldType

/-! ### Schemas -/

/-- Constructors by their identifiers, each one under its own. -/
structure Schema where
  table : Std.TreeMap UInt32 Constructor
  id_eq : ∀ {id : UInt32} {constructor : Constructor}, table[id]? = some constructor →
    constructor.id = id

namespace Schema

/-- The schema without constructors. -/
def empty : Schema :=
  ⟨∅, by simp⟩

/-- The constructor with an identifier. -/
def get? (schema : Schema) (id : UInt32) : Option Constructor :=
  schema.table[id]?

/-- The schema with a constructor under its own identifier, in place of the one that
was there before. -/
def insert (schema : Schema) (constructor : Constructor) : Schema :=
  ⟨schema.table.insert constructor.id constructor, by
    intro id stored found
    rw [Std.TreeMap.getElem?_insert] at found
    split at found
    · next same =>
      cases found
      exact Std.LawfulEqCmp.eq_of_compare same
    · exact schema.id_eq found⟩

/-- How many constructors there are. -/
def size (schema : Schema) : Nat :=
  schema.table.size

/-- All constructors, by rising identifier. -/
def constructors (schema : Schema) : List Constructor :=
  schema.table.values

/-- An order in which the constructors of schemas are gone through. Nothing is known of it:
the tables that hold them have an order that changes from run to run. -/
structure Order where
  walk : Schema → List Constructor
  perm : ∀ schema, (walk schema).Perm schema.constructors

/-- The order by rising identifier. -/
def Order.rising : Order :=
  ⟨constructors, fun _ => .refl _⟩

/-- The constructor of a name, the first one in the order if there are several. -/
def find? (schema : Schema) (name : String) (order : Order := .rising) : Option Constructor :=
  (order.walk schema).find? fun constructor => constructor.name = name

theorem id_of_get? {schema : Schema} {id : UInt32} {constructor : Constructor}
    (found : schema.get? id = some constructor) : constructor.id = id :=
  schema.id_eq found

@[simp] theorem get?_empty (id : UInt32) : empty.get? id = none := by
  simp [empty, get?]

theorem get?_insert (schema : Schema) (constructor : Constructor) (id : UInt32) :
    (schema.insert constructor).get? id =
      if constructor.id = id then some constructor else schema.get? id := by
  simp [insert, get?, Std.TreeMap.getElem?_insert]

@[simp] theorem get?_insert_self (schema : Schema) (constructor : Constructor) :
    (schema.insert constructor).get? constructor.id = some constructor := by
  simp [get?_insert]

end Schema

end TypeLanguage
