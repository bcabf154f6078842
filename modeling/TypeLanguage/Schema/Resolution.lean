/-
This file turns the types that definitions write into layouts. Most names stand for
themselves; a bare type has to name one constructor, which is looked up by name if the
name starts with a small letter, and by type if the type is marked with `%`. Both the
constructors known before and all the new definitions are searched, so definitions may
stand in any order.
-/

import TypeLanguage.Schema.Definition

namespace TypeLanguage

/-- What a bare type may be resolved to. -/
structure DirectoryEntry where
  id : UInt32
  name : String
  typeName : String
  category : Category
  deriving DecidableEq, Repr

/-- The constructors that bare types are looked up among, the older ones first. -/
structure Directory where
  entries : List DirectoryEntry

namespace Directory

/-- The entry of a constructor. -/
def ofConstructor (constructor : Constructor) : DirectoryEntry :=
  ⟨constructor.id, constructor.name, constructor.typeName, constructor.category⟩

/-- The entry of a definition. -/
def ofDefinition (definition : Definition) : DirectoryEntry :=
  ⟨definition.id, definition.name, definition.typeName, definition.category⟩

/-- The constructors of a schema in some order, and the definitions to be added to it. -/
def ofSchema (order : Schema.Order) (schema : Schema) (definitions : List Definition) :
    Directory :=
  ⟨(order.walk schema).map ofConstructor ++ definitions.map ofDefinition⟩

/-- The identifier of the last entry with a name. -/
def named? (directory : Directory) (name : String) : Option UInt32 :=
  directory.entries.foldl (fun found entry => if entry.name = name then some entry.id else found)
    none

/-- The identifiers of the entries that make values of a type, each once. -/
def ofType (directory : Directory) (typeName : String) : List UInt32 :=
  ((directory.entries.filter fun entry =>
    entry.category = .types ∧ entry.typeName = typeName).map DirectoryEntry.id).eraseDups

/-- The layout of a bare type, by the name of its constructor. -/
def bareByName (directory : Directory) (name : String) : Except SchemaError FieldType :=
  match directory.named? name with
  | some id => .ok (.bare id)
  | none => .error (.unresolvedBareType name)

/-- The layout of a bare type, by the name of a type with a single constructor. -/
def bareByType (directory : Directory) (typeName : String) : Except SchemaError FieldType :=
  match directory.ofType typeName with
  | [id] => .ok (.bare id)
  | _ => .error (.unresolvedBareType ("%" ++ typeName))

/-- The layout of a type that is no vector. -/
def simpleType (directory : Directory) (head : TypeHead) :
    Except SchemaError FieldType :=
  match String.ofList head.name with
  | "int" => .ok .int
  | "long" => .ok .long
  | "int128" => .ok .int128
  | "int256" => .ok .int256
  | "double" => .ok .double
  | "bytes" => .ok .bytes
  | "string" => .ok .string
  | "Bool" => .ok .bool
  | "true" => .ok .trueFlag
  | "Object" => .ok (.boxed none)
  | name =>
    if head.percent then directory.bareByType name
    else if head.namesConstructor then directory.bareByName name
    else .ok (.boxed (some name))

/-- Whether a type may be any boxed value: one marked with `!`, or a declared generic. -/
def isGeneric (generics : List (List Char)) (head : TypeHead) : Bool :=
  head.generic || generics.contains head.name

/-- The layout of a vector with elements of the given layout, if the name is one of a
vector. -/
def vectorType? (head : TypeHead) : Option (FieldType → FieldType) :=
  match String.ofList head.name with
  | "Vector" => some (if head.percent then .bareVector else .vector)
  | "vector" => some .bareVector
  | _ => none

/-- The layout of a type as written, where the given generic types are declared. An
argument counts only for a vector, which needs one. -/
def fieldType (directory : Directory) (generics : List (List Char)) :
    TypeRef → Except SchemaError FieldType
  | .plain head =>
    if isGeneric generics head then .ok (.boxed none)
    else match vectorType? head with
      | some _ => .error (.invalidParam (String.ofList head.name))
      | none => directory.simpleType head
  | .applied head argument =>
    if isGeneric generics head then .ok (.boxed none)
    else match vectorType? head with
      | some vector => vector <$> directory.fieldType generics argument
      | none => directory.simpleType head

/-- The parameter of a constructor. -/
def param (directory : Directory) (generics : List (List Char)) :
    ParamText → Except SchemaError Param
  | .flags name => .ok ⟨name, .flags, none⟩
  | .typed name type flag => do
    return ⟨name, ← directory.fieldType generics type, flag⟩

/-- The constructor that a definition describes. -/
def constructor (directory : Directory) (definition : Definition) :
    Except SchemaError Constructor := do
  let params ← definition.params.mapM (directory.param definition.generics)
  return ⟨definition.id, definition.name, definition.typeName, definition.category, params⟩

end Directory

namespace Schema

/-- The schema with constructors inserted in order. -/
def insertAll (schema : Schema) (constructors : List Constructor) : Schema :=
  constructors.foldl insert schema

/-- The schema with definitions added, all of them or none. -/
def addDefinitions (schema : Schema) (definitions : List Definition) (order : Order) :
    Except SchemaError Schema := do
  let directory := Directory.ofSchema order schema definitions
  let constructors ← definitions.mapM directory.constructor
  return schema.insertAll constructors

end Schema

end TypeLanguage
