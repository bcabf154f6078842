/-
This file holds definitions as they are written, before the types they mention are
looked up. A definition is a name, an optional identifier, parameters and a type, as
in `user#1 flags:# id:long name:flags.0?string = User`. Blanks of any kind and number
separate its words. What a parameter may mention has to be declared to its left: the
flags parameter of a condition, and a generic type marked with `!`.
-/

import TypeLanguage.Schema.Basic
import TypeLanguage.Schema.Identifier
import TypeLanguage.Schema.TypeRef

namespace TypeLanguage

/-- A parameter as written. -/
inductive ParamText
  /-- A word of flags. -/
  | flags (name : String)
  | typed (name : String) (type : TypeRef) (flag : Option Flag)
  deriving DecidableEq, Repr

/-- A definition as written. -/
structure Definition where
  name : String
  /-- The identifier as given, or else as inferred from the text. -/
  id : UInt32
  /-- The names of the generic types that it declares. -/
  generics : List (List Char)
  params : List ParamText
  /-- The name of the type, without an argument. -/
  typeName : String
  category : Category
  deriving DecidableEq, Repr

namespace Definition

/-! ### Parameters -/

/-- What a word of the parameter list introduces. -/
inductive Entry
  /-- A generic type. -/
  | generic (name : List Char)
  | param (param : ParamText)
  deriving DecidableEq, Repr

/-- The names declared to the left of a word. -/
structure Scope where
  generics : List (List Char)
  flags : List String

/-- The scope with what an entry declares. -/
def Scope.add (scope : Scope) : Entry → Scope
  | .generic name => { scope with generics := scope.generics ++ [name] }
  | .param (.flags name) => { scope with flags := scope.flags ++ [name] }
  | .param (.typed ..) => scope

/-- Reads a condition such as `flags.3`, without its question mark. -/
def readFlag? (text : List Char) : Option Flag :=
  match Text.splitOnce? '.' text with
  | none => none
  | some (name, index) =>
    if name = [] then none
    else match Text.readNumeral 10 index with
      | .ok index => if index < 32 then some ⟨String.ofList name, index⟩ else none
      | .error _ => none

/-- Reads the condition, if any, and the type of a parameter. The word it stands in
is given for error messages. -/
def readType (scope : Scope) (word name text : List Char) : Except SchemaError ParamText := do
  let (flag, typeText) ← match Text.splitOnce? '?' text with
    | none => pure (none, text)
    | some (condition, typeText) =>
      match readFlag? condition with
      | none => throw (.invalidParam (String.ofList word))
      | some flag =>
        if flag.name ∈ scope.flags then pure (some flag, typeText)
        else throw (.missingFlags flag.name)
  let type ← TypeRef.parse typeText
  if type.head.generic ∧ type.head.name ∉ scope.generics then
    throw (.missingGeneric (String.ofList type.head.name))
  return .typed (String.ofList name) type flag

/-- Reads a word of the parameter list. -/
def readEntry (scope : Scope) (word : List Char) : Except SchemaError Entry :=
  match Text.afterLead? ['{'] word with
  | some declaration =>
    match Text.beforeTail? ":Type\x7d".toList declaration with
    | some name => .ok (.generic name)
    | none => .error (.invalidParam (String.ofList word))
  | none =>
    match Text.splitOnce? ':' word with
    | none => .error .notImplemented
    | some (name, type) =>
      if name = [] ∨ type = [] then .error (.invalidParam (String.ofList word))
      else if type = ['#'] then .ok (.param (.flags (String.ofList name)))
      else .param <$> readType scope word name type

/-- Reads the words of the parameter list, each in the scope of those before it. -/
def readEntries (scope : Scope) : List (List Char) → Except SchemaError (List Entry)
  | [] => .ok []
  | word :: words => do
    let entry ← readEntry scope word
    let entries ← readEntries (scope.add entry) words
    return entry :: entries

/-- The names of the generic types among the entries. -/
def genericsOf (entries : List Entry) : List (List Char) :=
  entries.filterMap fun
    | .generic name => some name
    | .param _ => none

/-- The parameters among the entries. -/
def paramsOf (entries : List Entry) : List ParamText :=
  entries.filterMap fun
    | .generic _ => none
    | .param param => some param

/-! ### Whole definitions -/

/-- The words of a text, with single spaces between them. -/
def normalSpacing (text : List Char) : List Char :=
  [' '].intercalate (Text.words text)

/-- The parts of a text before and after its first space, the second one empty if there
is none. -/
def headAndRest (text : List Char) : List Char × List Char :=
  (Text.splitOnce? ' ' text).getD (text, [])

/-- Reads a definition, without the semicolon that ends it. -/
def parse [Crc32] (source : List Char) : Except SchemaError Definition := do
  let text := normalSpacing source
  if text = [] then throw .empty
  let some (left, right) := Text.splitOnce? '=' text | throw .missingType
  let typeText := Text.trim right
  if ' ' ∈ typeText then throw .notImplemented
  let type ← (TypeRef.parse typeText).mapError fun _ => SchemaError.missingType
  let (head, middle) := headAndRest (Text.trim left)
  let (name, idText) := match Text.splitOnce? '#' head with
    | some (name, idText) => (name, some idText)
    | none => (head, none)
  if ¬ isDottedName name then throw .missingName
  let id ← match idText with
    | some idText => (Text.readNumeral 16 idText).mapError SchemaError.invalidId
    | none => pure (inferIdentifier text)
  let entries ← readEntries ⟨[], []⟩ (Text.words middle)
  return {
    name := String.ofList name
    id
    generics := genericsOf entries
    params := paramsOf entries
    typeName := String.ofList type.head.name
    category := .types }

end Definition

end TypeLanguage
