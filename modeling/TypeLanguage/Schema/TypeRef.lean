/-
This file holds type references as a definition writes them: a name with optional
marks in front, `!` for a generic type and `%` for a bare one, and an optional
argument between angle brackets. The argument reaches from the first `<` to the
last character, which has to be `>`; so a reference is read from the outside in,
and writing it back gives the text it was read from.
-/

import TypeLanguage.Schema.Error
import TypeLanguage.Text.Blank

namespace TypeLanguage

/-- The marks and the name of a type reference. -/
structure TypeHead where
  /-- Whether `!` stands in front. -/
  generic : Bool
  /-- Whether `%` stands in front, after the `!` if there is one. -/
  percent : Bool
  /-- The name with its namespace. -/
  name : List Char
  deriving DecidableEq, Repr

/-- A type as written in a definition. -/
inductive TypeRef
  | plain (head : TypeHead)
  | applied (head : TypeHead) (argument : TypeRef)
  deriving DecidableEq, Repr

/-- A name is made of one or more parts, none of them empty, with dots between. -/
def isDottedName (name : List Char) : Bool :=
  (name.splitOn '.').all fun part => !part.isEmpty

namespace TypeHead

/-- A mark, if it is there. -/
def optionalMark (mark : Char) : (present : Bool) → List Char
  | true => [mark]
  | false => []

/-- The marks and the name as written. -/
def text (head : TypeHead) : List Char :=
  optionalMark '!' head.generic ++ (optionalMark '%' head.percent ++ head.name)

/-- Whether a mark stands in front of the text, and the text without it. -/
def takeMark (mark : Char) (text : List Char) : Bool × List Char :=
  match Text.afterLead? [mark] text with
  | some rest => (true, rest)
  | none => (false, text)

/-- Reads the marks; what is left is taken for the name. -/
def ofText (text : List Char) : TypeHead :=
  let generic := takeMark '!' text
  let percent := takeMark '%' generic.2
  ⟨generic.1, percent.1, percent.2⟩

theorem mark_append_takeMark (mark : Char) (text : List Char) :
    optionalMark mark (takeMark mark text).1 ++ (takeMark mark text).2 = text := by
  unfold takeMark
  split
  · rename_i rest found
    exact (Text.afterLead?_eq_some_iff.1 found).symm
  · rfl

theorem text_ofText (text : List Char) : (ofText text).text = text := by
  simp only [TypeHead.text, ofText, mark_append_takeMark]

theorem length_name_ofText_le (text : List Char) : (ofText text).name.length ≤ text.length := by
  have whole := congrArg List.length (text_ofText text)
  simp only [TypeHead.text, List.length_append] at whole
  omega

/-- Whether the name can stand in a definition: a dotted name without a closing bracket. -/
def isValid (head : TypeHead) : Bool :=
  isDottedName head.name && !head.name.contains '>'

/-- Whether the last part of the name starts with a small letter, as the names of
constructors do and the names of types do not. -/
def namesConstructor (head : TypeHead) : Bool :=
  match (head.name.splitOn '.').getLast? with
  | some (first :: _) => 'a' ≤ first && first ≤ 'z'
  | _ => false

end TypeHead

namespace TypeRef

/-- The outermost marks and name. -/
def head : TypeRef → TypeHead
  | plain head => head
  | applied head _ => head

/-- The reference as written. -/
def text : TypeRef → List Char
  | plain head => head.text
  | applied head argument => head.text ++ '<' :: (argument.text ++ ['>'])

/-- The text of an argument is shorter than the reference that holds it. -/
theorem length_argument_lt {text name bracketed argument : List Char}
    (split : Text.splitOnce? '<' (TypeHead.ofText text).name = some (name, bracketed))
    (close : Text.beforeTail? ['>'] bracketed = some argument) :
    argument.length < text.length := by
  have bound := TypeHead.length_name_ofText_le text
  have cut := congrArg List.length (Text.splitOnce?_eq_some_iff.1 split).1
  have closed := congrArg List.length (Text.beforeTail?_eq_some_iff.1 close)
  simp only [List.length_append, List.length_cons, List.length_nil] at cut closed
  omega

/-- Reads a type reference. The argument is read before the name is checked, so an
error in it comes first. -/
def parse (text : List Char) : Except SchemaError TypeRef :=
  let invalid : SchemaError := .invalidParam (String.ofList text)
  match split : Text.splitOnce? '<' (TypeHead.ofText text).name with
  | none =>
    if (TypeHead.ofText text).isValid then .ok (plain (TypeHead.ofText text)) else .error invalid
  | some (name, bracketed) =>
    match close : Text.beforeTail? ['>'] bracketed with
    | none => .error invalid
    | some argumentText => do
      have := length_argument_lt split close
      let argument ← parse argumentText
      let head : TypeHead := { TypeHead.ofText text with name := name }
      if head.isValid then .ok (applied head argument) else .error invalid
termination_by text.length

end TypeRef

end TypeLanguage
