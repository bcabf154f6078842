/-
This file reads the definitions of a whole schema text. Comments run from `//` to the
end of their line, definitions end with semicolons, and a separator in front of a
definition says which category it and the ones after it have. Definitions of built-in
types are passed over; the first other fault ends the reading.
-/

import TypeLanguage.Schema.Definition

namespace TypeLanguage.Source

/-! ### Comments -/

/-- A line without the carriage return that may end it. -/
def dropReturn (line : List Char) : List Char :=
  (Text.beforeTail? ['\r'] line).getD line

/-- The lines of a text. A line ends with a line feed, or a carriage return and a line
feed; the last line need not end. -/
def lines (text : List Char) : List (List Char) :=
  let parts := text.splitOn '\n'
  let ended := parts.dropLast.map dropReturn
  match parts.getLast? with
  | none | some [] => ended
  | some last => ended ++ [last]

/-- A line without its comment. -/
def dropComment (line : List Char) : List Char :=
  match Text.break? ['/', '/'] line with
  | some (before, _) => before.reverse
  | none => line

/-- The text without comments. -/
def withoutComments (text : List Char) : List Char :=
  ['\n'].intercalate ((lines text).map dropComment)

/-! ### Statements -/

/-- The texts between semicolons, without the blanks around them and without empty ones. -/
def statements (text : List Char) : List (List Char) :=
  (((withoutComments text).splitOn ';').map Text.trim).filter fun statement => !statement.isEmpty

/-- What starts a separator. -/
def dashes : List Char := "---".toList

/-- The separator in front of functions. -/
def functionsMark : List Char := "---functions---".toList

/-- The separator in front of types. -/
def typesMark : List Char := "---types---".toList

/-- The category that a separator in front of a statement sets, and what follows it. -/
def separator? (statement : List Char) : Option (Category × List Char) :=
  match Text.afterLead? functionsMark statement with
  | some rest => some (.functions, rest)
  | none =>
    match Text.afterLead? typesMark statement with
    | some rest => some (.types, rest)
    | none => none

theorem length_lt_of_separator? {statement rest : List Char} {category : Category}
    (found : separator? statement = some (category, rest)) : rest.length < statement.length := by
  unfold separator? at found
  split at found
  · rename_i following lead
    simp only [Option.some.injEq, Prod.mk.injEq] at found
    obtain ⟨-, rfl⟩ := found
    have whole := congrArg List.length (Text.afterLead?_eq_some_iff.1 lead)
    have mark : functionsMark.length = 15 := by decide
    rw [List.length_append, mark] at whole
    omega
  · split at found
    · rename_i following lead
      simp only [Option.some.injEq, Prod.mk.injEq] at found
      obtain ⟨-, rfl⟩ := found
      have whole := congrArg List.length (Text.afterLead?_eq_some_iff.1 lead)
      have mark : typesMark.length = 11 := by decide
      rw [List.length_append, mark] at whole
      omega
    · cases found

/-- Takes the known separators off the front of a statement; the last of them sets the
category. -/
def takeSeparators (category : Category) (statement : List Char) : Category × List Char :=
  if dashes.isPrefixOf statement then
    match found : separator? statement with
    | none => (category, statement)
    | some (category, rest) =>
      have : (Text.trim rest).length < statement.length :=
        Nat.lt_of_le_of_lt (Text.length_trim_le rest) (length_lt_of_separator? found)
      takeSeparators category (Text.trim rest)
  else (category, statement)
termination_by statement.length

/-! ### Definitions -/

/-- A statement without its separators, and what it is read as. -/
structure Reading where
  text : List Char
  result : Except SchemaError Definition

variable [Crc32]

/-- Reads a statement without its separators as a definition of the given category. -/
def readDefinition (category : Category) (text : List Char) : Except SchemaError Definition :=
  if dashes.isPrefixOf text then .error .unknownSeparator
  else (fun definition => { definition with category }) <$> Definition.parse text

/-- Reads statements in order, when the ones before them left the given category. -/
def readStatements (category : Category) : List (List Char) → List Reading
  | [] => []
  | statement :: statements =>
    let (category, text) := takeSeparators category statement
    ⟨text, readDefinition category text⟩ :: readStatements category statements

/-- What the statements of a schema text are read as; the first ones are types. -/
def readings (text : List Char) : List Reading :=
  readStatements .types (statements text)

/-- The definitions among readings, unless one of them is at fault. -/
def collect : List Reading → Except SchemaError (List Definition)
  | [] => .ok []
  | reading :: readings =>
    match reading.result with
    | .ok definition => (definition :: ·) <$> collect readings
    | .error .notImplemented => collect readings
    | .error error => .error error

/-- The built-in definitions that are passed over before the first fault. -/
def builtins : List Reading → List (List Char)
  | [] => []
  | reading :: readings =>
    match reading.result with
    | .ok _ => builtins readings
    | .error .notImplemented => reading.text :: builtins readings
    | .error _ => []

/-- The definitions of a schema text. -/
def definitions (text : List Char) : Except SchemaError (List Definition) :=
  collect (readings text)

end TypeLanguage.Source
