/-
This file reads TOML documents. A document is a run of entries, and then of sections,
each under a header of its own. Keys that contradict each other within one run of
entries make the document invalid. Of a number, a truth value, a date or a time nothing
is kept: it only has to be written as it should be.
-/

import TypeLanguage.Toml.Moment
import TypeLanguage.Toml.Number
import TypeLanguage.Toml.Text

namespace TypeLanguage.Toml

/-- A value, and a table as its entries by key. -/
inductive Value
  | string (text : String)
  | array (items : List Value)
  | table (entries : List (List String × Value))
  /-- A number, a truth value, a date or a time. -/
  | plain

/-- A value under a key of one or more parts. -/
abbrev Entry := List String × Value

/-- A header, and the entries under it. -/
structure Section where
  key : List String
  /-- Whether the header adds an element to an array of tables. -/
  isElement : Bool
  entries : List Entry

/-- The entries before the first header, and the sections. -/
structure Document where
  entries : List Entry
  sections : List Section

/-- Whether no key of an entry leads to or through the place of another one. -/
def areCompatible : List Entry → Bool
  | [] => true
  | entry :: entries =>
    (entries.all fun other =>
      !entry.1.isPrefixOf other.1 && !other.1.isPrefixOf entry.1) && areCompatible entries

/-! ### Values -/

/-- Takes a number, a truth value, a date or a time. -/
def plain? (text : List Char) : Option (List Char) :=
  Text.afterLead? ['t', 'r', 'u', 'e'] text <|>
    Text.afterLead? ['f', 'a', 'l', 's', 'e'] text <|> moment? text <|> number? text

mutual

/-- Takes a value that may hold `room` levels of arrays and inline tables. An element of
an array is taken in two steps, so the fuel needed is twice that of other readers. -/
def value? : (fuel room : Nat) → List Char → Option (Value × List Char)
  | 0, _, _ => none
  | fuel + 1, room, text =>
    match text with
    | '"' :: rest =>
      (string? '"' fuel rest).map fun (text, after) => (.string (String.ofList text), after)
    | '\'' :: rest =>
      (string? '\'' fuel rest).map fun (text, after) => (.string (String.ofList text), after)
    | '[' :: rest =>
      match room with
      | 0 => none
      | room + 1 => (items? fuel room rest).map fun (items, after) => (.array items, after)
    | '\x7b' :: rest =>
      match room with
      | 0 => none
      | room + 1 =>
        match skipSpace rest with
        | '\x7d' :: after => some (.table [], after)
        | rest =>
          match entries? fuel room rest with
          | some (entries, after) =>
            if areCompatible entries then some (.table entries, after) else none
          | none => none
    | text => (plain? text).map fun after => (.plain, after)

/-- Takes the elements of an array and its closing bracket. -/
def items? : (fuel room : Nat) → List Char → Option (List Value × List Char)
  | 0, _, _ => none
  | fuel + 1, room, text =>
    match skipLines fuel text with
    | some (']' :: after) => some ([], after)
    | some text =>
      match value? fuel room text with
      | none => none
      | some (item, rest) =>
        match skipLines fuel rest with
        | some (',' :: rest) =>
          (items? fuel room rest).map fun (items, after) => (item :: items, after)
        | some (']' :: after) => some ([item], after)
        | _ => none
    | none => none

/-- Takes the entries of an inline table and its closing brace. -/
def entries? : (fuel room : Nat) → List Char → Option (List Entry × List Char)
  | 0, _, _ => none
  | fuel + 1, room, text =>
    match key? fuel text with
    | some (key, '=' :: rest) =>
      match value? fuel room (skipSpace rest) with
      | none => none
      | some (value, rest) =>
        match skipSpace rest with
        | ',' :: rest =>
          (entries? fuel room rest).map fun (entries, after) => ((key, value) :: entries, after)
        | '\x7d' :: after => some ([(key, value)], after)
        | _ => none
    | _ => none

end

/-! ### Lines -/

/-- Takes an entry and the rest of its line. -/
def entry? (fuel : Nat) (text : List Char) : Option (Entry × List Char) :=
  match key? fuel text with
  | some (key, '=' :: rest) =>
    match value? fuel deepest (skipSpace rest) with
    | some (value, rest) => (restOfLine? rest).map fun after => ((key, value), after)
    | none => none
  | _ => none

/-- Takes a header and the rest of its line. -/
def header? (fuel : Nat) (text : List Char) : Option ((List String × Bool) × List Char) :=
  match text with
  | '[' :: '[' :: rest =>
    match key? fuel rest with
    | some (key, ']' :: ']' :: rest) => (restOfLine? rest).map fun after => ((key, true), after)
    | _ => none
  | '[' :: rest =>
    match key? fuel rest with
    | some (key, ']' :: rest) => (restOfLine? rest).map fun after => ((key, false), after)
    | _ => none
  | _ => none

/-- Takes entries up to a header or the end of the text. -/
def entryLines? : (fuel : Nat) → List Char → Option (List Entry × List Char)
  | 0, text => if text = [] then some ([], []) else none
  | fuel + 1, text =>
    match skipSpace text with
    | [] => some ([], [])
    | '[' :: rest => some ([], '[' :: rest)
    | '#' :: rest => (lineEnd? (rest.dropWhile isPlain)).bind (entryLines? fuel)
    | text =>
      match newline? text with
      | some rest => entryLines? fuel rest
      | none =>
        match entry? fuel text with
        | none => none
        | some (entry, rest) =>
          (entryLines? fuel rest).map fun (entries, after) => (entry :: entries, after)

/-- Takes sections up to the end of the text. -/
def sections? : (fuel : Nat) → List Char → Option (List Section)
  | 0, text => if text = [] then some [] else none
  | fuel + 1, text =>
    if text = [] then some []
    else match header? fuel text with
      | none => none
      | some ((key, isElement), rest) =>
        match entryLines? fuel rest with
        | none => none
        | some (entries, rest) => (sections? fuel rest).map fun sections =>
          ⟨key, isElement, entries⟩ :: sections

/-- The document that a text holds; a byte order mark may stand in front. -/
def parse? (text : String) : Option Document := do
  let text := match text.toList with
    | '\ufeff' :: rest => rest
    | text => text
  let fuel := 2 * text.length + 3
  let (entries, rest) ← entryLines? fuel text
  let sections ← sections? fuel rest
  if areCompatible entries && sections.all fun part => areCompatible part.entries then
    some ⟨entries, sections⟩
  else none

end TypeLanguage.Toml
