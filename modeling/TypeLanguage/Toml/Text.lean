/-
This file reads the small parts of a TOML document: blanks, comments, line ends,
strings of the four kinds, and keys. Each reader takes its part off the front of the
text and gives the rest, or fails. A reader that repeats a step is given some `fuel`:
every step takes a character, so more fuel than the text has characters is enough.
-/

import TypeLanguage.Bytes.Hex
import TypeLanguage.Text.Blank

namespace TypeLanguage.Toml

/-- The most parts of a key, and the most arrays and inline tables around a value. -/
def deepest : Nat := 79

/-! ### Blanks and lines -/

/-- A blank within a line. -/
def isSpace (character : Char) : Bool :=
  character == ' ' || character == '\t'

/-- A character that may stand in a comment or a string of one line: a tab, or any
character that is no control. -/
def isPlain (character : Char) : Bool :=
  character == '\t' || (0x20 ≤ character.toNat && character.toNat ≠ 0x7F)

/-- The text without the blanks of its line in front. -/
def skipSpace (text : List Char) : List Char :=
  text.dropWhile isSpace

/-- What follows a line end. -/
def newline? : List Char → Option (List Char)
  | '\n' :: rest => some rest
  | '\r' :: '\n' :: rest => some rest
  | _ => none

/-- The text without the comment in front, if there is one. -/
def skipComment : List Char → List Char
  | '#' :: rest => rest.dropWhile isPlain
  | text => text

/-- What follows a line end or stands at the end of the text. -/
def lineEnd? : List Char → Option (List Char)
  | [] => some []
  | text => newline? text

/-- What follows the rest of a line that may hold blanks and a comment only. -/
def restOfLine? (text : List Char) : Option (List Char) :=
  lineEnd? (skipComment (skipSpace text))

/-- The text without the blanks, comments and line ends in front; a comment has to be
ended by its line. -/
def skipLines : (fuel : Nat) → List Char → Option (List Char)
  | 0, text => some text
  | fuel + 1, text =>
    match skipSpace text with
    | '#' :: rest => (newline? (rest.dropWhile isPlain)).bind (skipLines fuel)
    | text =>
      match newline? text with
      | some rest => skipLines fuel rest
      | none => some text

/-! ### Strings -/

/-- The character with a code point given by hexadecimal digits. -/
def codePoint? (digits : List Char) : Option Char := do
  let values ← digits.mapM Hex.digitValue?
  let code := values.foldl (fun code value => 16 * code + value) 0
  if code.isValidChar then some (Char.ofNat code) else none

/-- Takes the character that an escape stands for, after its backslash. -/
def escape? : List Char → Option (Char × List Char)
  | 'b' :: rest => some ('\x08', rest)
  | 't' :: rest => some ('\t', rest)
  | 'n' :: rest => some ('\n', rest)
  | 'f' :: rest => some ('\x0c', rest)
  | 'r' :: rest => some ('\r', rest)
  | '"' :: rest => some ('"', rest)
  | '\\' :: rest => some ('\\', rest)
  | 'u' :: rest =>
    if (rest.take 4).length = 4 then (codePoint? (rest.take 4)).map (·, rest.drop 4) else none
  | 'U' :: rest =>
    if (rest.take 8).length = 8 then (codePoint? (rest.take 8)).map (·, rest.drop 8) else none
  | _ => none

/-- The end of a string of several lines at a run of three quotes or more: up to two of
them belong to the string. -/
def closing? (quote : Char) (text : List Char) : Option (List Char × List Char) :=
  let run := text.takeWhile (· == quote)
  if run.length < 3 then none
  else
    let inner := min (run.length - 3) 2
    some (List.replicate inner quote, text.drop (inner + 3))

/-- What follows a backslash at the end of a line: the next text that is neither blank
nor a line end. -/
def skipGap : (fuel : Nat) → List Char → List Char
  | 0, text => text
  | fuel + 1, text =>
    match newline? (skipSpace text) with
    | some rest => skipGap fuel rest
    | none => skipSpace text

/-- Continues a string, with the characters so far in reverse. Escapes are understood if
the quote is a double one; `multiline` tells whether line ends may stand in it. -/
def stringOnto (quote : Char) (multiline : Bool) :
    (fuel : Nat) → (done text : List Char) → Option (List Char × List Char)
  | 0, _, _ => none
  | fuel + 1, done, text =>
    match text with
    | [] => none
    | character :: rest =>
      if character = quote then
        if multiline then
          match closing? quote text with
          | some (inner, after) => some (done.reverse ++ inner, after)
          | none => stringOnto quote multiline fuel (character :: done) rest
        else some (done.reverse, rest)
      else if character = '\\' ∧ quote = '"' then
        match (if multiline then newline? (skipSpace rest) else none) with
        | some following =>
          stringOnto quote multiline fuel done (skipGap fuel following)
        | none =>
          match escape? rest with
          | some (escaped, after) => stringOnto quote multiline fuel (escaped :: done) after
          | none => none
      else if isPlain character then
        stringOnto quote multiline fuel (character :: done) rest
      else if multiline then
        match newline? text with
        | some after => stringOnto quote multiline fuel ('\n' :: done) after
        | none => none
      else none

/-- Takes a string of one line, after its opening quote. -/
def lineString? (quote : Char) (fuel : Nat) (text : List Char) :
    Option (List Char × List Char) :=
  stringOnto quote false fuel [] text

/-- Takes a string, after its first quote. -/
def string? (quote : Char) (fuel : Nat) (text : List Char) : Option (List Char × List Char) :=
  match Text.afterLead? [quote, quote] text with
  | some body => stringOnto quote true fuel [] ((newline? body).getD body)
  | none => lineString? quote fuel text

/-! ### Keys -/

/-- A character that a key may hold without quotes. -/
def isBareKey (character : Char) : Bool :=
  character.isAlphanum || character == '-' || character == '_'

/-- Takes a key without dots. -/
def simpleKey? (fuel : Nat) : List Char → Option (String × List Char)
  | '"' :: rest => (lineString? '"' fuel rest).map fun (key, after) => (String.ofList key, after)
  | '\'' :: rest => (lineString? '\'' fuel rest).map fun (key, after) => (String.ofList key, after)
  | text =>
    match text.takeWhile isBareKey with
    | [] => none
    | key => some (String.ofList key, text.dropWhile isBareKey)

/-- Takes the parts of a key, with dots between, and the blanks around them. -/
def keyParts? : (fuel : Nat) → List Char → Option (List String × List Char)
  | 0, _ => none
  | fuel + 1, text => do
    let (part, rest) ← simpleKey? fuel (skipSpace text)
    match skipSpace rest with
    | '.' :: rest =>
      let (parts, rest) ← keyParts? fuel rest
      some (part :: parts, rest)
    | rest => some ([part], rest)

/-- Takes a key, which has at most `deepest` parts. -/
def key? (fuel : Nat) (text : List Char) : Option (List String × List Char) :=
  (keyParts? fuel text).filter fun (parts, _) => parts.length ≤ deepest

end TypeLanguage.Toml
