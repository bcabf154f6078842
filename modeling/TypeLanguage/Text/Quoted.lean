/-
This file holds quoted text: characters between double quotes, with an escape for
each one that could be misread. A line feed is always escaped, so quoted text
never spans two lines.
-/

import TypeLanguage.Text.Property

namespace TypeLanguage.Text

/-- The code point of a character in braces, as an escape. -/
def codeEscape (character : Char) : List Char :=
  '\\' :: 'u' :: '\x7b' :: (Nat.toDigits 16 character.toNat ++ ['\x7d'])

/-- A character as it stands between double quotes: the short escapes where there
is one, the code point where the character has no printed form of its own, would join
the one before it or may go undrawn, and otherwise the character itself. -/
def quotedChar (character : Char) : List Char :=
  if character = '\x00' then ['\\', '0']
  else if character = '\t' then ['\\', 't']
  else if character = '\r' then ['\\', 'r']
  else if character = '\n' then ['\\', 'n']
  else if character = '"' then ['\\', '"']
  else if character = '\\' then ['\\', '\\']
  else if isExtending character || isIgnorable character || !isPrintable character then
    codeEscape character
  else [character]

/-- Text between double quotes. -/
def quoted (text : String) : String :=
  String.ofList ('"' :: (text.toList.flatMap quotedChar ++ ['"']))

end TypeLanguage.Text
