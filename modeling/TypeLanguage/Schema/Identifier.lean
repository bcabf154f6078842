/-
This file infers the identifier of a definition that gives none: the CRC-32 of its
text in a normal form. In the normal form `bytes` counts as `string`, brackets are
gone, and conditional parameters of type `true` are left out, because these do not
change what is on the wire.
-/

import TypeLanguage.Library
import TypeLanguage.Text.Replace

namespace TypeLanguage

/-- A character as it stands in the normal form: an opening angle bracket separates
like a space, and the other brackets vanish. -/
def normalCharacter (character : Char) : List Char :=
  if character = '<' then [' ']
  else if character = '>' ∨ character = '{' ∨ character = '}' then []
  else [character]

/-- The text before a conditional `true`, in reverse, without the parameter that it
ends in: what follows the last space goes, and the space too. -/
def dropLastWord (before : List Char) : List Char :=
  (before.dropWhile fun character => character != ' ').drop 1

theorem length_dropLastWord_le (before : List Char) :
    (dropLastWord before).length ≤ before.length := by
  have shorter : (before.dropWhile fun character => character != ' ').length ≤ before.length :=
    (List.dropWhile_suffix _).sublist.length_le
  simp only [dropLastWord, List.length_drop]
  omega

/-- The condition mark and the type of a conditional `true`. -/
def conditionalTrue : List Char :=
  ['?', 't', 'r', 'u', 'e']

theorem length_without_lt {text before after : List Char}
    (found : Text.break? conditionalTrue text = some (before, after)) :
    ((dropLastWord before).reverse ++ after).length < text.length := by
  have kept := length_dropLastWord_le before
  have whole := congrArg List.length (Text.break?_eq_append found)
  simp only [List.length_append, List.length_reverse, conditionalTrue, List.length_cons,
    List.length_nil] at whole ⊢
  omega

/-- The text without its conditional parameters of type `true`, from left to right. -/
def dropConditionalTrue (text : List Char) : List Char :=
  match found : Text.break? conditionalTrue text with
  | none => text
  | some (before, after) =>
    have := length_without_lt found
    dropConditionalTrue ((dropLastWord before).reverse ++ after)
termination_by text.length
decreasing_by exact this

/-- The normal form of a definition's text. -/
def normalText (definition : List Char) : List Char :=
  let unconditional := Text.replaceAll ":bytes ".toList ":string ".toList definition
  let conditional := Text.replaceAll "?bytes ".toList "?string ".toList unconditional
  dropConditionalTrue (conditional.flatMap normalCharacter)

/-- The identifier inferred from a definition's text. -/
def inferIdentifier [Crc32] (definition : List Char) : UInt32 :=
  Crc32.checksum (String.ofList (normalText definition)).toUTF8

end TypeLanguage
