/-
This file holds the display of values as an indented tree: one line for each element
and each field, indented by four blanks for each level. Strings are quoted and bytes
are shown as digits, so nothing in a value can start a line of its own.
-/

import TypeLanguage.Bytes.Hex
import TypeLanguage.Decimal.Shortest
import TypeLanguage.Text.Quoted
import TypeLanguage.Value.Basic

namespace TypeLanguage.Value

/-- The indentation of a level. -/
def indent (depth : Nat) : String :=
  String.ofList (List.replicate (4 * depth) ' ')

/-- Bytes as digits after a mark. -/
def hexText (bytes : ByteArray) : String :=
  "0x" ++ Hex.encode bytes

/-- The name of a Boolean. -/
def boolText : Bool → String
  | true => "true"
  | false => "false"

/-- The display of a value without parts. -/
def leafText : Value → String
  | int number => Int.repr number.toInt
  | long number => Int.repr number.toInt
  | int128 octets => hexText octets.bytes
  | int256 octets => hexText octets.bytes
  | bool value => boolText value
  | double bits => Decimal.ofDouble bits
  | bytes content => "bytes[" ++ Nat.repr content.size ++ "] " ++ hexText content
  | string text => Text.quoted text
  | nothing => "null"
  | vector _ | object .. => ""

/-- The start of an object's display. -/
def objectHead (id : UInt32) (name : String) : String :=
  name ++ "#" ++ Hex.word id ++ " \x7b"

mutual

/-- Appends the display of a value that stands at a level. -/
def displayOnto (done : String) (depth : Nat) : Value → String
  | vector [] => done ++ "[]"
  | vector (item :: items) =>
    displayItems (done ++ "[\n") (depth + 1) (item :: items) ++ indent depth ++ "]"
  | object id name [] => done ++ objectHead id name ++ "\x7d"
  | object id name (field :: fields) =>
    displayFields (done ++ objectHead id name ++ "\n") (depth + 1) (field :: fields) ++
      indent depth ++ "\x7d"
  | value => done ++ leafText value

/-- Appends a line for each element, at the level of the elements. -/
def displayItems (done : String) (depth : Nat) : List Value → String
  | [] => done
  | item :: items =>
    displayItems (displayOnto (done ++ indent depth) depth item ++ "\n") depth items

/-- Appends a line for each field, at the level of the fields. -/
def displayFields (done : String) (depth : Nat) : List (String × Value) → String
  | [] => done
  | (name, value) :: fields =>
    displayFields (displayOnto (done ++ indent depth ++ name ++ ": ") depth value ++ "\n") depth
      fields

end

/-- The display of a value. -/
def display (value : Value) : String :=
  displayOnto "" 0 value

end TypeLanguage.Value
