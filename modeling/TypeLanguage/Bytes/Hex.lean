/-
This file holds hexadecimal text. Bytes are written as two lower-case digits
each. Reading is generous, since keys are pasted from many tools: blanks around
the text, one `0x` in front, and colons or ASCII blanks anywhere between the
digits are allowed, and the digits may be of either case.
-/

import TypeLanguage.Text.Blank

namespace TypeLanguage.Hex

open TypeLanguage.Text

/-! ### Writing -/

/-- The lower-case digit of a number below sixteen. -/
def digit (number : Nat) : Char :=
  if number < 10 then Char.ofNat (48 + number) else Char.ofNat (87 + number)

/-- The two digits of a byte, the high one first. -/
def byteDigits (byte : UInt8) : List Char :=
  [digit (byte.toNat / 16), digit (byte.toNat % 16)]

/-- Two lower-case digits for each byte. -/
def encode (bytes : ByteArray) : String :=
  String.ofList (bytes.data.toList.flatMap byteDigits)

/-- The digits of a number, the last `count` of them, the highest first. -/
def fixedDigits : Nat → Nat → List Char
  | 0, _ => []
  | count + 1, number => fixedDigits count (number / 16) ++ [digit (number % 16)]

/-- A 32-bit word as eight digits, the highest first. -/
def word (number : UInt32) : String :=
  String.ofList (fixedDigits 8 number.toNat)

/-! ### Reading -/

/-- The value of a digit of either case. -/
def digitValue? (character : Char) : Option Nat :=
  if '0' ≤ character ∧ character ≤ '9' then some (character.toNat - 48)
  else if 'a' ≤ character ∧ character ≤ 'f' then some (character.toNat - 87)
  else if 'A' ≤ character ∧ character ≤ 'F' then some (character.toNat - 55)
  else none

/-- Colons and ASCII blanks may stand anywhere among the digits. -/
def isSeparator (character : Char) : Bool :=
  character == ':' || character == ' ' || character == '\t' || character == '\n' ||
    character == '\x0c' || character == '\r'

/-- The text without one leading `0x` or `0X`. -/
def dropMark (text : List Char) : List Char :=
  match text with
  | '0' :: 'x' :: digits => digits
  | '0' :: 'X' :: digits => digits
  | digits => digits

/-- Appends the bytes that pairs of digit values denote, the high digit first; no
digit may stand alone. -/
def pairsOnto (bytes : ByteArray) : List Nat → Option ByteArray
  | [] => some bytes
  | [_] => none
  | high :: low :: rest => pairsOnto (bytes.push (UInt8.ofNat (16 * high + low))) rest

/-- The digits of a hexadecimal text, without its blanks, mark and separators. -/
def digitsOf (text : List Char) : List Char :=
  (dropMark (trim text)).filter (fun character => !isSeparator character)

/-- The bytes that a text denotes, if all that it holds is digits in pairs. -/
def decode (text : String) : Option ByteArray :=
  ((digitsOf text.toList).mapM digitValue?).bind (pairsOnto ByteArray.empty)

end TypeLanguage.Hex
