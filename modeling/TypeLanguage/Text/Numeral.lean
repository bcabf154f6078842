/-
This file holds the reading of unsigned 32-bit numerals. Digits are taken from
the left, and the first fault met on the way decides the error: a character that
is no digit, or a value that no longer fits. One plus sign may stand in front of
the digits.
-/

namespace TypeLanguage.Text

/-- Why a text is no numeral. -/
inductive NumeralError
  | empty
  | invalidDigit
  | tooLarge
  deriving DecidableEq, Repr

namespace NumeralError

/-- The wording of the error. -/
def message : NumeralError → String
  | empty => "cannot parse integer from empty string"
  | invalidDigit => "invalid digit found in string"
  | tooLarge => "number too large to fit in target type"

end NumeralError

/-- The value of a digit of either case in the given radix. -/
def radixDigit? (radix : Nat) (character : Char) : Option Nat :=
  let value :=
    if '0' ≤ character ∧ character ≤ '9' then some (character.toNat - 48)
    else if 'a' ≤ character ∧ character ≤ 'z' then some (character.toNat - 87)
    else if 'A' ≤ character ∧ character ≤ 'Z' then some (character.toNat - 55)
    else none
  value.filter (fun value => value < radix)

/-- Continues a value with the digits that follow it. -/
def extendNumeral (radix : Nat) : (value : Nat) → List Char → Except NumeralError Nat
  | value, [] => .ok value
  | value, character :: rest =>
    match radixDigit? radix character with
    | none => .error .invalidDigit
    | some digit =>
      if radix * value + digit < 2 ^ 32 then extendNumeral radix (radix * value + digit) rest
      else .error .tooLarge

/-- The 32-bit number that a text denotes in the given radix. -/
def readNumeral (radix : Nat) (text : List Char) : Except NumeralError UInt32 :=
  match text with
  | [] => .error .empty
  | '+' :: digit :: rest => UInt32.ofNat <$> extendNumeral radix 0 (digit :: rest)
  | _ => UInt32.ofNat <$> extendNumeral radix 0 text

end TypeLanguage.Text
