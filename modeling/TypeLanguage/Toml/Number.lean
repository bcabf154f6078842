/-
This file reads the numbers of a TOML document: whole numbers in base 10, 16, 8 and 2,
and decimal fractions. An underscore may stand between two digits. A whole number has
to fit into 64 bits with a sign; a fraction may lie below every double but not above.
-/

import TypeLanguage.Text.Blank
import TypeLanguage.Text.Numeral

namespace TypeLanguage.Toml

/-! ### Digits -/

/-- Whether each underscore among some digits stands between two of them. -/
def isGrouped (run : List Char) : Bool :=
  run.head?.any (· != '_') && run.getLast?.any (· != '_') &&
    (run.zip run.tail).all fun pair => pair != ('_', '_')

/-- Takes one digit or more, with underscores between them, and gives their values. -/
def digits? (radix : Nat) (text : List Char) : Option (List Nat × List Char) :=
  let belongs := fun character =>
    (Text.radixDigit? radix character).isSome || character == '_'
  let run := text.takeWhile belongs
  if isGrouped run then some (run.filterMap (Text.radixDigit? radix), text.dropWhile belongs)
  else none

/-- The number that digits denote, the highest digit first. -/
def ofDigits (radix : Nat) (digits : List Nat) : Nat :=
  digits.foldl (fun number digit => radix * number + digit) 0

/-- Takes a sign, if there is one, and tells whether it is a minus. -/
def sign : List Char → Bool × List Char
  | '-' :: rest => (true, rest)
  | '+' :: rest => (false, rest)
  | text => (false, text)

/-- The number with the given sign and size. -/
def signed (isNegative : Bool) (size : Nat) : Int :=
  if isNegative then -size else size

/-! ### Whole numbers -/

/-- Whether a number fits into 64 bits with a sign. -/
def isLong (number : Int) : Bool :=
  -2 ^ 63 ≤ number && number < 2 ^ 63

/-- Takes the digits of a whole number in a base other than 10, which has no sign. -/
def based? (radix : Nat) (text : List Char) : Option (List Char) :=
  match digits? radix text with
  | some (digits, rest) => if isLong (ofDigits radix digits) then some rest else none
  | none => none

/-! ### Fractions -/

/-- Takes the digits after a point; there are none where there is no point. -/
def fraction? : List Char → Option (List Nat × List Char)
  | '.' :: rest => digits? 10 rest
  | text => some ([], text)

/-- Takes the exponent after its mark; it is zero where there is no mark. -/
def exponent? (text : List Char) : Option (Int × List Char) :=
  match Text.afterLead? ['e'] text <|> Text.afterLead? ['E'] text with
  | none => some (0, text)
  | some rest =>
    let (isNegative, rest) := sign rest
    (digits? 10 rest).map fun (digits, after) => (signed isNegative (ofDigits 10 digits), after)

/-- The least number whose nearest double would be infinity: it lies half a step above
the greatest double. -/
def overflow : Nat :=
  2 ^ 1024 - 2 ^ 970

/-- Whether the number that the digits denote, times a power of ten, is less than
`overflow`. As `overflow` has 309 digits, only numbers of this length are computed. -/
def isBelowOverflow (digits : List Nat) (exponent : Int) : Bool :=
  let digits := digits.dropWhile (· == 0)
  let length := digits.length + exponent
  if digits = [] ∨ length < 309 then true
  else if 309 < length then false
  else ofDigits 10 digits * 10 ^ exponent.toNat < overflow * 10 ^ (-exponent).toNat

/-! ### Numbers -/

/-- Takes a number in base 10 after its sign. The part before the point begins with a
zero only if this is its one digit. -/
def decimal? (isNegative : Bool) (text : List Char) : Option (List Char) := do
  let (whole, afterWhole) ← digits? 10 text
  if whole.head? = some 0 ∧ whole ≠ [0] then none
  let (fraction, afterFraction) ← fraction? afterWhole
  let (exponent, rest) ← exponent? afterFraction
  let isValid :=
    if rest.length = afterWhole.length then isLong (signed isNegative (ofDigits 10 whole))
    else isNegative || isBelowOverflow (whole ++ fraction) (exponent - fraction.length)
  if isValid then some rest else none

/-- Takes a number. -/
def number? (text : List Char) : Option (List Char) :=
  match text with
  | '0' :: 'x' :: rest => based? 16 rest
  | '0' :: 'o' :: rest => based? 8 rest
  | '0' :: 'b' :: rest => based? 2 rest
  | text =>
    let (isNegative, rest) := sign text
    Text.afterLead? ['i', 'n', 'f'] rest <|> Text.afterLead? ['n', 'a', 'n'] rest <|>
      decimal? isNegative rest

end TypeLanguage.Toml
