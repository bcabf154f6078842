/-
This file reads the moments of a TOML document: a date, a time of day, or a date with a
time and perhaps its distance from universal time.
-/

import TypeLanguage.Text.Blank

namespace TypeLanguage.Toml

/-! ### Fields -/

/-- Takes a number of just `width` digits that lies between two bounds. -/
def field? (width least greatest : Nat) (text : List Char) : Option (Nat × List Char) :=
  let digits := text.take width
  let number := digits.foldl (fun number digit => 10 * number + (digit.toNat - 48)) 0
  if digits.length = width ∧ digits.all Char.isDigit ∧ least ≤ number ∧ number ≤ greatest then
    some (number, text.drop width)
  else none

/-- Takes a field as `field?` does, after the mark that stands before it. -/
def fieldAfter? (mark : Char) (width least greatest : Nat) (text : List Char) :
    Option (Nat × List Char) :=
  (Text.afterLead? [mark] text).bind (field? width least greatest)

/-! ### Dates -/

/-- Whether a year has a leap day. -/
def isLeapYear (year : Nat) : Bool :=
  year % 4 = 0 && (year % 100 ≠ 0 || year % 400 = 0)

/-- The number of days in a month of a year. -/
def daysInMonth (year month : Nat) : Nat :=
  if month = 2 then (if isLeapYear year then 29 else 28)
  else if month ∈ [4, 6, 9, 11] then 30
  else 31

/-- Takes a date. -/
def date? (text : List Char) : Option (List Char) := do
  let (year, text) ← field? 4 0 9999 text
  let (month, text) ← fieldAfter? '-' 2 1 12 text
  let (_, text) ← fieldAfter? '-' 2 1 (daysInMonth year month) text
  return text

/-! ### Times -/

/-- The text without the parts of a second in front, which take a digit at least. -/
def skipSecondParts (text : List Char) : List Char :=
  match text with
  | '.' :: digit :: rest => if digit.isDigit then rest.dropWhile Char.isDigit else text
  | text => text

/-- Takes a time of day; a minute may have a leap second. -/
def time? (text : List Char) : Option (List Char) := do
  let (_, text) ← field? 2 0 23 text
  let (_, text) ← fieldAfter? ':' 2 0 59 text
  let (_, text) ← fieldAfter? ':' 2 0 60 text
  return skipSecondParts text

/-- Takes hours and minutes. -/
def hoursAndMinutes? (text : List Char) : Option (List Char) := do
  let (_, text) ← field? 2 0 23 text
  let (_, text) ← fieldAfter? ':' 2 0 59 text
  return text

/-- Takes the distance from universal time, if it is given. -/
def offset? : List Char → Option (List Char)
  | 'Z' :: rest => some rest
  | 'z' :: rest => some rest
  | '+' :: rest => hoursAndMinutes? rest
  | '-' :: rest => hoursAndMinutes? rest
  | text => some text

/-! ### Moments -/

/-- Takes a moment. A date stands alone where no time follows what may be the mark
between them, since a blank may also end the value. -/
def moment? (text : List Char) : Option (List Char) :=
  match date? text with
  | none => time? text
  | some afterDate =>
    match afterDate with
    | mark :: rest =>
      match (if mark ∈ ['T', 't', ' '] then time? rest else none) with
      | some afterTime => offset? afterTime
      | none => some afterDate
    | [] => some afterDate

end TypeLanguage.Toml
