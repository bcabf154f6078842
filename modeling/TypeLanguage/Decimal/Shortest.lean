/-
This file holds the shortest decimal text of a double. A double is given by its
64 bits. A finite one stands for `significand * 2 ^ exponent`, and every decimal
between the midpoints to its two neighbours reads back as it, the midpoints too
if the significand is even. The text shows the decimal with the fewest digits in
that interval and, among those, the one nearest to the double.

The search is exact: for each count of digits it looks at the two decimals of
that count around the double, since if any decimal of a grid lies in the interval,
one of the two neighbours of the double on that grid does.
-/

namespace TypeLanguage.Decimal

/-! ### Doubles as fractions -/

/-- A positive double as an exact fraction, with the bounds of the decimals that
read back as it over the same denominator. -/
structure Interval where
  below : Nat
  value : Nat
  above : Nat
  denominator : Nat
  /-- Whether the bounds themselves read back as the double. -/
  closed : Bool
  deriving Repr

/-- The interval of a positive double with the given 52-bit fraction field and
11-bit exponent field. A power of two, the least exponent apart, has a lower
neighbour that is only half as far away as its upper one. -/
def interval (fraction exponentField : Nat) : Interval :=
  let significand := if exponentField = 0 then fraction else 2 ^ 52 + fraction
  let shift := max exponentField 1
  let nearBelow := fraction = 0 ∧ 1 < exponentField
  -- In quarters of the last place, so that the half and quarter steps are whole.
  let value := 4 * significand
  let below := if nearBelow then value - 1 else value - 2
  let above := value + 2
  -- The last place is worth `2 ^ (shift - 1075)`.
  let scale := 2 ^ shift
  { below := below * scale
    value := value * scale
    above := above * scale
    denominator := 4 * 2 ^ 1075
    closed := significand % 2 = 0 }

/-- Whether the decimal `digits * 10 ^ power` reads back as the double. -/
def Interval.holds (interval : Interval) (digits : Nat) (power : Int) : Bool :=
  let scaled := digits * interval.denominator * 10 ^ power.toNat
  let unit := 10 ^ (-power).toNat
  let least := interval.below * unit
  let most := interval.above * unit
  if interval.closed then least ≤ scaled && scaled ≤ most else least < scaled && scaled < most

/-- The exponent `p` with `10 ^ (p - 1) ≤ numerator / denominator < 10 ^ p`, found
by stepping from a start; the start is near, so few steps are taken. -/
def decimalPoint (numerator denominator : Nat) : (fuel : Nat) → Int → Int
  | 0, point => point
  | fuel + 1, point =>
    if denominator * 10 ^ point.toNat ≤ numerator * 10 ^ (-point).toNat then
      decimalPoint numerator denominator fuel (point + 1)
    else if numerator * 10 ^ (1 - point).toNat < denominator * 10 ^ (point - 1).toNat then
      decimalPoint numerator denominator fuel (point - 1)
    else point

/-- The decimals of `count` digits on either side of the double that read back as
it, the nearer one if both do; a tie goes up. -/
def nearest? (interval : Interval) (point : Int) (count : Nat) : Option (Nat × Int) :=
  let power := point - count
  let numerator := interval.value * 10 ^ (-power).toNat
  let divisor := interval.denominator * 10 ^ power.toNat
  let low := numerator / divisor
  let high := low + 1
  match interval.holds low power, interval.holds high power with
  | true, true =>
    let rest := numerator % divisor
    some (if 2 * rest < divisor then low else high, power)
  | true, false => some (low, power)
  | false, true => some (high, power)
  | false, false => none

/-- Seventeen digits always read back, so the search ends within `fuel = 17`. -/
def search (interval : Interval) (point : Int) : (fuel count : Nat) → Nat × Int
  | 0, count => (interval.value / interval.denominator, point - count)
  | fuel + 1, count =>
    match nearest? interval point count with
    | some found => found
    | none => search interval point fuel (count + 1)

/-- The digits and the power of ten of the shortest decimal for a positive double. -/
def shortest (fraction exponentField : Nat) : Nat × Int :=
  let interval := interval fraction exponentField
  let binaryPoint : Int := interval.value.log2 - interval.denominator.log2
  let guess := binaryPoint * 30103 / 100000
  search interval (decimalPoint interval.value interval.denominator 8 guess) 17 1

/-! ### Layout of the digits -/

/-- The digits without trailing zeros, which move into the power. -/
def dropZeros : (fuel : Nat) → Nat × Int → Nat × Int
  | 0, decimal => decimal
  | fuel + 1, (digits, power) =>
    if digits % 10 = 0 ∧ digits ≠ 0 then dropZeros fuel (digits / 10, power + 1)
    else (digits, power)

/-- How numbers are laid out: from `10 ^ leastPositional` up to, not including,
`10 ^ mostPositional` in full, with at least one digit after the point, and as
digit, point, digits and power of ten outside that range. -/
structure Layout where
  leastPositional : Int
  mostPositional : Int

/-- Values from 0.0001 up to ten quadrillion are written in full. -/
def layout : Layout := ⟨-4, 16⟩

/-- The text of a positive decimal. -/
def layOut (layout : Layout) (decimal : Nat × Int) : String :=
  let (digits, power) := dropZeros 20 decimal
  let text := (Nat.repr digits).toList
  let count : Int := text.length
  -- The decimal point stands after this many digits.
  let point := count + power
  if layout.leastPositional < point ∧ point ≤ layout.mostPositional then
    if power ≥ 0 then String.ofList (text ++ List.replicate power.toNat '0' ++ ['.', '0'])
    else if point > 0 then
      String.ofList (text.take point.toNat ++ '.' :: text.drop point.toNat)
    else String.ofList ('0' :: '.' :: (List.replicate (-point).toNat '0' ++ text))
  else
    let fractionPart := if count = 1 then [] else '.' :: text.drop 1
    String.ofList (text.take 1 ++ fractionPart ++ 'e' :: (Int.repr (point - 1)).toList)

/-- The text of a double: its sign, and its shortest decimal, `inf` or `NaN`. -/
def ofDouble (bits : UInt64) : String :=
  let number := bits.toNat
  let fraction := number % 2 ^ 52
  let exponentField := number / 2 ^ 52 % 2 ^ 11
  let sign := if number / 2 ^ 63 = 1 then "-" else ""
  if exponentField = 2047 then
    if fraction = 0 then sign ++ "inf" else "NaN"
  else if fraction = 0 ∧ exponentField = 0 then sign ++ "0.0"
  else sign ++ layOut layout (shortest fraction exponentField)

end TypeLanguage.Decimal
