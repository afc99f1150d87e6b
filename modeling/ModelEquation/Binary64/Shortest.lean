import ModelEquation.Binary64.Decimal

/-!
# Shortest decimals

Every real number between the two midpoints around a double rounds to it. The
shortest decimal of a double is the one with fewest digits in that interval; of
two such decimals it is the nearer. A `Layout` says how the digits are set out:
from which exponent on positionally, how an exponent is marked, and where an
exact tie between two candidates goes.
-/

namespace ModelEquation

/-- Where an exact tie between two decimals goes. -/
inductive TieRule
  | upward
  | toEven
  deriving DecidableEq, Repr

namespace Binary64

/-- A positive number and the ends of the interval that rounds to it, all as
multiples of one unit `numerator / denominator`. -/
structure Interval where
  low : Nat
  middle : Nat
  high : Nat
  closed : Bool
  numerator : Nat
  denominator : Nat

/-- The interval of reals that round to `significand * 2 ^ exponent`. Its ends
belong to it when the significand is even. The gap below a power of two is half
the gap above it. -/
def Interval.around (significand : Nat) (exponent : Int) : Interval where
  low :=
    if significand = Nat.pow 2 52 && exponent != -1074 then 4 * significand - 1
    else 4 * significand - 2
  middle := 4 * significand
  high := 4 * significand + 2
  closed := significand % 2 == 0
  numerator := Nat.pow 2 (exponent - 2).toNat
  denominator := Nat.pow 2 (2 - exponent).toNat

namespace Interval

/-- Whether `coefficient * 10 ^ place` lies in the interval. -/
def contains (interval : Interval) (coefficient : Nat) (place : Int) : Bool :=
  let point := coefficient * Nat.pow 10 place.toNat * interval.denominator
  let unit := interval.numerator * Nat.pow 10 (-place).toNat
  let low := interval.low * unit
  let high := interval.high * unit
  if interval.closed then low ≤ point && point ≤ high else low < point && point < high

/-- The decimal with last digit at the given place that lies in the interval and
nearest to its middle, if there is one. -/
def nearest? (tie : TieRule) (interval : Interval) (place : Int) : Option Decimal :=
  let middle := interval.middle * (interval.numerator * Nat.pow 10 (-place).toNat)
  let grid := Nat.pow 10 place.toNat * interval.denominator
  let below := middle / grid
  let twice := 2 * (middle % grid)
  let above := twice > grid || (twice == grid && (tie == .upward || below % 2 == 1))
  match interval.contains below place, interval.contains (below + 1) place with
  | true, true => some ⟨if above then below + 1 else below, place⟩
  | true, false => some ⟨below, place⟩
  | false, true => some ⟨below + 1, place⟩
  | false, false => none

/-- The first decimal found in the interval when the place of the last digit
moves down from a given one. At the least place every interval holds one. -/
def search (tie : TieRule) (interval : Interval) : Nat → Decimal
  | 0 => (interval.nearest? tie (-324)).getD ⟨0, 0⟩
  | steps + 1 =>
      match interval.nearest? tie ((steps : Int) - 323) with
      | some decimal => decimal
      | none => interval.search tie steps

end Interval

/-- The shortest decimal that rounds to `significand * 2 ^ exponent`. The search
starts at a power of ten beyond the number. -/
def shortest (tie : TieRule) (significand : Nat) (exponent : Int) : Decimal :=
  if significand = 0 then ⟨0, 0⟩
  else
    let magnitude := (significand.log2 : Int) + exponent + 2
    let place := magnitude * 30103 / 100000 + 2
    (Interval.around significand exponent).search tie (place + 324).toNat

/-- How the digits of a number are set out as text. -/
structure Layout where
  /-- The least exponent of a number that is written positionally. -/
  leastPositional : Int
  /-- What stands before a positive exponent. -/
  positiveMark : List Char
  /-- Where an exact tie between two shortest decimals goes. -/
  tie : TieRule

namespace Layout

/-- Digits with a point, at least one digit on either side of it. The number is
`0.digits * 10 ^ point`. -/
def positional (digits : List Char) (point : Int) : List Char :=
  if point ≤ 0 then
    '0' :: '.' :: (List.replicate (-point).toNat '0' ++ digits)
  else if digits.length ≤ point then
    digits ++ List.replicate (point.toNat - digits.length) '0' ++ ['.', '0']
  else
    digits.take point.toNat ++ '.' :: digits.drop point.toNat

/-- One digit before the point, the others after it, and the exponent. -/
def scientific (positiveMark : List Char) (digits : List Char) (exponent : Int) : List Char :=
  let mantissa :=
    match digits with
    | [] => []
    | [digit] => [digit]
    | digit :: others => digit :: '.' :: others
  let mark := if exponent < 0 then ['-'] else positiveMark
  mantissa ++ 'e' :: mark ++ Nat.toDigits 10 exponent.natAbs

/-- The digits of a decimal, positional within the range of the layout and below
`10 ^ 16`, and with an exponent outside it. -/
def decimal (layout : Layout) (number : Decimal) : List Char :=
  if number.coefficient = 0 then ['0', '.', '0']
  else
    let digits := Nat.toDigits 10 number.coefficient
    let point := number.exponent + digits.length
    if layout.leastPositional ≤ point - 1 && point - 1 < 16 then
      positional digits point
    else
      scientific layout.positiveMark digits (point - 1)

/-- The text of a double. -/
def text (layout : Layout) : Binary64 → List Char
  | .finite negative significand exponent _ =>
      let digits := layout.decimal (shortest layout.tie significand exponent)
      if negative then '-' :: digits else digits
  | .infinite negative => if negative then ['-', 'i', 'n', 'f'] else ['i', 'n', 'f']
  | .notANumber => ['N', 'a', 'N']

end Layout
end Binary64
end ModelEquation
