import ModelEquation.Binary64.Rounding

/-!
# Reading decimal numbers

A decimal text is an optional sign, digits with an optional point among or
around them, and an optional exponent. It denotes an exact decimal, which is
rounded once. The words for the infinities and for the missing number are read
as well, in any case.
-/

namespace ModelEquation

/-- The exact number `coefficient * 10 ^ exponent`. -/
structure Decimal where
  coefficient : Nat
  exponent : Int
  deriving DecidableEq, Repr

namespace Decimal

/-- The value of a run of decimal digits. -/
def ofDigits (digits : List Char) : Nat :=
  Nat.ofDigitChars 10 digits 0

/-- Splits an optional sign from a text; the flag says whether it is a minus. -/
def splitSign : List Char → Bool × List Char
  | '-' :: rest => (true, rest)
  | '+' :: rest => (false, rest)
  | text => (false, text)

/-- The value of the digits of an exponent. It stops growing at five digits: every
number with a longer exponent is zero or infinite once rounded. -/
def exponentValue (digits : List Char) : Nat :=
  digits.foldl (fun value digit =>
    if value < 65536 then 10 * value + (digit.toNat - '0'.toNat) else value) 0

/-- The exponent that the end of a number denotes: nothing, or a mark, an
optional sign and at least one digit. -/
def exponentOf? : List Char → Option Int
  | [] => some 0
  | mark :: rest =>
      let (negative, digits) := splitSign rest
      if (mark == 'e' || mark == 'E') && !digits.isEmpty && digits.all Char.isDigit then
        let value : Int := exponentValue digits
        some (if negative then -value else value)
      else
        none

/-- The decimal that an unsigned text denotes. -/
def ofText? (text : List Char) : Option Decimal :=
  let whole := text.takeWhile Char.isDigit
  let afterWhole := text.dropWhile Char.isDigit
  let (fraction, afterFraction) :=
    match afterWhole with
    | '.' :: rest => (rest.takeWhile Char.isDigit, rest.dropWhile Char.isDigit)
    | other => ([], other)
  let digits := whole ++ fraction
  if digits.isEmpty then none
  else (exponentOf? afterFraction).map fun exponent =>
    ⟨ofDigits digits, exponent - fraction.length⟩

/-- The double nearest to a decimal with a sign. -/
def toBinary64 (negative : Bool) (decimal : Decimal) : Binary64 :=
  .ofRatio negative (decimal.coefficient * Nat.pow 10 decimal.exponent.toNat)
    (Nat.pow 10 (-decimal.exponent).toNat)

end Decimal

namespace Binary64

/-- The number that a word stands for, whatever the case of its letters. -/
def ofWord? (negative : Bool) (text : List Char) : Option Binary64 :=
  let word := text.map Char.toLower
  if word = ['i', 'n', 'f'] || word = ['i', 'n', 'f', 'i', 'n', 'i', 't', 'y'] then
    some (.infinite negative)
  else if word = ['n', 'a', 'n'] then
    some .notANumber
  else
    none

/-- The double that a text denotes, if the whole text is a number. -/
def ofText? (text : List Char) : Option Binary64 :=
  let (negative, unsigned) := Decimal.splitSign text
  match Decimal.ofText? unsigned with
  | some decimal => some (decimal.toBinary64 negative)
  | none => ofWord? negative unsigned

end Binary64
end ModelEquation
