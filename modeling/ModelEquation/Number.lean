import ModelEquation.Binary64.Shortest

/-!
# Numbers of model equations

A number is an integer of 64 bits or a double. A literal without point and
exponent is an integer as long as it fits; every other literal is a double, and
one that rounds to no finite double is refused.
-/

namespace ModelEquation

/-- A numeric value: an integer of 64 bits or a double. -/
inductive Number
  | integer (value : Int64)
  | real (value : Binary64)
  deriving DecidableEq

namespace Number

/-- The integers of 64 bits. -/
def fitsInteger (value : Int) : Bool :=
  Int64.minValue.toInt ≤ value && value ≤ Int64.maxValue.toInt

/-- Every integer has 64 bits. -/
theorem fitsInteger_toInt (value : Int64) : fitsInteger value.toInt = true := by
  simp only [fitsInteger, Bool.and_eq_true, decide_eq_true_eq]
  exact ⟨value.minValue_le_toInt, value.toInt_le⟩

/-- The integer of a value, if 64 bits are enough for it. -/
def checked (value : Int) : Option Int64 :=
  if fitsInteger value then some (.ofInt value) else none

/-- A magnitude with a sign in front of it. -/
def signed (negative : Bool) (magnitude : Nat) : Int :=
  if negative then -magnitude else magnitude

@[simp] theorem signed_true (magnitude : Nat) : signed true magnitude = -magnitude := rfl

@[simp] theorem signed_false (magnitude : Nat) : signed false magnitude = magnitude := rfl

/-- One more digit behind those that are read, added where the number is positive and taken
off where it is negative. Either step may leave the range, and then there is no result. -/
def appendDigit? (negative : Bool) (front : Int64) (digit : Char) : Option Int64 :=
  (checked (10 * front.toInt)).bind fun shifted =>
    checked (shifted.toInt + signed negative (digit.toNat - '0'.toNat))

/-- The integer that a text of an optional sign and at least one digit denotes, read digit by
digit. -/
def digitwise? (text : List Char) : Option Int64 :=
  let (negative, digits) := Decimal.splitSign text
  if !digits.isEmpty && digits.all Char.isDigit then
    digits.foldlM (appendDigit? negative) 0
  else
    none

/-- The integer that a text denotes, if it has neither point nor exponent and
its value fits. -/
def integer? (text : List Char) : Option Int64 :=
  if text.any fun character => character == '.' || character == 'e' || character == 'E' then
    none
  else
    digitwise? text

/-- The number that a literal denotes, if it denotes a finite one. -/
def ofText? (text : List Char) : Option Number :=
  match integer? text with
  | some value => some (.integer value)
  | none => ((Binary64.ofText? text).filter Binary64.isFinite).map .real

/-- The number as a double. -/
def toBinary64 : Number → Binary64
  | .integer value => .ofInt value.toInt
  | .real value => value

/-- Equality of kind and value. -/
def sameNumber : Number → Number → Bool
  | .integer left, .integer right => left == right
  | .real left, .real right => left.sameNumber right
  | _, _ => false

/-- The decimal text of a whole number. -/
def wholeText (value : Int) : List Char :=
  if value < 0 then '-' :: Nat.toDigits 10 value.natAbs else Nat.toDigits 10 value.natAbs

/-- Doubles are written positionally from `0.0001` up to `10 ^ 16`, with a bare
exponent outside that range, and a tie goes to the larger decimal. -/
def layout : Binary64.Layout where
  leastPositional := -4
  positiveMark := []
  tie := .upward

/-- The text of a number. A double keeps its point, so that it reads back as a
double. -/
def text : Number → List Char
  | .integer value => wholeText value.toInt
  | .real value => layout.text value

end Number
end ModelEquation
