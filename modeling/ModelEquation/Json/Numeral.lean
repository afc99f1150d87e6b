import ModelEquation.Binary64.Decimal
import ModelEquation.Json.Failure
import ModelEquation.Json.Value

/-!
# Numbers of JSON text

A numeral is a sign, digits without a superfluous zero in front, and optionally a
fraction and an exponent. One of digits alone is a whole number as long as it
fits into 64 bits. Every other numeral is a double: its first digits are taken
as a whole number of 64 bits, rounded, and scaled by a power of ten, so that the
result may differ from the nearest double in the last place.
-/

namespace ModelEquation
namespace Json

/-- The parts of a number in JSON text. -/
structure Numeral where
  negative : Bool
  whole : List Char
  fraction : Option (List Char)
  exponent : Option (Bool × List Char)
  deriving DecidableEq, Repr

namespace Numeral

/-- Takes digits into a significand as long as it fits into 64 bits. Returns the
significand, the number of digits taken and the number of digits left over. -/
def accumulate : Nat → List Char → Nat × Nat × Nat
  | significand, [] => (significand, 0, 0)
  | significand, digit :: rest =>
      let extended := 10 * significand + (digit.toNat - '0'.toNat)
      if extended < UInt64.size then
        let (result, taken, left) := accumulate extended rest
        (result, taken + 1, left)
      else
        (significand, 0, rest.length + 1)

/-- A power of ten as a double. -/
def powerOfTen (exponent : Nat) : Binary64 :=
  .ofNat (Nat.pow 10 exponent)

/-- Divides by a power of ten, `10 ^ 308` at a time. -/
def scaleDown (value : Binary64) (exponent : Nat) : Binary64 :=
  if exponent ≤ 308 then value.divide (powerOfTen exponent)
  else if value.isZero then value
  else scaleDown (value.divide (powerOfTen 308)) (exponent - 308)
termination_by exponent

/-- Multiplies by a power of ten, unless the product is infinite. -/
def scaleUp? (value : Binary64) (exponent : Nat) : Option Binary64 :=
  if exponent ≤ 308 then (some (value.multiply (powerOfTen exponent))).filter Binary64.isFinite
  else if value.isZero then some value
  else none

/-- The double of a significand and a power of ten, if it is finite. -/
def scaled? (significand : Nat) (exponent : Int) : Option Binary64 :=
  if exponent < 0 then some (scaleDown (.ofNat significand) exponent.natAbs)
  else scaleUp? (.ofNat significand) exponent.natAbs

/-- The value of an exponent, if it fits into 31 bits. -/
def exponentValue? (digits : List Char) : Option Nat :=
  (some (Decimal.ofDigits digits)).filter (· < Nat.pow 2 31)

/-- The double of a significand, a power of ten and an exponent that is added to
it. An exponent that does not fit makes zero of everything that it does not make
too large. -/
def withExponent? (significand : Nat) (start : Int) (exponent : Option (Bool × List Char)) :
    Option Binary64 :=
  match exponent with
  | none => scaled? significand start
  | some (down, digits) =>
      match exponentValue? digits with
      | some value => scaled? significand (if down then start - value else start + value)
      | none => if significand = 0 || down then some (.zero false) else none

/-- The number as a double, if it is in range. -/
def double? (numeral : Numeral) : Option Binary64 :=
  let (whole, _, dropped) := accumulate 0 numeral.whole
  let (significand, places, _) := accumulate whole (numeral.fraction.getD [])
  (withExponent? significand ((dropped : Int) - places) numeral.exponent).map fun value =>
    if numeral.negative then value.negate else value

/-- The whole number of digits alone, if it fits into 64 bits. Minus zero is a
double. -/
def whole? (numeral : Numeral) : Option Int :=
  if numeral.fraction.isSome || numeral.exponent.isSome then none
  else
    let magnitude := Decimal.ofDigits numeral.whole
    if numeral.negative then
      if magnitude = 0 || magnitude > Nat.pow 2 63 then none else some (-(magnitude : Int))
    else
      if magnitude < UInt64.size then some magnitude else none

/-- The value of a numeral, if it is in range. -/
def value? (numeral : Numeral) : Option Value :=
  match numeral.whole? with
  | some value => some (.whole value)
  | none => numeral.double?.map .double

end Numeral

namespace TextReader

/-- At least one digit; the failure is that of a text that ends here. -/
def digits (atEnd : Failure) : TextReader (List Char) := do
  let found ← takeWhile Char.isDigit
  if found.isEmpty then
    .fail fun rest => if rest.isEmpty then atEnd else .malformed
  else
    pure found

/-- The digits before the point: a single zero, or digits that do not start with
one. -/
def wholeDigits (atEnd : Failure) : TextReader (List Char) := do
  let found ← digits atEnd
  if found.head? = some '0' && found.length != 1 then refuse .malformed else pure found

/-- An optional fraction. -/
def fraction (atEnd : Failure) : TextReader (Option (List Char)) := do
  if (← Reader.peek) = some '.' then
    Reader.skip
    pure (some (← digits atEnd))
  else
    pure none

/-- An optional sign; the flag says whether it is a minus. -/
def sign : TextReader Bool := do
  match ← Reader.peek with
  | some '+' => Reader.skip; pure false
  | some '-' => Reader.skip; pure true
  | _ => pure false

/-- An optional exponent. -/
def exponent (atEnd : Failure) : TextReader (Option (Bool × List Char)) := do
  let next ← Reader.peek
  if next = some 'e' || next = some 'E' then
    Reader.skip
    let down ← sign
    pure (some (down, ← digits atEnd))
  else
    pure none

/-- The parts of a number; the failure is that of a text that ends where a digit
is missing. -/
def numeral (atEnd : Failure) : TextReader Numeral := do
  let negative := (← Reader.peek) = some '-'
  if negative then Reader.skip else pure ()
  let whole ← wholeDigits atEnd
  let fraction ← fraction atEnd
  let exponent ← exponent atEnd
  pure ⟨negative, whole, fraction, exponent⟩

/-- A number that is in range. -/
def number : TextReader Value := do
  match (← numeral .truncated).value? with
  | some value => pure value
  | none => refuse .malformed

/-- A number of any size, whose value is not needed. -/
def anyNumber : TextReader Value := do
  let _ ← numeral .malformed
  pure .null

end TextReader
end Json
end ModelEquation
