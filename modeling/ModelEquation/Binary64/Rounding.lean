import ModelEquation.Binary64.Basic

/-!
# Rounding to double precision

`ofRatio` rounds an exact quotient of whole numbers to the nearest double; a
quotient halfway between two goes to the one with the even significand, and one
beyond the largest finite double becomes infinite. Products and quotients of
doubles are rounded the same way.
-/

namespace ModelEquation
namespace Binary64

/-- A quotient of whole numbers rounded to the nearest one, a half going to the
even neighbour. -/
def roundQuotient (numerator denominator : Nat) : Nat :=
  let quotient := numerator / denominator
  let twice := 2 * (numerator % denominator)
  if twice < denominator then quotient
  else if denominator < twice then quotient + 1
  else quotient + quotient % 2

/-- The finite double with these parts, or an infinity where the parts lie
beyond the largest one. -/
def ofParts (negative : Bool) (significand : Nat) (exponent : Int) : Binary64 :=
  if canonical : Canonical significand exponent then
    .finite negative significand exponent canonical
  else
    .infinite negative

/-- The exponent that brings a positive quotient into the range of significands:
the quotient divided by that power of two lies below `2 ^ 53`, and not below
`2 ^ 52` unless the exponent is the least one. -/
def exponentFor (numerator denominator : Nat) : Int :=
  let estimate : Int := (numerator.log2 : Int) - (denominator.log2 : Int) - 53
  let small :=
    numerator * Nat.pow 2 (-estimate).toNat <
      Nat.pow 2 53 * (denominator * Nat.pow 2 estimate.toNat)
  max (-1074) (if small then estimate else estimate + 1)

/-- The double nearest to `±numerator / denominator`. -/
def ofRatio (negative : Bool) (numerator denominator : Nat) : Binary64 :=
  if numerator = 0 then
    zero negative
  else
    let exponent := exponentFor numerator denominator
    let significand :=
      roundQuotient (numerator * Nat.pow 2 (-exponent).toNat)
        (denominator * Nat.pow 2 exponent.toNat)
    if significand = Nat.pow 2 53 then
      ofParts negative (Nat.pow 2 52) (exponent + 1)
    else
      ofParts negative significand exponent

/-- The double nearest to a natural number. -/
def ofNat (value : Nat) : Binary64 :=
  ofRatio false value 1

/-- The double nearest to a whole number. -/
def ofInt (value : Int) : Binary64 :=
  ofRatio (value < 0) value.natAbs 1

/-- The product of two doubles, rounded. -/
def multiply : Binary64 → Binary64 → Binary64
  | .finite leftNegative leftSignificand leftExponent _,
      .finite rightNegative rightSignificand rightExponent _ =>
      let exponent := leftExponent + rightExponent
      ofRatio (leftNegative != rightNegative)
        (leftSignificand * rightSignificand * Nat.pow 2 exponent.toNat)
        (Nat.pow 2 (-exponent).toNat)
  | .infinite leftNegative, right =>
      if right == .notANumber || right.isZero then .notANumber
      else .infinite (leftNegative != right.isNegative)
  | left, .infinite rightNegative =>
      if left == .notANumber || left.isZero then .notANumber
      else .infinite (left.isNegative != rightNegative)
  | _, _ => .notANumber

/-- The quotient of two doubles, rounded. -/
def divide : Binary64 → Binary64 → Binary64
  | .finite leftNegative leftSignificand leftExponent _,
      .finite rightNegative rightSignificand rightExponent _ =>
      let exponent := leftExponent - rightExponent
      let negative := leftNegative != rightNegative
      if rightSignificand = 0 then
        if leftSignificand = 0 then .notANumber else .infinite negative
      else
        ofRatio negative (leftSignificand * Nat.pow 2 exponent.toNat)
          (rightSignificand * Nat.pow 2 (-exponent).toNat)
  | .infinite leftNegative, .finite rightNegative _ _ _ =>
      .infinite (leftNegative != rightNegative)
  | .finite leftNegative _ _ _, .infinite rightNegative =>
      zero (leftNegative != rightNegative)
  | _, _ => .notANumber

@[simp] theorem isNegative_ofParts (negative : Bool) (significand : Nat) (exponent : Int) :
    (ofParts negative significand exponent).isNegative = negative := by
  unfold ofParts
  split <;> rfl

/-- Rounding keeps the sign. -/
@[simp] theorem isNegative_ofRatio (negative : Bool) (numerator denominator : Nat) :
    (ofRatio negative numerator denominator).isNegative = negative := by
  unfold ofRatio
  split
  · rfl
  · dsimp only
    split <;> simp

end Binary64
end ModelEquation
