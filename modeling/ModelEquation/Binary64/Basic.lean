/-!
# Double precision numbers

The binary format of 64 bits, as exact mathematics: a finite number is a sign, a
significand below `2^53` and a power of two, in the one form that the format
stores. Both zeros, both infinities and one value that is no number belong to it.
Structural equality tells the two zeros apart; `sameNumber` compares by value.
-/

namespace ModelEquation

/-- The pairs of significand and exponent that the format stores: the
significand fills its 53 bits unless the exponent is the least one. -/
abbrev Binary64.Canonical (significand : Nat) (exponent : Int) : Prop :=
  significand < Nat.pow 2 53 ∧ -1074 ≤ exponent ∧ exponent ≤ 971 ∧
    (Nat.pow 2 52 ≤ significand ∨ exponent = -1074)

/-- A number of the binary format of 64 bits. The finite ones have the value
`±significand * 2 ^ exponent`. -/
inductive Binary64
  | finite
      (negative : Bool)
      (significand : Nat)
      (exponent : Int)
      (canonical : Binary64.Canonical significand exponent)
  | infinite (negative : Bool)
  | notANumber
  deriving DecidableEq

namespace Binary64

/-- Zero with a sign. -/
def zero (negative : Bool) : Binary64 :=
  .finite negative 0 (-1074) (by decide)

/-- Whether the number is neither infinite nor missing. -/
def isFinite : Binary64 → Bool
  | .finite _ _ _ _ => true
  | .infinite _ => false
  | .notANumber => false

/-- Whether the number carries a minus sign. -/
def isNegative : Binary64 → Bool
  | .finite negative _ _ _ => negative
  | .infinite negative => negative
  | .notANumber => false

/-- Whether the number is one of the zeros. -/
def isZero : Binary64 → Bool
  | .finite _ significand _ _ => significand == 0
  | .infinite _ => false
  | .notANumber => false

/-- The number with the other sign. -/
def negate : Binary64 → Binary64
  | .finite negative significand exponent canonical =>
      .finite (!negative) significand exponent canonical
  | .infinite negative => .infinite (!negative)
  | .notANumber => .notANumber

/-- Equality of values: the zeros are equal and a missing number equals nothing. -/
def sameNumber (left right : Binary64) : Bool :=
  match left with
  | .notANumber => false
  | _ => (left.isZero && right.isZero) || left == right

@[simp] theorem isFinite_zero (negative : Bool) : (zero negative).isFinite = true := rfl

@[simp] theorem isNegative_zero (negative : Bool) :
    (zero negative).isNegative = negative := rfl

@[simp] theorem isNegative_finite
    (negative : Bool)
    (significand : Nat)
    (exponent : Int)
    (canonical : Canonical significand exponent) :
    (finite negative significand exponent canonical).isNegative = negative := rfl

end Binary64
end ModelEquation
