import Mathlib.Tactic.Ring
import ModelEquation.Binary64.Rounding

/-!
# Rounding beyond the largest double

A whole number is rounded to 53 digits of its own binade, and the significand may be carried
into the next one. So its double is finite below the midpoint between the largest double and
the power of two above it. The midpoint itself goes to the even significand, which is that
of the power, and has no finite double any more.
-/

namespace ModelEquation
namespace Binary64

/-- Halfway between the largest double and the power of two above it. -/
def overflow : Nat :=
  (Nat.pow 2 54 - 1) * Nat.pow 2 970

/-- The first 53 binary digits of a whole number, the others rounded away. -/
def wholeSignificand (value : Nat) : Nat :=
  roundQuotient (value * Nat.pow 2 (52 - value.log2)) (Nat.pow 2 (value.log2 - 52))

/-! ## Rounded quotients -/

/-- A quotient is rounded up to an even number from the midpoint below that number on. -/
theorem le_roundQuotient_iff
    {numerator denominator target : Nat}
    (positive : 0 < denominator)
    (even : target % 2 = 0) :
    target ≤ roundQuotient numerator denominator ↔
      target * (2 * denominator) ≤ 2 * numerator + denominator := by
  have below := Nat.mod_lt numerator positive
  have split : 2 * numerator + denominator =
      2 * denominator * (numerator / denominator) +
        (2 * (numerator % denominator) + denominator) := by
    have whole := Nat.div_add_mod numerator denominator
    rw [Nat.mul_assoc]
    omega
  rw [← Nat.le_div_iff_mul_le (by omega), split, Nat.mul_add_div (by omega)]
  unfold roundQuotient
  dsimp only
  split
  · next low =>
      have down : (2 * (numerator % denominator) + denominator) / (2 * denominator) = 0 :=
        Nat.div_eq_of_lt (by omega)
      rw [down, Nat.add_zero]
  · next high =>
      have up : (2 * (numerator % denominator) + denominator) / (2 * denominator) = 1 :=
        Nat.div_eq_of_lt_le (by omega) (by omega)
      rw [up]
      split <;> omega

/-- Rounding stays between the quotients before and behind. -/
theorem roundQuotient_bounds (numerator denominator : Nat) :
    numerator / denominator ≤ roundQuotient numerator denominator ∧
      roundQuotient numerator denominator ≤ numerator / denominator + 1 := by
  unfold roundQuotient
  dsimp only
  split
  · omega
  · split <;> omega

/-! ## Whole numbers -/

section Whole

variable {value : Nat} (nonzero : value ≠ 0)
include nonzero

/-- The significand of a whole number starts with its leading binary digit. -/
theorem exponentFor_one : exponentFor value 1 = (value.log2 : Int) - 52 := by
  have least := Nat.log2_self_le nonzero
  have unit : Nat.log2 1 = 0 := rfl
  simp only [exponentFor, unit]
  rw [if_neg]
  · omega
  · rw [Nat.not_lt, Nat.one_mul]
    obtain low | high := Nat.le_total value.log2 53
    · obtain ⟨missing, known⟩ := Nat.exists_eq_add_of_le low
      have up : (-((value.log2 : Int) - (0 : Nat) - 53)).toNat = missing := by omega
      have down : ((value.log2 : Int) - (0 : Nat) - 53).toNat = 0 := by omega
      rw [up, down, known, Nat.pow_eq, Nat.pow_eq, Nat.pow_eq, Nat.pow_zero, Nat.mul_one,
        Nat.pow_add]
      exact Nat.mul_le_mul_right _ least
    · obtain ⟨extra, known⟩ := Nat.exists_eq_add_of_le high
      have up : (-((value.log2 : Int) - (0 : Nat) - 53)).toNat = 0 := by omega
      have down : ((value.log2 : Int) - (0 : Nat) - 53).toNat = extra := by omega
      rw [up, down, Nat.pow_eq, Nat.pow_eq, Nat.pow_eq, Nat.pow_zero, Nat.mul_one,
        ← Nat.pow_add, ← known]
      exact least

/-- The significand of a whole number has 53 bits, or it has just been rounded up to the next
power of two. -/
theorem wholeSignificand_bounds :
    Nat.pow 2 52 ≤ wholeSignificand value ∧ wholeSignificand value ≤ Nat.pow 2 53 := by
  have least := Nat.log2_self_le nonzero
  have greatest : value < 2 ^ (value.log2 + 1) := Nat.lt_log2_self
  have bounds := roundQuotient_bounds (value * Nat.pow 2 (52 - value.log2))
    (Nat.pow 2 (value.log2 - 52))
  have aligned : 2 ^ value.log2 * 2 ^ (52 - value.log2) = 2 ^ 52 * 2 ^ (value.log2 - 52) := by
    rw [← Nat.pow_add, ← Nat.pow_add]
    congr 1
    omega
  have positive : 0 < Nat.pow 2 (value.log2 - 52) := Nat.two_pow_pos _
  have lower :
      Nat.pow 2 52 ≤ value * Nat.pow 2 (52 - value.log2) / Nat.pow 2 (value.log2 - 52) := by
    rw [Nat.le_div_iff_mul_le positive]
    calc 2 ^ 52 * 2 ^ (value.log2 - 52)
        = 2 ^ value.log2 * 2 ^ (52 - value.log2) := aligned.symm
      _ ≤ value * 2 ^ (52 - value.log2) := Nat.mul_le_mul_right _ least
  have upper :
      value * Nat.pow 2 (52 - value.log2) / Nat.pow 2 (value.log2 - 52) < Nat.pow 2 53 := by
    rw [Nat.div_lt_iff_lt_mul positive]
    calc value * 2 ^ (52 - value.log2)
        < 2 ^ (value.log2 + 1) * 2 ^ (52 - value.log2) :=
          Nat.mul_lt_mul_of_pos_right greatest (Nat.two_pow_pos _)
      _ = 2 * (2 ^ value.log2 * 2 ^ (52 - value.log2)) := by ring
      _ = 2 ^ 53 * 2 ^ (value.log2 - 52) := by
          rw [aligned]
          ring
  exact ⟨Nat.le_trans lower bounds.1, Nat.le_trans bounds.2 upper⟩

/-- A significand that fills up is that of the next power of two. -/
theorem ofRatio_one (negative : Bool) :
    ofRatio negative value 1 =
      if wholeSignificand value = Nat.pow 2 53 then
        ofParts negative (Nat.pow 2 52) ((value.log2 : Int) - 51)
      else
        ofParts negative (wholeSignificand value) ((value.log2 : Int) - 52) := by
  have up : (-((value.log2 : Int) - 52)).toNat = 52 - value.log2 := by omega
  have down : ((value.log2 : Int) - 52).toNat = value.log2 - 52 := by omega
  have next : (value.log2 : Int) - 52 + 1 = value.log2 - 51 := by omega
  simp only [ofRatio, if_neg nonzero, exponentFor_one nonzero, up, down, next, Nat.one_mul,
    wholeSignificand]
  rfl

/-- In the last binade the significand is carried over from the midpoint on. -/
theorem wholeSignificand_eq_iff (last : value.log2 = 1023) :
    wholeSignificand value = Nat.pow 2 53 ↔ overflow ≤ value := by
  have filled : wholeSignificand value = Nat.pow 2 53 ↔ Nat.pow 2 53 ≤ wholeSignificand value :=
    ⟨fun full => Nat.le_of_eq full.symm, Nat.le_antisymm (wholeSignificand_bounds nonzero).2⟩
  have positive : 0 < Nat.pow 2 (value.log2 - 52) := Nat.two_pow_pos _
  have unit : Nat.pow 2 (52 - value.log2) = 1 := by rw [last]
  have midpoint :
      Nat.pow 2 53 * (2 * Nat.pow 2 (value.log2 - 52)) =
        2 * overflow + Nat.pow 2 (value.log2 - 52) := by
    rw [last]
    decide +kernel
  rw [filled, wholeSignificand, le_roundQuotient_iff positive (by decide), midpoint, unit,
    Nat.mul_one]
  omega

/-- Below the midpoint lie the numbers of the binades before the last one, and those of the
last one that are not carried out of it. -/
theorem lt_overflow_iff :
    value < overflow ↔
      value.log2 < 1023 ∨ value.log2 = 1023 ∧ wholeSignificand value ≠ Nat.pow 2 53 := by
  obtain early | last | late := Nat.lt_trichotomy value.log2 1023
  · have small := (Nat.log2_lt nonzero).mp early
    exact iff_of_true (Nat.lt_of_lt_of_le small (by decide +kernel)) (.inl early)
  · have carried := not_congr (wholeSignificand_eq_iff nonzero last)
    simp [last, carried]
  · have large := (Nat.le_log2 nonzero).mp late
    have beyond : overflow ≤ value := Nat.le_trans (by decide +kernel) large
    exact iff_of_false (Nat.not_lt.mpr beyond) (by omega)

end Whole

/-- A significand and an exponent make a finite double exactly if they are canonical. -/
theorem isFinite_ofParts_iff {negative : Bool} {significand : Nat} {exponent : Int} :
    (ofParts negative significand exponent).isFinite = true ↔ Canonical significand exponent := by
  unfold ofParts
  split
  · next canonical => exact iff_of_true rfl canonical
  · next other => exact iff_of_false Bool.false_ne_true other

/-- The double of a whole number is finite below the midpoint. -/
theorem isFinite_ofRatio_one_iff {negative : Bool} {value : Nat} :
    (ofRatio negative value 1).isFinite = true ↔ value < overflow := by
  by_cases nonzero : value = 0
  · subst nonzero
    exact iff_of_true rfl (by decide +kernel)
  · have bounds := wholeSignificand_bounds nonzero
    have grows : Nat.pow 2 52 < Nat.pow 2 53 := by decide
    rw [ofRatio_one nonzero, lt_overflow_iff nonzero]
    split
    · next full =>
        rw [isFinite_ofParts_iff, Canonical]
        omega
    · next within =>
        rw [isFinite_ofParts_iff, Canonical]
        omega

end Binary64
end ModelEquation
