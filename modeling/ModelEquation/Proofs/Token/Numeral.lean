import ModelEquation.Number
import ModelEquation.Proofs.Token.Characters

/-!
# Numerals

A numeral is measured part by part: digits, a fraction and an exponent. What stands
behind it is not taken in where no part of a numeral follows. The text of every unsigned
number is one numeral from its first character to its last.
-/

namespace ModelEquation
namespace Token
namespace Pattern

/-! ## What follows a numeral -/

theorem digitCount_le (text : List Char) : digitCount text ≤ text.length :=
  (List.takeWhile_prefix Char.isDigit).length_le

theorem fractionLength_le (text : List Char) : fractionLength text ≤ text.length := by
  unfold fractionLength
  split
  · next rest =>
      have digits := digitCount_le rest
      simp only [List.length_cons]
      omega
  · exact Nat.zero_le _

theorem signLength_le (text : List Char) : signLength text ≤ text.length := by
  unfold signLength
  split <;> simp

theorem exponentLength_le (text : List Char) : exponentLength text ≤ text.length := by
  cases text with
  | nil => exact Nat.le_refl 0
  | cons mark rest =>
      have sign := signLength_le rest
      have digits := digitCount_le (rest.drop (signLength rest))
      rw [List.length_drop] at digits
      simp only [exponentLength, List.length_cons]
      split <;> omega

section Numerals

variable {rest : List Char} (stops : ∀ next ∈ rest.head?, isNumeralPart next = false)
include stops

theorem digitCount_append (text : List Char) : digitCount (text ++ rest) = digitCount text := by
  have noDigit : ∀ next ∈ rest.head?, next.isDigit = false := by
    intro next ahead
    exact (Bool.or_eq_false_iff.mp (stops next ahead)).1
  rw [digitCount, takeWhile_append_of_stops noDigit, digitCount]

theorem fractionLength_append (text : List Char) :
    fractionLength (text ++ rest) = fractionLength text := by
  have none_ahead : fractionLength rest = 0 := by
    cases rest with
    | nil => rfl
    | cons next others =>
        have other : next ≠ '.' := by
          rintro rfl
          exact absurd (stops '.' rfl) (by decide)
        simp [fractionLength, other]
  cases text with
  | nil => exact none_ahead
  | cons character others =>
      by_cases point : character = '.'
      · subst point
        simp [fractionLength, digitCount_append stops]
      · simp [fractionLength, point]

theorem signLength_append (text : List Char) : signLength (text ++ rest) = signLength text := by
  cases text with
  | nil =>
      cases rest with
      | nil => rfl
      | cons next others =>
          have other : next ≠ '+' ∧ next ≠ '-' := by
            constructor <;> rintro rfl <;> exact absurd (stops _ rfl) (by decide)
          simp [signLength, other]
  | cons character others =>
      simp only [List.cons_append]
      unfold signLength
      split <;> simp_all

theorem exponentLength_append (text : List Char) :
    exponentLength (text ++ rest) = exponentLength text := by
  cases text with
  | nil =>
      cases rest with
      | nil => rfl
      | cons next others =>
          have other : next ≠ 'e' ∧ next ≠ 'E' := by
            constructor <;> rintro rfl <;> exact absurd (stops _ rfl) (by decide)
          simp [exponentLength, other]
  | cons mark others =>
      simp only [List.cons_append, exponentLength, signLength_append stops]
      rw [List.drop_append_of_le_length (signLength_le others), digitCount_append stops]

/-- Before a character that cannot stand in a numeral a numeral is measured as it is on its
own. -/
theorem measure_number_append (text : List Char) :
    number.measure (text ++ rest) = number.measure text := by
  have digits := digitCount_le text
  have fraction := fractionLength_le (text.drop (digitCount text))
  rw [List.length_drop] at fraction
  simp only [number, digitCount_append stops]
  rw [List.drop_append_of_le_length digits, fractionLength_append stops,
    List.drop_append_of_le_length (by omega), exponentLength_append stops]

end Numerals

/-! ## The parts of a numeral -/

/-- The text is nothing, or a point and digits. -/
def IsFraction (text : List Char) : Prop :=
  text = [] ∨ ∃ digits, text = '.' :: digits ∧ ∀ digit ∈ digits, digit.isDigit = true

/-- The text is nothing, or a mark, an optional minus and at least one digit. -/
def IsExponent (text : List Char) : Prop :=
  text = [] ∨ ∃ sign digits, text = 'e' :: (sign ++ digits) ∧ (sign = [] ∨ sign = ['-']) ∧
    digits ≠ [] ∧ ∀ digit ∈ digits, digit.isDigit = true

/-- Digits are counted up to the first character that is none. -/
theorem digitCount_of_digits
    {digits rest : List Char}
    (all : ∀ digit ∈ digits, digit.isDigit = true)
    (stops : ∀ next ∈ rest.head?, next.isDigit = false) :
    digitCount (digits ++ rest) = digits.length := by
  have none_ahead : rest.takeWhile Char.isDigit = [] := by
    cases rest with
    | nil => rfl
    | cons next others => simp [stops next rfl]
  rw [digitCount, List.takeWhile_append_of_pos all, none_ahead, List.append_nil]

/-- An exponent is measured as a whole. -/
theorem exponentLength_of_isExponent
    {text : List Char}
    (exponent : IsExponent text) :
    exponentLength text = text.length := by
  rcases exponent with rfl | ⟨sign, digits, rfl, signed, nonempty, all⟩
  · rfl
  · have present : digits.length ≠ 0 := by simpa using nonempty
    have length : signLength (sign ++ digits) = sign.length := by
      rcases signed with rfl | rfl
      · obtain ⟨first, others, rfl⟩ := List.exists_cons_of_ne_nil nonempty
        have digit := all first (List.mem_cons_self ..)
        have other : first ≠ '+' ∧ first ≠ '-' := by
          constructor <;> rintro rfl <;> exact absurd digit (by decide)
        simp [signLength, other]
      · rfl
    have count : digitCount digits = digits.length := by
      have whole : digitCount (digits ++ []) = digits.length := digitCount_of_digits all (by simp)
      rwa [List.append_nil] at whole
    simp [exponentLength, length, count, present]
    omega

theorem fractionLength_of_isFraction
    {fraction exponent : List Char}
    (fractional : IsFraction fraction)
    (exponential : IsExponent exponent) :
    fractionLength (fraction ++ exponent) = fraction.length := by
  have noDigit : ∀ next ∈ exponent.head?, next.isDigit = false := by
    rcases exponential with rfl | ⟨sign, digits, rfl, _⟩ <;> simp
  rcases fractional with rfl | ⟨digits, rfl, all⟩
  · rcases exponential with rfl | ⟨sign, digits, rfl, _⟩ <;> rfl
  · rw [List.cons_append, fractionLength, digitCount_of_digits all noDigit, List.length_cons,
      Nat.add_comm]

/-- A text that consists of the parts of a numeral is measured as a whole. -/
theorem measure_number_of_parts
    {digits fraction exponent : List Char}
    (nonempty : digits ≠ [])
    (all : ∀ digit ∈ digits, digit.isDigit = true)
    (fractional : IsFraction fraction)
    (exponential : IsExponent exponent) :
    number.measure (digits ++ (fraction ++ exponent)) =
      some (digits ++ (fraction ++ exponent)).length := by
  have noDigit : ∀ next ∈ (fraction ++ exponent).head?, next.isDigit = false := by
    rcases fractional with rfl | ⟨_, rfl, _⟩
    · rcases exponential with rfl | ⟨sign, digits, rfl, _⟩ <;> simp
    · simp
  have present : digits.length ≠ 0 := by simpa using nonempty
  simp only [number, digitCount_of_digits all noDigit, List.drop_left,
    fractionLength_of_isFraction fractional exponential, ← List.drop_drop,
    exponentLength_of_isExponent exponential, if_neg present, List.length_append, Nat.add_assoc]

end Pattern
end Token

namespace Binary64
namespace Layout

open Token.Pattern (IsFraction IsExponent)

/-- The text has the parts of a numeral. -/
def IsNumeral (text : List Char) : Prop :=
  ∃ digits fraction exponent, text = digits ++ (fraction ++ exponent) ∧ digits ≠ [] ∧
    (∀ digit ∈ digits, digit.isDigit = true) ∧ IsFraction fraction ∧ IsExponent exponent

theorem isDigit_of_mem_zeros
    (count : Nat) :
    ∀ digit ∈ List.replicate count '0', digit.isDigit = true := by
  intro digit member
  rw [List.eq_of_mem_replicate member]
  decide

/-- The positional form of digits is a numeral. -/
theorem positional_isNumeral
    {digits : List Char}
    (nonempty : digits ≠ [])
    (all : ∀ digit ∈ digits, digit.isDigit = true)
    (point : Int) :
    IsNumeral (positional digits point) := by
  unfold positional
  split
  · refine ⟨['0'], '.' :: (List.replicate (-point).toNat '0' ++ digits), [], by simp, by simp,
      isDigit_of_mem_zeros 1, .inr ⟨_, rfl, ?_⟩, .inl rfl⟩
    exact List.forall_mem_append.mpr ⟨isDigit_of_mem_zeros _, all⟩
  · split
    · refine ⟨digits ++ List.replicate (point.toNat - digits.length) '0', ['.', '0'], [], by simp,
        by simp [nonempty], ?_, .inr ⟨['0'], rfl, isDigit_of_mem_zeros 1⟩, .inl rfl⟩
      exact List.forall_mem_append.mpr ⟨all, isDigit_of_mem_zeros _⟩
    · next positive short =>
        have inside : point.toNat ≠ 0 := by omega
        refine ⟨digits.take point.toNat, '.' :: digits.drop point.toNat, [], by simp,
          by simp [nonempty, inside], fun digit member => all digit (List.mem_of_mem_take member),
          .inr ⟨_, rfl, fun digit member => all digit (List.mem_of_mem_drop member)⟩, .inl rfl⟩

/-- The scientific form of digits is a numeral. -/
theorem scientific_isNumeral
    {digits : List Char}
    (nonempty : digits ≠ [])
    (all : ∀ digit ∈ digits, digit.isDigit = true)
    (exponent : Int) :
    IsNumeral (scientific [] digits exponent) := by
  have exponential : Token.Pattern.IsExponent
      ('e' :: ((if exponent < 0 then ['-'] else []) ++ Nat.toDigits 10 exponent.natAbs)) := by
    refine .inr ⟨_, _, rfl, ?_, Nat.toDigits_ne_nil, fun digit member => ?_⟩
    · split <;> simp
    · exact Nat.isDigit_of_mem_toDigits (by decide) (by decide) member
  match digits with
  | [] => contradiction
  | [digit] => exact ⟨[digit], [], _, rfl, by simp, all, .inl rfl, exponential⟩
  | first :: second :: others =>
      refine ⟨[first], '.' :: second :: others, _, by simp [scientific], by simp, ?_,
        .inr ⟨_, rfl, ?_⟩, exponential⟩
      · simpa using all first (List.mem_cons_self ..)
      · exact fun digit member => all digit (List.mem_cons_of_mem _ member)

/-- The digits of every decimal are set out as a numeral. -/
theorem decimal_isNumeral
    {layout : Layout}
    (bare : layout.positiveMark = [])
    (number : Decimal) :
    IsNumeral (layout.decimal number) := by
  have all : ∀ digit ∈ Nat.toDigits 10 number.coefficient, digit.isDigit = true :=
    fun digit member => Nat.isDigit_of_mem_toDigits (by decide) (by decide) member
  unfold decimal
  split
  · exact ⟨['0'], ['.', '0'], [], rfl, by simp, isDigit_of_mem_zeros 1,
      .inr ⟨['0'], rfl, isDigit_of_mem_zeros 1⟩, .inl rfl⟩
  · dsimp only
    split
    · exact positional_isNumeral Nat.toDigits_ne_nil all _
    · rw [bare]
      exact scientific_isNumeral Nat.toDigits_ne_nil all _

end Layout
end Binary64

namespace Number

/-- Whether a number is written without a sign. -/
def isLiteral : Number → Bool
  | .integer value => 0 ≤ value.toInt
  | .real value => value.isFinite && !value.isNegative

/-- An integer that is not negative is written as its digits. -/
theorem text_of_nonnegative
    {value : Int64}
    (nonnegative : 0 ≤ value.toInt) :
    (Number.integer value).text = Nat.toDigits 10 value.toInt.natAbs := by
  rw [text, wholeText, if_neg (by omega)]

/-- The text of a number without a sign is one numeral. -/
theorem measure_text
    {number : Number}
    (literal : number.isLiteral = true) :
    Token.Pattern.number.measure number.text = some number.text.length := by
  have isNumeral : Binary64.Layout.IsNumeral number.text := by
    cases number with
    | integer value =>
        have nonnegative : 0 ≤ value.toInt := by simpa [isLiteral] using literal
        rw [text_of_nonnegative nonnegative]
        refine ⟨_, [], [], (List.append_nil _).symm, Nat.toDigits_ne_nil, fun digit member => ?_,
          .inl rfl, .inl rfl⟩
        exact Nat.isDigit_of_mem_toDigits (by decide) (by decide) member
    | real value =>
        cases value with
        | finite negative significand exponent canonical =>
            have unsigned : negative = false := by
              simpa [isLiteral, Binary64.isFinite] using literal
            subst unsigned
            exact Binary64.Layout.decimal_isNumeral rfl _
        | infinite _ => simp [isLiteral, Binary64.isFinite] at literal
        | notANumber => simp [isLiteral, Binary64.isFinite] at literal
  obtain ⟨digits, fraction, exponent, split, nonempty, all, fractional, exponential⟩ := isNumeral
  rw [split]
  exact Token.Pattern.measure_number_of_parts nonempty all fractional exponential

end Number
end ModelEquation
