import Mathlib.Data.List.Induction
import Mathlib.Data.Nat.Digits.Defs
import ModelEquation.Number
import ModelEquation.Operator

/-!
# Whole literals

A literal that is an optional sign and digits has an exact value in the decimal system, and
it denotes the integer of that value where 64 bits are enough. It is read digit by digit with
a check at every step: once the value has left the range it never comes back, so the steps
fail exactly where the whole does.
-/

namespace ModelEquation
namespace Number

/-- A literal that is an optional sign and at least one digit. -/
structure WholeLiteral where
  sign : Option Sign
  digits : List Char
  nonempty : digits ≠ []
  all_isDigit : ∀ digit ∈ digits, digit.isDigit = true

namespace WholeLiteral

variable (literal : WholeLiteral)

/-- The literal as it is written. -/
def text : List Char :=
  literal.sign.elim [] (fun sign => sign.symbol.toList) ++ literal.digits

/-- Whether the literal is written with a minus. -/
def negative : Bool :=
  literal.sign = some .minus

/-- The value of the digits in the decimal system, the last one being the units. -/
def magnitude : Nat :=
  Nat.ofDigits 10 (literal.digits.reverse.map fun digit => digit.toNat - '0'.toNat)

/-- The exact value of the literal. -/
def value : Int :=
  signed literal.negative literal.magnitude

end WholeLiteral

/-! ## The exact value -/

/-- A last digit counts as the units of what is read before it. -/
theorem ofDigits_concat (front : List Char) (digit : Char) :
    Decimal.ofDigits (front ++ [digit]) =
      10 * Decimal.ofDigits front + (digit.toNat - '0'.toNat) := by
  rw [Decimal.ofDigits, Nat.ofDigitChars_append, Nat.ofDigitChars_cons, Nat.ofDigitChars_nil]
  rfl

/-- Reading digits from the left gives their value in the decimal system. -/
theorem ofDigits_eq_natOfDigits (digits : List Char) :
    Decimal.ofDigits digits =
      Nat.ofDigits 10 (digits.reverse.map fun digit => digit.toNat - '0'.toNat) := by
  induction digits using List.reverseRecOn with
  | nil => rfl
  | append_singleton front digit hypothesis =>
      rw [ofDigits_concat, hypothesis, List.reverse_append, List.reverse_singleton,
        List.singleton_append, List.map_cons, Nat.ofDigits_cons, Nat.add_comm]

/-- A digit is no sign. -/
theorem splitSign_of_isDigit
    {first : Char}
    (digit : first.isDigit = true)
    (others : List Char) :
    Decimal.splitSign (first :: others) = (false, first :: others) := by
  unfold Decimal.splitSign
  split
  · next same => cases same; contradiction
  · next same => cases same; contradiction
  · rfl

namespace WholeLiteral

variable (literal : WholeLiteral)

/-- A literal is split into its sign and its digits. -/
theorem splitSign_text :
    Decimal.splitSign literal.text = (literal.negative, literal.digits) := by
  obtain ⟨sign, digits, nonempty, all⟩ := literal
  cases sign with
  | none =>
      obtain ⟨first, others, rfl⟩ := List.exists_cons_of_ne_nil nonempty
      exact splitSign_of_isDigit (all first (List.mem_cons_self ..)) others
  | some sign => cases sign <;> rfl

/-- A literal has no other characters than a sign and digits. -/
theorem sign_or_isDigit_of_mem_text
    {character : Char}
    (member : character ∈ literal.text) :
    character = '+' ∨ character = '-' ∨ character.isDigit = true := by
  obtain ⟨sign, digits, nonempty, all⟩ := literal
  obtain signed | digit := List.mem_append.mp member
  · match sign, signed with
    | some .plus, signed => exact .inl (List.mem_singleton.mp signed)
    | some .minus, signed => exact .inr (.inl (List.mem_singleton.mp signed))
  · exact .inr (.inr (all character digit))

end WholeLiteral

/-! ## Digit by digit -/

/-- The range of 64 bits with a sign. -/
theorem fitsInteger_iff {value : Int} :
    fitsInteger value = true ↔ -2 ^ 63 ≤ value ∧ value ≤ 2 ^ 63 - 1 := by
  simp only [fitsInteger, Bool.and_eq_true, decide_eq_true_eq, Int64.toInt_minValue,
    Int64.toInt_maxValue]

theorem toInt_ofInt_of_fitsInteger
    {value : Int}
    (fits : fitsInteger value = true) :
    (Int64.ofInt value).toInt = value := by
  rw [fitsInteger_iff] at fits
  exact Int64.toInt_ofInt_of_le fits.1 (by omega)

/-- A value is checked to be the integer that has it. -/
theorem checked_eq_some_iff {value : Int} {integer : Int64} :
    checked value = some integer ↔ integer.toInt = value := by
  rw [checked, Option.ite_none_right_eq_some]
  constructor
  · rintro ⟨fits, same⟩
    rw [← Option.some.inj same, toInt_ofInt_of_fitsInteger fits]
  · rintro rfl
    exact ⟨fitsInteger_toInt integer, by rw [Int64.ofInt_toInt]⟩

/-- No integer has a value that is out of range. -/
theorem checked_eq_none_iff {value : Int} :
    checked value = none ↔ value < -2 ^ 63 ∨ 2 ^ 63 - 1 < value := by
  rw [checked, ite_eq_right_iff, fitsInteger_iff]
  simp only [reduceCtorEq, imp_false]
  omega

theorem signed_add (negative : Bool) (first second : Nat) :
    signed negative (first + second) = signed negative first + signed negative second := by
  cases negative <;> simp only [signed_true, signed_false] <;> omega

theorem signed_ten_mul (negative : Bool) (magnitude : Nat) :
    signed negative (10 * magnitude) = 10 * signed negative magnitude := by
  cases negative <;> simp only [signed_true, signed_false] <;> omega

/-- A magnitude that is out of range never comes back when it grows. -/
theorem checked_signed_eq_none_of_le
    {negative : Bool}
    {less more : Nat}
    (exceeds : checked (signed negative less) = none)
    (le : less ≤ more) :
    checked (signed negative more) = none := by
  rw [checked_eq_none_iff] at exceeds ⊢
  cases negative <;> simp only [signed_true, signed_false] at exceeds ⊢ <;> omega

/-- A digit is appended as to the exact value. -/
theorem bind_appendDigit? (negative : Bool) (front : Nat) (digit : Char) :
    ((checked (signed negative front)).bind fun value => appendDigit? negative value digit) =
      checked (signed negative (10 * front + (digit.toNat - '0'.toNat))) := by
  cases found : checked (signed negative front) with
  | none => exact (checked_signed_eq_none_of_le found (by omega)).symm
  | some value =>
      rw [checked_eq_some_iff] at found
      rw [Option.bind_some, appendDigit?, found, ← signed_ten_mul]
      cases shift : checked (signed negative (10 * front)) with
      | none => exact (checked_signed_eq_none_of_le shift (by omega)).symm
      | some shifted =>
          rw [checked_eq_some_iff] at shift
          rw [Option.bind_some, shift, signed_add]

/-- All digits together are read as their exact value is checked. -/
theorem foldlM_appendDigit? (negative : Bool) (digits : List Char) :
    digits.foldlM (appendDigit? negative) 0 =
      checked (signed negative (Decimal.ofDigits digits)) := by
  induction digits using List.reverseRecOn with
  | nil => cases negative <;> rfl
  | append_singleton front digit hypothesis =>
      rw [List.foldlM_append, hypothesis, ofDigits_concat, ← bind_appendDigit?]
      simp

/-- A literal of digits alone is read as its exact value is checked. -/
theorem digitwise?_text (literal : WholeLiteral) :
    digitwise? literal.text = checked literal.value := by
  have present : literal.digits.isEmpty = false := by simpa using literal.nonempty
  have digits : literal.digits.all Char.isDigit = true :=
    List.all_eq_true.mpr literal.all_isDigit
  rw [digitwise?, literal.splitSign_text]
  simp only [present, digits, Bool.not_false, Bool.and_self, if_true]
  rw [foldlM_appendDigit?, ofDigits_eq_natOfDigits]
  rfl

/-- It has neither point nor exponent, so it denotes the integer that it is read as. -/
theorem integer?_text (literal : WholeLiteral) :
    integer? literal.text = checked literal.value := by
  have plain : (literal.text.any fun character =>
      character == '.' || character == 'e' || character == 'E') = false := by
    refine List.any_eq_false.mpr fun character member marked => ?_
    simp only [Bool.or_eq_true, beq_iff_eq] at marked
    obtain (rfl | rfl) | rfl := marked <;>
      exact absurd (literal.sign_or_isDigit_of_mem_text member) (by decide)
  rw [integer?, if_neg (by simp [plain]), digitwise?_text]

/-- A literal with a point or an exponent denotes no integer. -/
theorem integer?_of_mark
    {text : List Char}
    (marked : '.' ∈ text ∨ 'e' ∈ text ∨ 'E' ∈ text) :
    integer? text = none := by
  rw [integer?, if_pos]
  simp only [List.any_eq_true, Bool.or_eq_true, beq_iff_eq]
  obtain point | small | large := marked
  · exact ⟨_, point, .inl (.inl rfl)⟩
  · exact ⟨_, small, .inl (.inr rfl)⟩
  · exact ⟨_, large, .inr rfl⟩

/-! ## The text of a whole number -/

namespace WholeLiteral

/-- The literal that a whole number is written as. -/
def ofInt (value : Int) : WholeLiteral where
  sign := if value < 0 then some .minus else none
  digits := Nat.toDigits 10 value.natAbs
  nonempty := Nat.toDigits_ne_nil
  all_isDigit _ member := Nat.isDigit_of_mem_toDigits (by decide) (by decide) member

@[simp] theorem text_ofInt (value : Int) : (ofInt value).text = wholeText value := by
  unfold text wholeText ofInt
  split <;> rfl

/-- The literal of a whole number has its value. -/
@[simp] theorem value_ofInt (value : Int) : (ofInt value).value = value := by
  have magnitude : (ofInt value).magnitude = value.natAbs := by
    rw [WholeLiteral.magnitude, ← ofDigits_eq_natOfDigits]
    exact Nat.ofDigitChars_ten_toDigits
  have negative : (ofInt value).negative = decide (value < 0) := by
    by_cases below : value < 0 <;> simp [WholeLiteral.negative, ofInt, below]
  rw [WholeLiteral.value, magnitude, negative]
  by_cases below : value < 0
  · rw [decide_eq_true below, signed_true]
    omega
  · rw [decide_eq_false below, signed_false]
    omega

end WholeLiteral

/-- Every integer is read back from its text. -/
theorem ofText?_text_integer (value : Int64) :
    ofText? (Number.integer value).text = some (.integer value) := by
  rw [text, ← WholeLiteral.text_ofInt, ofText?, integer?_text, WholeLiteral.value_ofInt,
    checked_eq_some_iff.mpr rfl]

end Number
end ModelEquation
