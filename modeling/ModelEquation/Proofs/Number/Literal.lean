import Mathlib.Data.List.TakeWhile
import ModelEquation.Proofs.Number.Overflow
import ModelEquation.Proofs.Number.Whole
import ModelEquation.Proofs.Token.Spelling

/-!
# Integers among the literals

A literal of digits alone denotes its exact value as long as 64 bits hold it. Beyond, it
denotes the nearest double, and nothing once that is infinite, so no integer ever stands for
another value than the one that is written.
-/

namespace ModelEquation

open Number (WholeLiteral)

/-- As a double, a whole literal denotes the one nearest to its value. -/
theorem Binary64.ofText?_wholeLiteral (literal : WholeLiteral) :
    Binary64.ofText? literal.text = some (.ofRatio literal.negative literal.magnitude 1) := by
  have digits : literal.digits.takeWhile Char.isDigit = literal.digits :=
    List.takeWhile_eq_self_iff.mpr literal.all_isDigit
  have ended : literal.digits.dropWhile Char.isDigit = [] :=
    List.dropWhile_eq_nil_iff.mpr literal.all_isDigit
  have present : literal.digits.isEmpty = false := by simpa using literal.nonempty
  have decimal : Decimal.ofText? literal.digits = some ⟨literal.magnitude, 0⟩ := by
    simp [Decimal.ofText?, digits, ended, present, Decimal.exponentOf?,
      Number.ofDigits_eq_natOfDigits, WholeLiteral.magnitude]
  rw [ofText?, literal.splitSign_text]
  simp [decimal, Decimal.toBinary64]

namespace Number

/-- The double of a value that is not zero carries the sign that is written. -/
theorem ofRatio_magnitude
    {literal : WholeLiteral}
    (nonzero : literal.value ≠ 0) :
    Binary64.ofRatio literal.negative literal.magnitude 1 = Binary64.ofInt literal.value := by
  cases known : literal.negative with
  | true =>
      have exact : literal.value = -literal.magnitude := by
        rw [WholeLiteral.value, known, signed_true]
      have below : literal.value < 0 := by omega
      have size : literal.value.natAbs = literal.magnitude := by omega
      rw [Binary64.ofInt, decide_eq_true below, size]
  | false =>
      have exact : literal.value = literal.magnitude := by
        rw [WholeLiteral.value, known, signed_false]
      have above : ¬ literal.value < 0 := by omega
      have size : literal.value.natAbs = literal.magnitude := by omega
      rw [Binary64.ofInt, decide_eq_false above, size]

/-- A value that 64 bits do not hold is rounded to a double, which is finite below the
midpoint beyond the largest one. -/
theorem ofText?_of_checked_eq_none
    {literal : WholeLiteral}
    (exceeds : checked literal.value = none) :
    ofText? literal.text =
      if literal.value.natAbs < Binary64.overflow then some (.real (.ofInt literal.value))
      else none := by
  have beyond := checked_eq_none_iff.mp exceeds
  have nonzero : literal.value ≠ 0 := by omega
  have finite : (Binary64.ofInt literal.value).isFinite = true ↔
      literal.value.natAbs < Binary64.overflow := Binary64.isFinite_ofRatio_one_iff
  rw [ofText?, integer?_text, exceeds, Binary64.ofText?_wholeLiteral, ofRatio_magnitude nonzero,
    Option.filter_some]
  simp only [finite]
  split <;> rfl

/-- The text of a whole number without a sign is one token. -/
theorem tokenize_integer_text
    {value : Int64}
    (nonnegative : 0 ≤ value.toInt) :
    ∃ token : Token, Token.tokenize (Number.integer value).text = .ok [token] ∧
      token.kind = .number ∧ token.text.toList = (Number.integer value).text := by
  have literal : (integer value).isLiteral = true := decide_eq_true nonnegative
  obtain ⟨_, ⟨token, rfl, kind, text⟩, read⟩ :=
    (Token.spells_number (measure_text literal)).tokenize Token.breaks_nil
  exact ⟨token, read, kind, by rw [text, String.toList_ofList]⟩

/-- A literal of digits alone denotes the integer of its exact value if 64 bits hold it. If
they do not, it denotes the nearest double, and nothing when that is infinite. A literal with
a point or an exponent denotes no integer. The text of an integer without a sign is one
numeral, which denotes it. -/
theorem ofText?_exact :
    (∀ literal : WholeLiteral,
      (-2 ^ 63 ≤ literal.value ∧ literal.value ≤ 2 ^ 63 - 1 →
        ∃ value : Int64, value.toInt = literal.value ∧
          ofText? literal.text = some (.integer value)) ∧
      (literal.value < -2 ^ 63 ∨ 2 ^ 63 - 1 < literal.value →
        ofText? literal.text =
          if literal.value.natAbs < Binary64.overflow then some (.real (.ofInt literal.value))
          else none)) ∧
    (∀ text : List Char, '.' ∈ text ∨ 'e' ∈ text ∨ 'E' ∈ text →
      ∀ value, ofText? text ≠ some (.integer value)) ∧
    ∀ value : Int64, 0 ≤ value.toInt →
      ∃ token : Token, Token.tokenize (Number.integer value).text = .ok [token] ∧
        token.kind = .number ∧ token.text.toList = (Number.integer value).text ∧
        ofText? token.text.toList = some (.integer value) := by
  refine ⟨fun literal => ⟨fun within => ?_, fun beyond => ?_⟩, fun text marked value => ?_,
    fun value nonnegative => ?_⟩
  · obtain ⟨value, found⟩ : ∃ value, checked literal.value = some value :=
      ⟨_, if_pos (fitsInteger_iff.mpr within)⟩
    exact ⟨value, checked_eq_some_iff.mp found, by rw [ofText?, integer?_text, found]⟩
  · exact ofText?_of_checked_eq_none (checked_eq_none_iff.mpr beyond)
  · rw [ofText?, integer?_of_mark marked]
    simp
  · obtain ⟨token, read, kind, text⟩ := tokenize_integer_text nonnegative
    exact ⟨token, read, kind, text, by rw [text, ofText?_text_integer]⟩

/-- Both ends of the range, one of them behind zeros, the values next to them outside it, a
power of ten with no finite double, an exponent, and the text of the greatest integer. -/
theorem ofText?_exact_at_bounds :
    let least : WholeLiteral :=
      ⟨some .minus, "009223372036854775808".toList, by decide, List.all_eq_true.mp (by decide)⟩
    let greatest : WholeLiteral :=
      ⟨some .plus, "9223372036854775807".toList, by decide, List.all_eq_true.mp (by decide)⟩
    let below : WholeLiteral :=
      ⟨some .minus, "9223372036854775809".toList, by decide, List.all_eq_true.mp (by decide)⟩
    let above : WholeLiteral :=
      ⟨none, "009223372036854775808".toList, by decide, List.all_eq_true.mp (by decide)⟩
    (∃ value : Int64, value.toInt = -9223372036854775808 ∧
      ofText? least.text = some (.integer value)) ∧
    (∃ value : Int64, value.toInt = 9223372036854775807 ∧
      ofText? greatest.text = some (.integer value)) ∧
    ofText? below.text = some (.real (.ofInt (-9223372036854775809))) ∧
    ofText? above.text = some (.real (.ofInt 9223372036854775808)) ∧
    ofText? (WholeLiteral.ofInt (10 ^ 309)).text = none ∧
    ofText? "1e3".toList ≠ some (.integer 1000) ∧
    ∃ token : Token,
      Token.tokenize (integer 9223372036854775807).text = .ok [token] ∧ token.kind = .number := by
  intro least greatest below above
  obtain ⟨literals, marked, texts⟩ := ofText?_exact
  have leastValue : least.value = -9223372036854775808 := by decide
  have greatestValue : greatest.value = 9223372036854775807 := by decide
  have belowValue : below.value = -9223372036854775809 := by decide
  have aboveValue : above.value = 9223372036854775808 := by decide
  refine ⟨leastValue ▸ (literals least).1 ?_, greatestValue ▸ (literals greatest).1 ?_, ?_, ?_,
    ?_, marked _ (by decide) _, ?_⟩
  · rw [leastValue]
    decide
  · rw [greatestValue]
    decide
  · rw [(literals below).2 (by rw [belowValue]; decide), belowValue, if_pos (by decide +kernel)]
  · rw [(literals above).2 (by rw [aboveValue]; decide), aboveValue, if_pos (by decide +kernel)]
  · rw [(literals (.ofInt (10 ^ 309))).2 (by rw [WholeLiteral.value_ofInt]; decide +kernel),
      WholeLiteral.value_ofInt, if_neg (by decide +kernel)]
  · obtain ⟨token, read, kind, _⟩ := texts 9223372036854775807 (by decide)
    exact ⟨token, read, kind⟩

end Number
end ModelEquation
