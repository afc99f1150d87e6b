import ModelEquation.Proofs.Token.Closing
import ModelEquation.Proofs.Token.Regex

/-!
# Patterns that measure regular expressions

Each pattern of the rules measures the longest match of the regular expression that is written
for it: what it measures is a match, and no match is longer. For a numeral this is so since no
part of it can be given up in favour of a longer one behind it: a digit cannot start a
fraction or an exponent, and a point or a mark cannot go on with digits.
-/

namespace ModelEquation
namespace Token
namespace Pattern

/-- The pattern measures the longest match of the expression, if there is one. -/
structure Measures (pattern : Pattern) (regex : Regex) : Prop where
  found : ∀ {text : List Char} {length : Nat},
    pattern.measure text = some length → regex.MatchesAt text length
  longest : ∀ {part after : List Char}, regex.Matches [] part after →
    ∃ length, pattern.measure (part ++ after) = some length ∧ part.length ≤ length

/-- What a pattern within a text measures is a match if the text that it takes is one. -/
theorem matchesAt_of_take
    {regex : Regex}
    {text : List Char}
    {length : Nat}
    (bounded : length ≤ text.length)
    (matched : regex.Matches [] (text.take length) (text.drop length)) :
    regex.MatchesAt text length :=
  ⟨_, _, (List.take_append_drop ..).symm, List.length_take_of_le bounded, matched⟩

/-- A run of characters with a property is no shorter than a part of it. -/
theorem length_le_takeWhile
    {property : Char → Bool}
    {part : List Char}
    (known : ∀ character ∈ part, property character = true)
    (after : List Char) :
    part.length ≤ ((part ++ after).takeWhile property).length := by
  rw [List.takeWhile_append_of_pos known, List.length_append]
  exact Nat.le_add_right ..

theorem single_measures (members : List Char) :
    (single members).Measures (.among members) where
  found := by
    intro text length measured
    cases text with
    | nil => contradiction
    | cons first others =>
        simp only [single] at measured
        split at measured
        · next known =>
            cases measured
            exact ⟨[first], others, rfl, rfl,
              Regex.matches_among_iff.mpr ⟨first, rfl, List.contains_iff_mem.mp known⟩⟩
        · contradiction
  longest := by
    intro part after matched
    obtain ⟨character, rfl, member⟩ := Regex.matches_among_iff.mp matched
    refine ⟨1, ?_, Nat.le_refl _⟩
    simp [single, member]

/-- A comparison is matched by its symbols. One that stands alone may be the first character of
a longer one. -/
theorem comparison_measures : comparison.Measures .comparison where
  found := by
    intro text length measured
    obtain ⟨first, rest, rfl, rfl, known⟩ | ⟨first, rest, rfl, rfl, known, _⟩ :=
      split_of_measure_comparison measured
    · refine ⟨[first, '='], rest, rfl, rfl, Regex.matches_anyOf_iff.mpr ?_⟩
      simp only [List.mem_cons, List.not_mem_nil, or_false] at known
      rcases known with rfl | rfl | rfl | rfl <;> simp [Regex.matches_literal_iff]
    · refine ⟨[first], rest, rfl, rfl, Regex.matches_anyOf_iff.mpr ?_⟩
      simp only [List.mem_cons, List.not_mem_nil, or_false] at known
      rcases known with rfl | rfl <;> simp [Regex.matches_literal_iff]
  longest := by
    intro part after matched
    obtain ⟨choice, known, chosen⟩ := Regex.matches_anyOf_iff.mp matched
    simp only [List.mem_cons, List.not_mem_nil, or_false] at known
    rcases known with rfl | rfl | rfl | rfl | rfl | rfl <;>
      obtain rfl := Regex.matches_literal_iff.mp chosen
    · exact ⟨2, rfl, Nat.le_refl _⟩
    · exact ⟨2, rfl, Nat.le_refl _⟩
    · exact ⟨2, rfl, Nat.le_refl _⟩
    · exact ⟨2, rfl, Nat.le_refl _⟩
    · rw [List.singleton_append, measure_comparison_cons]
      split
      · exact ⟨2, rfl, by simp⟩
      · exact ⟨1, rfl, Nat.le_refl _⟩
    · rw [List.singleton_append, measure_comparison_cons]
      split
      · exact ⟨2, rfl, by simp⟩
      · exact ⟨1, rfl, Nat.le_refl _⟩

/-- A word is matched by its letters up to a word boundary. -/
theorem word_measures
    {first : Char}
    {others : List Char}
    (ends : endsWord (first :: others) = true) :
    (word first others).Measures (.word (first :: others)) where
  found := by
    intro text length measured
    obtain ⟨after, rfl, rfl, stops⟩ := split_of_measure_word measured
    refine ⟨first :: others, after, rfl, rfl, Regex.matches_sequence_iff.mpr ?_⟩
    refine ⟨first :: others, [], by simp, Regex.matches_literal_iff.mpr rfl,
      Regex.matches_boundary_iff.mpr ⟨rfl, ?_⟩⟩
    rw [List.nil_append, ends, stops]
    decide
  longest := by
    intro part after matched
    obtain ⟨letters, last, rfl, spelled, bounded⟩ := Regex.matches_sequence_iff.mp matched
    obtain rfl := Regex.matches_literal_iff.mp spelled
    obtain ⟨rfl, differs⟩ := Regex.matches_boundary_iff.mp bounded
    rw [List.nil_append, ends] at differs
    have stops : continuesWord after = false := by
      simpa using differs.symm
    refine ⟨others.length + 1, ?_, by simp⟩
    simp [word, stops]

theorem name_measures : name.Measures .name where
  found := by
    intro text length measured
    cases text with
    | nil => contradiction
    | cons first others =>
        simp only [name] at measured
        split at measured
        · next starts =>
            cases measured
            refine ⟨first :: others.takeWhile isNamePart, others.dropWhile isNamePart, ?_, ?_,
              .sequence (.one starts) (Regex.matches_many_one_iff.mpr ?_)⟩
            · rw [List.cons_append, List.takeWhile_append_dropWhile]
            · rw [List.length_cons, Nat.add_comm]
            · exact List.all_eq_true.mp List.all_takeWhile
        · contradiction
  longest := by
    intro part after matched
    obtain ⟨front, parts, rfl, matchesFirst, matchesParts⟩ :=
      Regex.matches_sequence_iff.mp matched
    obtain ⟨first, rfl, starts⟩ := Regex.matches_one_iff.mp matchesFirst
    have longer := length_le_takeWhile (Regex.matches_many_one_iff.mp matchesParts) after
    refine ⟨1 + ((parts ++ after).takeWhile isNamePart).length, by simp [name, starts], ?_⟩
    rw [List.singleton_append, List.length_cons]
    omega

/-- A quoted text is matched by its quotes and what is between them. -/
theorem quoted_measures : quoted.Measures .quoted where
  found := by
    intro text length measured
    obtain ⟨body, rest, rfl, rfl, free⟩ := split_of_measure_quoted measured
    refine ⟨['"'] ++ (body ++ ['"']), rest, by simp, by simp,
      .sequence (Regex.matches_among_iff.mpr ⟨'"', rfl, by simp⟩)
        (.sequence (Regex.matches_many_one_iff.mpr free)
          (Regex.matches_among_iff.mpr ⟨'"', rfl, by simp⟩))⟩
  longest := by
    intro part after matched
    obtain ⟨opening, inner, rfl, matchesOpening, matchesInner⟩ :=
      Regex.matches_sequence_iff.mp matched
    obtain ⟨body, closing, rfl, matchesBody, matchesClosing⟩ :=
      Regex.matches_sequence_iff.mp matchesInner
    obtain ⟨_, rfl, first⟩ := Regex.matches_among_iff.mp matchesOpening
    obtain ⟨_, rfl, last⟩ := Regex.matches_among_iff.mp matchesClosing
    obtain rfl := List.mem_singleton.mp first
    obtain rfl := List.mem_singleton.mp last
    have measured : quoted.measure ('"' :: (body ++ '"' :: after)) = some (body.length + 2) :=
      measure_quoted (Regex.matches_many_one_iff.mp matchesBody)
    exact ⟨body.length + 2, by simpa using measured, by simp⟩

theorem blanks_measures : blanks.Measures (.oneOrMore (.one Text.isBlank)) where
  found := by
    intro text length measured
    have bounded := blanks_closes.bounded measured
    have positive := blanks.positive measured
    refine matchesAt_of_take bounded
      (Regex.matches_oneOrMore_one_iff.mpr ⟨fun empty => ?_, blanks_within measured⟩)
    have none_taken := List.length_take_of_le bounded
    rw [empty, List.length_nil] at none_taken
    exact absurd positive (none_taken ▸ Nat.lt_irrefl 0)
  longest := by
    intro part after matched
    obtain ⟨nonempty, known⟩ := Regex.matches_oneOrMore_one_iff.mp matched
    have longer := length_le_takeWhile known after
    have positive := List.length_pos_iff.mpr nonempty
    refine ⟨_, ?_, longer⟩
    simp only [blanks]
    rw [if_neg (by omega)]

/-! ## Numerals -/

theorem isDigit_of_mem_take (text : List Char) :
    ∀ character ∈ text.take (digitCount text), character.isDigit = true :=
  forall_mem_take_takeWhile Char.isDigit text

/-- The fraction that is measured is a point or none, and digits or none. -/
theorem exists_take_fractionLength (text : List Char) :
    ∃ point digits, text.take (fractionLength text) = point ++ digits ∧
      (point = [] ∨ point = ['.']) ∧ ∀ digit ∈ digits, digit.isDigit = true := by
  unfold fractionLength
  split
  · next rest =>
      refine ⟨['.'], rest.take (digitCount rest), ?_, .inr rfl, isDigit_of_mem_take rest⟩
      rw [Nat.add_comm, List.take_succ_cons, List.singleton_append]
  · exact ⟨[], [], rfl, .inl rfl, by simp⟩

theorem matches_sign_take
    (text before after : List Char) :
    Regex.Matches (.optional (.among ['+', '-'])) before (text.take (signLength text)) after := by
  rw [Regex.matches_optional_iff, Regex.matches_among_iff]
  unfold signLength
  split
  · exact .inr ⟨'+', rfl, by simp⟩
  · exact .inr ⟨'-', rfl, by simp⟩
  · exact .inl rfl

/-- An exponent is matched where there is one. -/
theorem matches_exponent_take
    (text before after : List Char) :
    Regex.Matches (.optional .exponent) before (text.take (exponentLength text)) after := by
  rw [Regex.matches_optional_iff]
  cases text with
  | nil => exact .inl rfl
  | cons mark rest =>
      simp only [exponentLength]
      split
      · next marked =>
          obtain ⟨known, present⟩ := Bool.and_eq_true_iff.mp marked
          have member : mark ∈ ['e', 'E'] := by simpa using known
          have some_digit : (rest.drop (signLength rest)).take
              (digitCount (rest.drop (signLength rest))) ≠ [] := by
            intro empty
            have width := List.length_take_of_le (digitCount_le (rest.drop (signLength rest)))
            rw [empty, List.length_nil] at width
            simp [← width] at present
          rw [Nat.add_assoc, Nat.add_comm, List.take_succ_cons, List.take_add]
          have isMark (more : List Char) : Regex.Matches (.among ['e', 'E']) before [mark] more :=
            Regex.matches_among_iff.mpr ⟨mark, rfl, member⟩
          exact .inr (.sequence (isMark _) (.sequence (matches_sign_take rest _ _)
            (Regex.matches_oneOrMore_one_iff.mpr ⟨some_digit, isDigit_of_mem_take _⟩)))
      · exact .inl rfl

/-- An exponent is measured to its end, or further. -/
theorem length_le_exponentLength
    {before part after : List Char}
    (matched : Regex.Matches .exponent before part after)
    (rest : List Char) :
    (∃ mark others, part = mark :: others ∧ mark ∈ ['e', 'E']) ∧
      part.length ≤ exponentLength (part ++ rest) := by
  obtain ⟨_, later, rfl, matchesMark, matchesLater⟩ := Regex.matches_sequence_iff.mp matched
  obtain ⟨sign, digits, rfl, matchesSign, matchesDigits⟩ :=
    Regex.matches_sequence_iff.mp matchesLater
  obtain ⟨mark, rfl, known⟩ := Regex.matches_among_iff.mp matchesMark
  obtain ⟨nonempty, all⟩ := Regex.matches_oneOrMore_one_iff.mp matchesDigits
  refine ⟨⟨mark, _, rfl, known⟩, ?_⟩
  have signed : signLength (sign ++ (digits ++ rest)) = sign.length := by
    rcases Regex.matches_optional_iff.mp matchesSign with rfl | isSign
    · obtain ⟨first, others, rfl⟩ := List.exists_cons_of_ne_nil nonempty
      have digit := all first (List.mem_cons_self ..)
      have other : first ≠ '+' ∧ first ≠ '-' := by
        constructor <;> rintro rfl <;> exact absurd digit (by decide)
      simp [signLength, other]
    · obtain ⟨character, rfl, member⟩ := Regex.matches_among_iff.mp isSign
      simp only [List.mem_cons, List.not_mem_nil, or_false] at member
      rcases member with rfl | rfl <;> rfl
  have counted : digits.length ≤ digitCount (digits ++ rest) := length_le_takeWhile all rest
  have positive := List.length_pos_iff.mpr nonempty
  have marked : (mark == 'e' || mark == 'E') = true := by simpa using known
  have present : (digitCount (digits ++ rest) != 0) = true := by
    rw [bne_iff_ne]
    omega
  have text : [mark] ++ (sign ++ digits) ++ rest = mark :: (sign ++ (digits ++ rest)) := by simp
  rw [text, exponentLength]
  simp only [signed, List.drop_left, marked, present, Bool.and_self, if_true,
    List.length_append, List.length_singleton]
  omega

/-- A numeral is as long as its parts, the last of which is what is left for an exponent. -/
theorem measure_number_eq
    (text : List Char)
    {rest : List Char}
    {whole fraction : Nat}
    (present : 0 < whole)
    (counted : digitCount text = whole)
    (fractional : fractionLength (text.drop whole) = fraction)
    (left : text.drop (whole + fraction) = rest) :
    number.measure text = some (whole + fraction + exponentLength rest) := by
  simp only [number, counted, fractional, left]
  rw [if_neg (Nat.ne_of_gt present)]

section Parts

variable {digits point more : List Char} (rest : List Char)
variable (nonempty : digits ≠ [])
variable (all : ∀ digit ∈ digits, digit.isDigit = true)
variable (pointed : point = [] ∨ point = ['.'])
variable (allMore : ∀ digit ∈ more, digit.isDigit = true)
include nonempty all pointed allMore

/-- Digits, a point and digits are measured to their end, or further. -/
theorem exists_measure_number :
    ∃ length, number.measure (digits ++ (point ++ (more ++ rest))) = some length ∧
      digits.length + point.length + more.length ≤ length := by
  have positive := List.length_pos_iff.mpr nonempty
  rcases pointed with rfl | rfl
  · have joined : ∀ digit ∈ digits ++ more, digit.isDigit = true :=
      List.forall_mem_append.mpr ⟨all, allMore⟩
    have counted : (digits ++ more).length ≤ digitCount (digits ++ more ++ rest) :=
      length_le_takeWhile joined rest
    rw [List.length_append] at counted
    simp only [List.nil_append, ← List.append_assoc, number]
    rw [if_neg (by omega)]
    exact ⟨_, rfl, by simp only [List.length_nil]; omega⟩
  · have whole : digitCount (digits ++ '.' :: (more ++ rest)) = digits.length :=
      digitCount_of_digits all (by simp)
    have counted : more.length ≤ digitCount (more ++ rest) := length_le_takeWhile allMore rest
    simp only [List.singleton_append, number, whole, List.drop_left, fractionLength]
    rw [if_neg (by omega)]
    exact ⟨_, rfl, by simp only [List.length_singleton]; omega⟩

/-- Where an exponent may follow, digits, a point and digits are measured to their end. -/
theorem measure_number_of_mark
    {mark : Char}
    (known : mark ∈ ['e', 'E']) :
    number.measure (digits ++ (point ++ (more ++ mark :: rest))) =
      some (digits.length + point.length + more.length + exponentLength (mark :: rest)) := by
  have positive := List.length_pos_iff.mpr nonempty
  have noDigit : mark.isDigit = false := by
    have none_digit : ['e', 'E'].any Char.isDigit = false := by decide
    exact Bool.eq_false_iff.mpr (List.any_eq_false.mp none_digit mark known)
  have stops : ∀ next ∈ (mark :: rest).head?, next.isDigit = false := by
    simpa using noDigit
  rcases pointed with rfl | rfl
  · have joined : ∀ digit ∈ digits ++ more, digit.isDigit = true :=
      List.forall_mem_append.mpr ⟨all, allMore⟩
    have noPoint : fractionLength (mark :: rest) = 0 := by
      simp only [List.mem_cons, List.not_mem_nil, or_false] at known
      rcases known with rfl | rfl <;> rfl
    have text : digits ++ ([] ++ (more ++ mark :: rest)) = digits ++ more ++ mark :: rest := by simp
    have measured := measure_number_eq (digits ++ more ++ mark :: rest)
      (by rw [List.length_append]; omega) (digitCount_of_digits joined stops)
      (by rw [List.drop_left, noPoint]) List.drop_left
    rw [text, measured, List.length_append]
    rfl
  · have fraction : fractionLength ('.' :: (more ++ mark :: rest)) = 1 + more.length := by
      rw [fractionLength, digitCount_of_digits allMore stops]
    have left : (digits ++ '.' :: (more ++ mark :: rest)).drop (digits.length + (1 + more.length)) =
        mark :: rest := by
      rw [← List.drop_drop, List.drop_left, Nat.add_comm, List.drop_succ_cons, List.drop_left]
    have measured := measure_number_eq (digits ++ '.' :: (more ++ mark :: rest)) positive
      (digitCount_of_digits all (by simp)) (by rw [List.drop_left, fraction]) left
    rw [List.singleton_append, measured, List.length_singleton, Nat.add_assoc digits.length 1]

end Parts

/-- A numeral is matched by its digits, fraction and exponent. -/
theorem number_measures : number.Measures .number where
  found := by
    intro text length measured
    have bounded := number_closes.bounded measured
    simp only [number] at measured
    split at measured
    · contradiction
    · next present =>
        cases measured
        refine matchesAt_of_take bounded ?_
        obtain ⟨point, more, fraction, pointed, allMore⟩ :=
          exists_take_fractionLength (text.drop (digitCount text))
        have some_digit : text.take (digitCount text) ≠ [] := by
          intro empty
          have width := List.length_take_of_le (digitCount_le text)
          rw [empty, List.length_nil] at width
          exact present width.symm
        rw [List.take_add, List.take_add, fraction, List.append_assoc, List.append_assoc]
        refine .sequence
          (Regex.matches_oneOrMore_one_iff.mpr ⟨some_digit, isDigit_of_mem_take text⟩)
          (.sequence ?_ (.sequence (Regex.matches_many_one_iff.mpr allMore)
            (matches_exponent_take _ _ _)))
        rw [Regex.matches_optional_iff, Regex.matches_among_iff]
        exact pointed.imp id fun isPoint => ⟨'.', isPoint, by simp⟩
  longest := by
    intro part after matched
    obtain ⟨digits, _, rfl, matchesDigits, matchesLater⟩ := Regex.matches_sequence_iff.mp matched
    obtain ⟨point, _, rfl, matchesPoint, matchesFraction⟩ :=
      Regex.matches_sequence_iff.mp matchesLater
    obtain ⟨more, exponent, rfl, matchesMore, matchesExponent⟩ :=
      Regex.matches_sequence_iff.mp matchesFraction
    obtain ⟨nonempty, all⟩ := Regex.matches_oneOrMore_one_iff.mp matchesDigits
    have allMore := Regex.matches_many_one_iff.mp matchesMore
    have pointed : point = [] ∨ point = ['.'] := by
      refine (Regex.matches_optional_iff.mp matchesPoint).imp id fun isPoint => ?_
      obtain ⟨character, rfl, member⟩ := Regex.matches_among_iff.mp isPoint
      rw [List.mem_singleton.mp member]
    rcases Regex.matches_optional_iff.mp matchesExponent with rfl | isExponent
    · obtain ⟨length, measured, longer⟩ :=
        exists_measure_number after nonempty all pointed allMore
      refine ⟨length, by simpa using measured, ?_⟩
      simp only [List.length_append, List.length_nil]
      omega
    · obtain ⟨⟨mark, others, rfl, known⟩, longer⟩ := length_le_exponentLength isExponent after
      have measured := measure_number_of_mark (others ++ after) nonempty all pointed allMore
        known
      refine ⟨_, by simpa using measured, ?_⟩
      rw [List.cons_append] at longer
      simp only [List.length_append]
      omega

end Pattern
end Token
end ModelEquation
