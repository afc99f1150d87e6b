import ModelEquation.Proofs.Token.Lexeme

/-!
# Characters of lexemes

Each pattern but that of comparisons and that of quoted texts takes characters of one
class only. The classes are those of numerals, of names and of blanks, and the characters
that a pattern names. A comparison is told by its first character and by whether `=` is the
next one, and a quoted text takes whatever stands before the next double quote.
-/

namespace ModelEquation
namespace Token

namespace Pattern

/-- The pattern takes characters with the property only. -/
def Within (property : Char → Bool) (pattern : Pattern) : Prop :=
  ∀ ⦃text : List Char⦄ ⦃length : Nat⦄, pattern.measure text = some length →
    ∀ character ∈ text.take length, property character = true

/-- The front of a text on which a property holds, taken by its length. -/
theorem forall_mem_take_takeWhile
    (property : Char → Bool)
    (text : List Char) :
    ∀ character ∈ text.take (text.takeWhile property).length, property character = true := by
  rw [← List.prefix_iff_eq_take.mp (List.takeWhile_prefix property)]
  exact List.all_eq_true.mp List.all_takeWhile

theorem single_within (members : List Char) :
    (single members).Within members.contains := by
  intro text length measured
  simp only [single] at measured
  split at measured
  · contradiction
  · next first others =>
      split at measured
      · next known =>
          cases measured
          simpa using known
      · contradiction

/-- The lexeme of the rule of a word, and what follows it. -/
theorem split_of_measure_word
    {letter : Char}
    {letters text : List Char}
    {length : Nat}
    (measured : (word letter letters).measure text = some length) :
    ∃ rest, text = letter :: letters ++ rest ∧ length = (letter :: letters).length ∧
      continuesWord rest = false := by
  simp only [word] at measured
  split at measured
  · next condition =>
      cases measured
      obtain ⟨front, stops⟩ := Bool.and_eq_true_iff.mp condition
      obtain ⟨rest, rfl⟩ := List.isPrefixOf_iff_prefix.mp front
      have behind : (letter :: letters ++ rest).drop (letters.length + 1) = rest := by simp
      rw [behind, Bool.not_eq_true'] at stops
      exact ⟨rest, rfl, rfl, stops⟩
  · contradiction

theorem word_within
    (first : Char)
    (others : List Char) :
    (word first others).Within (first :: others).contains := by
  intro text length measured character member
  obtain ⟨rest, rfl, rfl, _⟩ := split_of_measure_word measured
  rw [List.take_left] at member
  exact List.contains_iff_mem.mpr member

/-- A name takes characters of names only. -/
theorem name_within : name.Within isNamePart := by
  intro text length measured
  simp only [name] at measured
  split at measured
  · contradiction
  · next first others =>
      split at measured
      · next starts =>
          cases measured
          rw [Nat.add_comm, List.take_succ_cons, List.forall_mem_cons]
          exact ⟨Rule.isNamePart_of_isNameStart starts, forall_mem_take_takeWhile isNamePart others⟩
      · contradiction

theorem blanks_within : blanks.Within Text.isBlank := by
  intro text length measured
  simp only [blanks] at measured
  split at measured
  · contradiction
  · cases measured
    exact forall_mem_take_takeWhile Text.isBlank text

/-! ## Numerals -/

/-- A character that may stand in a numeral. -/
def isNumeralPart (character : Char) : Bool :=
  character.isDigit || ['.', 'e', 'E', '+', '-'].contains character

theorem isNumeralPart_of_mem_breaks
    {mark : Char}
    (known : mark ∈ breaks) :
    isNumeralPart mark = false := by
  have none_part : breaks.any isNumeralPart = false := by decide
  simpa using List.any_eq_false.mp none_part mark known

theorem isNumeralPart_of_mem_digits (text : List Char) :
    ∀ character ∈ text.take (digitCount text), isNumeralPart character = true := by
  intro character member
  simp [isNumeralPart, forall_mem_take_takeWhile Char.isDigit text character member]

theorem isNumeralPart_of_mem_fraction (text : List Char) :
    ∀ character ∈ text.take (fractionLength text), isNumeralPart character = true := by
  unfold fractionLength
  split
  · next rest =>
      rw [Nat.add_comm, List.take_succ_cons, List.forall_mem_cons]
      exact ⟨by decide, isNumeralPart_of_mem_digits rest⟩
  · simp

theorem isNumeralPart_of_mem_sign (text : List Char) :
    ∀ character ∈ text.take (signLength text), isNumeralPart character = true := by
  unfold signLength
  split <;> simp [isNumeralPart]

theorem isNumeralPart_of_mem_exponent (text : List Char) :
    ∀ character ∈ text.take (exponentLength text), isNumeralPart character = true := by
  cases text with
  | nil => simp
  | cons mark rest =>
      simp only [exponentLength]
      split
      · next marked =>
          have known : mark = 'e' ∨ mark = 'E' := by
            simpa using (Bool.and_eq_true_iff.mp marked).1
          rw [Nat.add_assoc, Nat.add_comm, List.take_succ_cons, List.forall_mem_cons,
            List.take_add, List.forall_mem_append]
          refine ⟨?_, isNumeralPart_of_mem_sign rest, isNumeralPart_of_mem_digits _⟩
          rcases known with rfl | rfl <;> decide
      · simp

/-- A numeral takes characters of numerals only. -/
theorem number_within : number.Within isNumeralPart := by
  intro text length measured
  simp only [number] at measured
  split at measured
  · contradiction
  · cases measured
    rw [List.take_add, List.forall_mem_append, List.take_add, List.forall_mem_append]
    exact ⟨⟨isNumeralPart_of_mem_digits text, isNumeralPart_of_mem_fraction _⟩,
      isNumeralPart_of_mem_exponent _⟩

/-! ## Comparisons -/

/-- A comparison is measured by its first character and by whether `=` is the next one. -/
theorem measure_comparison_cons
    (first : Char)
    (rest : List Char) :
    comparison.measure (first :: rest) =
      if rest.head? = some '=' ∧ first ∈ ['=', '!', '<', '>'] then some 2
      else if first ∈ ['<', '>'] then some 1
      else none := by
  by_cases known : first ∈ ['=', '!', '<', '>']
  case pos =>
    simp only [List.mem_cons, List.not_mem_nil, or_false] at known
    cases rest with
    | nil => rcases known with rfl | rfl | rfl | rfl <;> rfl
    | cons next others =>
        by_cases equals : next = '='
        · subst equals
          rcases known with rfl | rfl | rfl | rfl <;> rfl
        · rcases known with rfl | rfl | rfl | rfl <;> simp [comparison, equals]
  case neg =>
    simp only [List.mem_cons, List.not_mem_nil, or_false, not_or] at known
    simp [comparison, known]

/-- A comparison is a symbol with `=` behind it, or one of the symbols that stand alone. -/
theorem split_of_measure_comparison
    {text : List Char}
    {length : Nat}
    (measured : comparison.measure text = some length) :
    (∃ first rest, text = first :: '=' :: rest ∧ length = 2 ∧ first ∈ ['=', '!', '<', '>']) ∨
      ∃ first rest, text = first :: rest ∧ length = 1 ∧ first ∈ ['<', '>'] ∧
        rest.head? ≠ some '=' := by
  cases text with
  | nil => contradiction
  | cons first rest =>
      rw [measure_comparison_cons] at measured
      split at measured
      · next pair =>
          obtain ⟨others, rfl⟩ := List.head?_eq_some_iff.mp pair.1
          cases measured
          exact .inl ⟨first, others, rfl, rfl, pair.2⟩
      · next noPair =>
          split at measured
          · next alone =>
              cases measured
              refine .inr ⟨first, rest, rfl, rfl, alone, fun ahead => noPair ⟨ahead, ?_⟩⟩
              exact List.mem_cons_of_mem _ (List.mem_cons_of_mem _ alone)
          · contradiction

/-! ## Quoted texts -/

/-- What the pattern of quoted texts takes, and what follows it. -/
theorem split_of_measure_quoted
    {text : List Char}
    {length : Nat}
    (measured : quoted.measure text = some length) :
    ∃ body rest, text = '"' :: (body ++ '"' :: rest) ∧ length = body.length + 2 ∧
      ∀ character ∈ body, (character != '"') = true := by
  simp only [quoted] at measured
  split at measured
  · next content =>
      split at measured
      · next closed =>
          cases measured
          have split : content = content.takeWhile (· != '"') ++ content.dropWhile (· != '"') :=
            List.takeWhile_append_dropWhile.symm
          have stops := List.head?_dropWhile_not (· != '"') content
          cases behind : content.dropWhile (· != '"') with
          | nil =>
              rw [behind, List.append_nil] at split
              rw [← split] at closed
              exact absurd closed (Nat.lt_irrefl _)
          | cons closing rest =>
              have quote : closing = '"' := by simpa [behind] using stops
              rw [behind, quote] at split
              exact ⟨_, rest, congrArg _ split, rfl, List.all_eq_true.mp List.all_takeWhile⟩
      · contradiction
  · contradiction

/-- A quoted text is taken up to its second quote. -/
theorem take_quoted (body rest : List Char) :
    ('"' :: (body ++ '"' :: rest)).take (body.length + 2) = '"' :: (body ++ ['"']) :=
  congrArg ('"' :: ·) (List.take_length_add_append 1)

end Pattern

namespace Rule

/-- A rule takes what its pattern takes. -/
theorem measure_of_measure?
    {rule : Rule}
    {text : List Char}
    {length : Nat}
    (measured : rule.measure? text = some length) :
    rule.pattern.measure text = some length := by
  unfold measure? at measured
  split at measured
  · exact (Option.filter_eq_some_iff.mp measured).1
  · exact measured

/-- The chosen lexeme is one of the pattern of a rule in the table. -/
theorem exists_rule_of_choose?
    {text : List Char}
    {action : Action}
    {length : Nat}
    (chosen : choose? text = some (action, length)) :
    ∃ rule ∈ table, rule.pattern.measure text = some length := by
  obtain ⟨rule, known, applies⟩ := List.exists_of_findSome?_eq_some chosen
  obtain ⟨measured, found, same⟩ := Option.map_eq_some_iff.mp applies
  cases same
  exact ⟨rule, known, measure_of_measure? found⟩

end Rule
end Token
end ModelEquation
