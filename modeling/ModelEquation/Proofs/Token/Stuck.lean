import ModelEquation.Proofs.Text.Blank
import ModelEquation.Proofs.Token.Characters

/-!
# Characters at which nothing starts

A rule applies at every blank, letter, digit and underscore, and at every mark but three. A
double quote needs a second one behind it, and `=` and `!` need another `=`. At all other
characters no rule applies.
-/

namespace ModelEquation
namespace Token

/-- The marks at which a rule applies whatever follows them. -/
def certainMarks : List Char :=
  ['+', '-', '*', '/', '(', ')', '[', ']', ',', '.', '<', '>']

/-- Nothing starts with the character where the text goes on like this behind it. -/
structure StartsNothing (character : Char) (rest : List Char) : Prop where
  visible : Text.isBlank character = false
  noName : (character.isAlphanum || character == '_') = false
  noMark : character ∉ certainMarks
  unclosed : character = '"' → '"' ∉ rest
  noComparison : character = '=' ∨ character = '!' → rest.head? ≠ some '='

namespace Pattern

section Refused

variable (first : Char) (rest : List Char)

/-- A numeral needs a digit at its start. -/
theorem measure_number_eq_none_iff :
    number.measure (first :: rest) = none ↔ first.isDigit = false := by
  cases digit : first.isDigit <;> simp [number, digitCount, digit]

theorem measure_single_eq_none_iff (members : List Char) :
    (single members).measure (first :: rest) = none ↔ first ∉ members := by
  simp [single]

theorem measure_name_eq_none_iff :
    name.measure (first :: rest) = none ↔ isNameStart first = false := by
  simp [name]

theorem measure_blanks_eq_none_iff :
    blanks.measure (first :: rest) = none ↔ Text.isBlank first = false := by
  cases blank : Text.isBlank first <;> simp [blanks, blank]

/-- A string needs a second double quote. -/
theorem measure_quoted_eq_none_iff :
    quoted.measure (first :: rest) = none ↔ (first = '"' → '"' ∉ rest) := by
  constructor
  · rintro refused rfl closed
    have shorter : (rest.takeWhile (· != '"')).length < rest.length := by
      refine Nat.lt_of_le_of_ne (List.takeWhile_prefix _).length_le fun whole => ?_
      have free := List.all_eq_true.mp (List.all_takeWhile (p := (· != '"')) (l := rest)) '"'
      rw [(List.takeWhile_prefix _).eq_of_length whole] at free
      exact absurd (free closed) (by decide)
    simp [quoted, shorter] at refused
  · intro unclosed
    cases measured : quoted.measure (first :: rest) with
    | none => rfl
    | some length =>
        obtain ⟨body, later, same, _, _⟩ := split_of_measure_quoted measured
        cases same
        exact absurd (by simp) (unclosed rfl)

/-- A comparison needs one of its symbols, and an equals sign behind those that do not stand
alone. -/
theorem measure_comparison_eq_none_iff :
    comparison.measure (first :: rest) = none ↔
      first ∉ ['<', '>'] ∧ (first = '=' ∨ first = '!' → rest.head? ≠ some '=') := by
  rw [measure_comparison_cons]
  by_cases alone : first ∈ ['<', '>']
  case pos =>
    simp only [alone, not_true_eq_false, false_and, if_true, iff_false]
    split <;> simp
  case neg =>
    by_cases equals : rest.head? = some '=' <;> simp_all

/-- The letters of a word are parts of names, and it starts with one. -/
theorem measure_word_eq_none
    (letter : Char)
    (letters : List Char)
    (starts : isNameStart letter = true)
    (noName : isNameStart first = false) :
    (word letter letters).measure (first :: rest) = none := by
  have other : letter ≠ first := by
    rintro rfl
    rw [starts] at noName
    contradiction
  simp [word, other]

end Refused
end Pattern

namespace Rule

/-- Nothing is chosen exactly if no rule applies. -/
theorem choose?_eq_none_iff (text : List Char) :
    choose? text = none ↔ ∀ rule ∈ table, rule.measure? text = none := by
  simp [choose?, List.findSome?_eq_none_iff]

/-- Where no rule applies, nothing starts. -/
theorem startsNothing_of_choose?_eq_none
    {character : Char}
    {rest : List Char}
    (none : choose? (character :: rest) = none) :
    StartsNothing character rest := by
  have refused := (choose?_eq_none_iff _).mp none
  have emitted (kind : Kind) (pattern : Pattern)
      (known : (⟨.emit kind, pattern⟩ : Rule) ∈ table) :
      pattern.measure (character :: rest) = Option.none :=
    refused ⟨.emit kind, pattern⟩ known
  have single (kind : Kind) (members : List Char)
      (known : (⟨.emit kind, .single members⟩ : Rule) ∈ table) :
      character ∉ members :=
    (Pattern.measure_single_eq_none_iff ..).mp (emitted kind _ known)
  have visible := refused ⟨.skip, .blanks⟩ (by simp [table])
  have noDigit := (Pattern.measure_number_eq_none_iff ..).mp
    (emitted .number _ (by simp [table]))
  have noStart := (Pattern.measure_name_eq_none_iff ..).mp
    (emitted .identifier _ (by simp [table]))
  obtain ⟨noOrder, noPair⟩ := (Pattern.measure_comparison_eq_none_iff ..).mp
    (emitted .comparison _ (by simp [table]))
  have operator := single .operator ['+', '-', '*', '/'] (by simp [table])
  have leftParenthesis := single .leftParenthesis ['('] (by simp [table])
  have rightParenthesis := single .rightParenthesis [')'] (by simp [table])
  have leftBracket := single .leftBracket ['['] (by simp [table])
  have rightBracket := single .rightBracket [']'] (by simp [table])
  have comma := single .comma [','] (by simp [table])
  have dot := single .dot ['.'] (by simp [table])
  simp only [Pattern.isNameStart, Bool.or_eq_false_iff] at noStart
  refine ⟨(Pattern.measure_blanks_eq_none_iff ..).mp visible, ?_, ?_,
    (Pattern.measure_quoted_eq_none_iff ..).mp (emitted .stringLiteral _ (by simp [table])),
    noPair⟩
  · simp [Char.isAlphanum, noStart, noDigit]
  · simp only [certainMarks, List.mem_cons, List.not_mem_nil, or_false, not_or] at *
    simp [*]

/-- Where nothing starts, each rule refuses. -/
theorem measure?_eq_none_of_startsNothing
    {character : Char}
    {rest : List Char}
    (nothing : StartsNothing character rest) :
    ∀ rule ∈ table, rule.measure? (character :: rest) = none := by
  have noName := nothing.noName
  simp only [Char.isAlphanum, Bool.or_eq_false_iff] at noName
  have noStart : Pattern.isNameStart character = false := by
    simp [Pattern.isNameStart, noName]
  have word (kind : Kind) (letter : Char) (letters : List Char)
      (starts : Pattern.isNameStart letter = true) :
      measure? ⟨.word kind, .word letter letters⟩ (character :: rest) = none := by
    simp [measure?, Pattern.measure_word_eq_none character rest letter letters starts noStart]
  have single (kind : Kind) (members : List Char)
      (among : members.all certainMarks.contains = true) :
      measure? ⟨.emit kind, .single members⟩ (character :: rest) = none :=
    (Pattern.measure_single_eq_none_iff ..).mpr fun member =>
      nothing.noMark (List.contains_iff_mem.mp (List.all_eq_true.mp among character member))
  have noOrder : character ∉ ['<', '>'] := fun member =>
    nothing.noMark (List.mem_of_mem_drop (i := 10) member)
  simp only [table, List.forall_mem_cons, List.not_mem_nil, false_imp_iff, implies_true,
    and_true]
  exact ⟨(Pattern.measure_number_eq_none_iff ..).mpr noName.1.2,
    single _ _ (by decide), single _ _ (by decide), single _ _ (by decide),
    single _ _ (by decide), single _ _ (by decide), single _ _ (by decide),
    word _ _ _ (by decide), word _ _ _ (by decide), word _ _ _ (by decide),
    (Pattern.measure_blanks_eq_none_iff ..).mpr nothing.visible,
    (Pattern.measure_comparison_eq_none_iff ..).mpr ⟨noOrder, nothing.noComparison⟩,
    word _ _ _ (by decide), word _ _ _ (by decide), word _ _ _ (by decide),
    (Pattern.measure_name_eq_none_iff ..).mpr noStart,
    (Pattern.measure_quoted_eq_none_iff ..).mpr nothing.unclosed, single _ _ (by decide)⟩

/-- No rule applies at a character exactly if nothing starts with it. -/
theorem choose?_cons_eq_none_iff
    (character : Char)
    (rest : List Char) :
    choose? (character :: rest) = none ↔ StartsNothing character rest := by
  constructor
  · exact startsNothing_of_choose?_eq_none
  · intro nothing
    rw [choose?_eq_none_iff]
    exact measure?_eq_none_of_startsNothing nothing

end Rule
end Token
end ModelEquation
