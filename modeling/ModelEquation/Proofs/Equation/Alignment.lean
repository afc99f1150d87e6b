import ModelEquation.Proofs.Equation.Separator
import ModelEquation.Proofs.Token.Characters
import ModelEquation.Proofs.Token.Run

/-!
# Separators and tokens

What is a bare separator to the scan that splits an equation is a character at which no
token starts. The scan passes over each lexeme as a whole: the lexemes with `=` in them
are comparisons and quoted texts, and the rules for these cut the text where the scan
does. So both stand in front of the same characters wherever a token may start.
-/

namespace ModelEquation

namespace Token

open Equation (Passes symbols)

namespace Pattern

/-- The scan for a separator passes over what the pattern takes. -/
def Passed (pattern : Pattern) : Prop :=
  ∀ ⦃text : List Char⦄ ⦃length : Nat⦄, pattern.measure text = some length →
    Passes (text.take length) (text.drop length)

/-- A pattern that takes no part of a symbol and no quotation mark is passed over. -/
theorem Within.passed
    {property : Char → Bool}
    {pattern : Pattern}
    (within : pattern.Within property)
    (excludes : ('"' :: symbols).any property = false) :
    pattern.Passed := by
  intro text length measured
  refine Passes.plain (fun character member mark => ?_) _
  exact List.any_eq_false.mp excludes character mark (within measured character member)

theorem comparison_passed : comparison.Passed := by
  intro text length measured
  obtain ⟨first, rest, rfl, rfl, known⟩ | ⟨first, rest, rfl, rfl, known, ahead⟩ :=
    split_of_measure_comparison measured
  · exact .pair known rest
  · have visible : first ≠ '"' ∧ first ≠ '=' := by
      constructor <;> rintro rfl <;> exact absurd known (by decide)
    exact .single visible.1 visible.2 fun _ => ahead

theorem quoted_passed : quoted.Passed := by
  intro text length measured
  obtain ⟨body, rest, rfl, rfl, free⟩ := split_of_measure_quoted measured
  have noQuote : '"' ∉ body := fun member => absurd (free '"' member) (by decide)
  have left : ('"' :: (body ++ '"' :: rest)).drop (body.length + 2) = rest := by
    simp
  rw [take_quoted, left]
  exact .quoted noQuote rest

end Pattern

namespace Rule

/-- The scan for a separator passes over what any of the rules takes. -/
theorem passed_of_mem_table : ∀ rule ∈ table, rule.pattern.Passed := by
  have single {members : List Char}
      (excludes : ('"' :: symbols).any members.contains = false) :
      (Pattern.single members).Passed :=
    (Pattern.single_within members).passed excludes
  have word {first : Char} {others : List Char}
      (excludes : ('"' :: symbols).any (first :: others).contains = false) :
      (Pattern.word first others).Passed :=
    (Pattern.word_within first others).passed excludes
  simp only [table, List.forall_mem_cons, List.not_mem_nil, false_imp_iff, implies_true, and_true]
  exact ⟨Pattern.number_within.passed (by decide), single (by decide), single (by decide),
    single (by decide), single (by decide), single (by decide), single (by decide),
    word (by decide), word (by decide), word (by decide),
    Pattern.blanks_within.passed (by decide), Pattern.comparison_passed, word (by decide),
    word (by decide), word (by decide), Pattern.name_within.passed (by decide),
    Pattern.quoted_passed, single (by decide)⟩

/-- What a rule takes from a text is passed over as a whole by the search for a separator. -/
theorem passes_of_choose?
    {text : List Char}
    {action : Action}
    {length : Nat}
    (chosen : choose? text = some (action, length)) :
    Passes (text.take length) (text.drop length) := by
  obtain ⟨rule, known, measured⟩ := exists_rule_of_choose? chosen
  exact passed_of_mem_table rule known measured

end Rule

namespace Cursor

/-- What a run takes is passed over, one lexeme after the other. -/
theorem Reads.passes
    {cursor after : Cursor}
    {tokens : List Token}
    {taken : List Char}
    (reads : Reads cursor tokens after)
    (split : cursor.rest = taken ++ after.rest) :
    Passes taken after.rest := by
  induction reads generalizing taken with
  | refl cursor =>
      rw [List.self_eq_append_left.mp split]
      exact .nil _
  | @round cursor after action length tokens nonempty chosen later hypothesis =>
      obtain ⟨more, left, _⟩ := later.exists_taken
      have first : Passes (cursor.rest.take length) (more ++ after.rest) := by
        rw [← left]
        exact Rule.passes_of_choose? chosen
      rw [taken_eq_of_advance split left]
      exact first.append (hypothesis left)

end Cursor
end Token

namespace Equation

open Token (tokenize)

variable {text front rest : List Char}

/-- A separator that is found behind what is passed over lies further on by as much. -/
theorem bareOffset?_of_passes
    (passed : Passes front rest) :
    bareOffset? (front ++ rest) = (bareOffset? rest).map (Text.byteLength front + ·) := by
  rw [bareOffset?, passed, bareOffset?]
  cases splitAtBare false rest with
  | none => rfl
  | some parts => simp [putBefore]

/-- An equals sign at which no token starts is a bare one. -/
theorem splitAtBare_of_stuckOn
    {cursor : Token.Cursor}
    (stuck : cursor.StuckOn '=') :
    ∃ others, splitAtBare false cursor.rest = some ([], others) := by
  obtain ⟨stands, refused⟩ := stuck
  obtain ⟨others, content⟩ := List.head?_eq_some_iff.mp stands
  refine ⟨others, content ▸ splitAtBare_separator fun again => ?_⟩
  obtain ⟨later, rfl⟩ := List.head?_eq_some_iff.mp again
  have comparison : Token.Rule.choose? ('=' :: '=' :: later) = some (.emit .comparison, 2) := rfl
  rw [content, comparison] at refused
  contradiction

/-- A text that is read as tokens has no separator. -/
theorem splitAtBare_of_tokenize_ok
    {tokens : List Token}
    (read : tokenize text = .ok tokens) :
    splitAtBare false text = none := by
  obtain ⟨position, reads⟩ := Token.Cursor.reads_of_tokens_ok read
  have passed : Passes text [] := reads.passes (List.append_nil text).symm
  rw [Passes, List.append_nil] at passed
  rw [passed]
  rfl

/-- What stands in front of a character at which no token starts is passed over. -/
theorem exists_passed_of_tokenize_error
    {fault : Token.Fault}
    (refused : tokenize text = .error fault) :
    ∃ front, ∃ cursor : Token.Cursor, text = front ++ cursor.rest ∧
      Text.byteLength front = fault.position ∧ cursor.StuckOn fault.character ∧
      Passes front cursor.rest := by
  obtain ⟨tokens, front, cursor, reads, split, place, stuck⟩ :=
    Token.reads_of_tokenize_error refused
  exact ⟨front, cursor, split, place, stuck, reads.passes split⟩

/-- The first bare separator of a text is the `=` at which no token starts. In a text that
is read as tokens there is none, and in front of a character that stops the reading there
is none either. -/
theorem bareOffset?_of_tokenize (text : List Char) :
    match tokenize text with
    | .ok _ => split text = .error .missing
    | .error fault =>
        if fault.character = '=' then bareOffset? text = some fault.position
        else ∀ offset ∈ bareOffset? text, fault.position ≤ offset := by
  cases tokenized : tokenize text with
  | ok tokens => simp only [split, splitAtBare_of_tokenize_ok tokenized]
  | error fault =>
      obtain ⟨front, cursor, rfl, place, stuck, passed⟩ := exists_passed_of_tokenize_error tokenized
      dsimp only
      rw [bareOffset?_of_passes passed]
      split
      · next equals =>
          rw [equals] at stuck
          obtain ⟨others, found⟩ := splitAtBare_of_stuckOn stuck
          simp [bareOffset?, found, place]
      · intro offset found
        obtain ⟨further, _, rfl⟩ := Option.map_eq_some_iff.mp found
        omega

/-- In `a >= "=" =` the comparison and the quoted `=` are passed over. -/
example : bareOffset? "a >= \"=\" =".toList = some 9 := by decide

end Equation
end ModelEquation
