import ModelEquation.Equation.Parser
import ModelEquation.Proofs.Equation.Sides
import ModelEquation.Proofs.Expr.Location

/-!
# What faults of equations point at

The positions that faults of an equation report are those of the whole text. A fault of the
separator points at an `=`. A fault of the expression points between the ends of the
right-hand side, at the character or the token that it reports, or at its end, behind which
only a terminator is left.
-/

namespace ModelEquation
namespace Equation

open Text (byteLength characterAt? slice?)

namespace Sides

/-- Byte offset of the end of the expression in the text of the equation. -/
def finish (sides : Sides) : Nat :=
  sides.offset + byteLength sides.expression

/-- The tokens of the expression at their places in the text of the equation, or none if it
is not read to its end. -/
def tokens (sides : Sides) : List Token :=
  (Token.ofText sides.expression).map (Token.shifted sides.offset)

end Sides

/-- A fault of the separator points at an equals sign. -/
theorem characterAt?_of_split_error
    {text : List Char}
    {fault : SeparatorFault}
    (refused : split text = .error fault) :
    ∀ position ∈ fault.position?, characterAt? text position = some '=' := by
  unfold split at refused
  split at refused
  · cases refused
    simp [SeparatorFault.position?]
  · next before after found =>
      have whole := eq_of_splitAtBare found
      have first : characterAt? text (byteLength before) = some '=' :=
        Text.characterAt?_eq_some_iff.mpr ⟨before, after, whole, rfl⟩
      dsimp only at refused
      split at refused
      · next further again =>
          cases refused
          obtain ⟨⟨inner, outer⟩, known, rfl⟩ := Option.map_eq_some_iff.mp again
          rintro position ⟨rfl⟩
          refine Text.characterAt?_eq_some_iff.mpr
            ⟨before ++ '=' :: inner, outer, ?_, byteLength_separated before inner⟩
          rw [whole, eq_of_splitAtBare known, List.append_assoc, List.cons_append]
      · split at refused
        · cases refused
          rintro position ⟨rfl⟩
          exact first
        · split at refused
          · cases refused
            rintro position ⟨rfl⟩
            exact first
          · contradiction

/-- The expression stands in the text of the equation at its offset, behind the separator and
in front of a terminator. -/
theorem exists_lead_of_split
    {text : List Char}
    {sides : Sides}
    (divided : split text = .ok sides) :
    ∃ separator lead tail, bareOffset? text = some separator ∧ separator < sides.offset ∧
      text = lead ++ (sides.expression ++ tail) ∧ byteLength lead = sides.offset ∧
      IsTerminator tail := by
  obtain ⟨before, front, tail, whole, found, _, terminates, offset⟩ :=
    exists_parts_of_split divided
  refine ⟨byteLength before, before ++ '=' :: front, tail, found, by omega, ?_,
    (byteLength_separated before front).trans offset.symm, terminates⟩
  rw [whole, List.append_assoc, List.cons_append]

/-- The parts of the text from the start of the expression to its end and from there on. -/
theorem slice?_of_lead
    {text lead tail : List Char}
    {sides : Sides}
    (whole : text = lead ++ (sides.expression ++ tail))
    (place : byteLength lead = sides.offset) :
    slice? text sides.offset sides.finish = some sides.expression ∧
      slice? text sides.finish (byteLength text) = some tail := by
  constructor
  · exact Text.slice?_eq_some_iff.mpr ⟨lead, tail, whole, place, rfl⟩
  · refine Text.slice?_eq_some_iff.mpr ⟨lead ++ sides.expression, [], ?_, ?_, ?_⟩
    · rw [whole, List.append_nil, List.append_assoc]
    · rw [Text.byteLength_append, place, Sides.finish]
    · rw [whole, Text.byteLength_append, Text.byteLength_append, place, Sides.finish,
        Nat.add_assoc]

/-- Every position that a fault of an equation reports points into its text. -/
theorem points_of_parse_error
    {options : Options}
    {text : List Char}
    {fault : Fault}
    (refused : parse options text = .error fault) :
    match fault with
    | .separator fault => ∀ position ∈ fault.position?, characterAt? text position = some '='
    | .expression fault =>
        ∃ separator sides tail, bareOffset? text = some separator ∧ split text = .ok sides ∧
          fault.PointsInto text sides.tokens sides.finish ∧
          separator < sides.offset ∧ sides.offset ≤ fault.position ∧
          fault.position ≤ sides.finish ∧
          slice? text sides.offset sides.finish = some sides.expression ∧
          slice? text sides.finish (byteLength text) = some tail ∧ IsTerminator tail := by
  unfold parse at refused
  split at refused
  · next fault divided =>
      cases refused
      exact characterAt?_of_split_error divided
  · next sides divided =>
      split at refused
      · next inner stopped =>
          cases refused
          obtain ⟨separator, lead, tail, found, behind, whole, place, terminates⟩ :=
            exists_lead_of_split divided
          have points := Expr.pointsInto_of_parse_error stopped
          have inside := points.position_le
          have further := points.shifted lead tail
          rw [← whole, place, Nat.add_comm] at further
          obtain ⟨expression, left⟩ := slice?_of_lead whole place
          have position := Expr.Fault.position_shifted sides.offset inner
          refine ⟨separator, sides, tail, found, divided, further, behind, ?_, ?_, expression,
            left, terminates⟩
          · rw [position]
            exact Nat.le_add_left ..
          · rw [position, Nat.add_comm]
            exact Nat.add_le_add_left inside _
      · contradiction

/-- A parenthesis that nothing opens, behind characters of several bytes. -/
theorem points_of_parse_error_at_parenthesis :
    let text := "é =\u3000a + \"ü\") * b ; ".toList
    let token : Token := ⟨.rightParenthesis, ")", 15⟩
    parse { maxDepth := 5 } text =
        .error (.expression (.unexpected .endOfInput (some token) 15)) ∧
      slice? text 15 16 = some [')'] ∧
      ∃ separator sides, bareOffset? text = some separator ∧ split text = .ok sides ∧
        separator < sides.offset ∧ sides.offset ≤ 15 ∧ 15 ≤ sides.finish ∧
        token ∈ sides.tokens := by
  intro text token
  have refused : parse { maxDepth := 5 } "é =\u3000a + \"ü\") * b ; ".toList =
      .error (.expression (.unexpected .endOfInput (some ⟨.rightParenthesis, ")", 15⟩) 15)) := by
    with_unfolding_all rfl
  obtain ⟨separator, sides, _, found, divided, ⟨member, stands, _⟩, behind, low, high, _⟩ :=
    points_of_parse_error refused
  exact ⟨refused, stands, separator, sides, found, divided, behind, low, high, member⟩

end Equation
end ModelEquation
