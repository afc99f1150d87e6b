import ModelEquation.Proofs.Equation.Outcome
import ModelEquation.Proofs.Json.Unspaced

/-!
# Indented and compact text

The indented text and the compact text of a value write the same tree. They differ in blanks
outside of strings and in nothing else, and neither reader can tell them apart.
-/

namespace ModelEquation

open Json (unspaced)

/-- Deleting the blanks outside of strings from the indented text of an expression or of an
equation leaves its compact text, and under all options the two texts are read with the same
outcome, be it a result, a refusal for the nesting or another failure. -/
theorem pretty_same_document_as_compact :
    (∀ expression : Expr,
      unspaced expression.toJson.pretty.toList = expression.toJson.compact.toList ∧
      ∀ options, Expr.ofJsonText options expression.toJson.pretty.toList =
        Expr.ofJsonText options expression.toJson.compact.toList) ∧
    ∀ equation : Equation,
      unspaced equation.toJson.pretty.toList = equation.toJson.compact.toList ∧
      ∀ options, Equation.ofJsonText options equation.toJson.pretty.toList =
        Equation.ofJsonText options equation.toJson.compact.toList := by
  refine ⟨fun expression => ?_, fun equation => ?_⟩
  · have pretty := expression.toJson.writes_pretty
    refine ⟨Json.Value.unspaced_eq_compact pretty, fun options => ?_⟩
    rw [Expr.ofJsonText_of_writes pretty,
      Expr.ofJsonText_of_writes expression.toJson.writes_compact]
  · have pretty := equation.toJson.writes_pretty
    refine ⟨Json.Value.unspaced_eq_compact pretty, fun options => ?_⟩
    rw [Equation.ofJsonText_of_writes pretty,
      Equation.ofJsonText_of_writes equation.toJson.writes_compact]

end ModelEquation
