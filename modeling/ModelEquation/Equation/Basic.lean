import ModelEquation.Expr.Json
import ModelEquation.Expr.Same

/-!
# Equations

An equation assigns an expression to an output. The output is a text that is kept
as it was written.
-/

namespace ModelEquation

/-- An output and the expression assigned to it. -/
structure Equation where
  output : String
  expression : Expr

namespace Equation

/-- Whether two equations agree in their outputs and in the values of their
expressions. -/
def same (left right : Equation) : Bool :=
  left.output == right.output && left.expression.same right.expression

/-- The structured form of an equation. -/
def toJson (equation : Equation) : Json.Value :=
  .object [("output", .string equation.output), ("expression", equation.expression.toJson)]

end Equation
end ModelEquation
