import ModelEquation.Equation.Basic
import ModelEquation.Equation.Separator
import ModelEquation.Expr.Parser

/-!
# Reading equations

The text of an equation is split and its right-hand side is read. Positions of
faults are those in the whole text.
-/

namespace ModelEquation
namespace Equation

/-- A fault of the text of an equation. -/
inductive Fault
  | separator (fault : SeparatorFault)
  | expression (fault : Expr.Fault)
  deriving DecidableEq, Repr

namespace Fault

/-- The message that reports a fault. -/
def message : Fault → String
  | .separator fault => fault.message
  | .expression fault => fault.message

/-- The byte position that a fault points at, if it points at one. -/
def position? : Fault → Option Nat
  | .separator fault => fault.position?
  | .expression fault => some fault.position

end Fault

/-- The equation that a text denotes. -/
def parse (options : Options) (text : List Char) : Except Fault Equation :=
  match split text with
  | .error fault => .error (.separator fault)
  | .ok sides =>
      match Expr.parse options sides.expression with
      | .error fault => .error (.expression (fault.shifted sides.offset))
      | .ok expression => .ok ⟨String.ofList sides.output, expression⟩

end Equation
end ModelEquation
