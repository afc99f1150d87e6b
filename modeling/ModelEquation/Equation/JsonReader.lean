import ModelEquation.Equation.Basic
import ModelEquation.Expr.JsonReader

/-!
# Reading equations from JSON

An equation is an object with an output and an expression, or an array of the
two. Its members are taken one by one as they are met, so that a misfit in an
earlier member counts before a mistake of the text further on. Unknown members
are passed over.
-/

namespace ModelEquation
namespace Equation

open Json.TextReader (sees mark refuse fitting scalar scalarAs within)

/-- The text of a value. -/
def textOf? : Json.Value → Option String
  | .string text => some text
  | _ => none

/-- The parts of an equation that have been read. -/
structure Pending where
  output : Option String
  expression : Option Expr

/-- The equation whose parts have all been read. -/
def Pending.finished? (pending : Pending) : Option Equation := do
  some ⟨← pending.output, ← pending.expression⟩

/-- Reads a member of an equation, after its name. The budget is the number of
arrays and objects that its value may open. -/
def pendingMember
    (budget : Nat)
    (name : String)
    (before : Pending) :
    Json.TextReader Pending := do
  if name = "output" then
    if before.output.isSome then
      refuse .misfit
    else
      mark ':'
      let output ← scalarAs textOf?
      pure { before with output := some output }
  else if name = "expression" then
    if before.expression.isSome then
      refuse .misfit
    else
      mark ':'
      let expression ← Expr.jsonReader budget
      pure { before with expression := some expression }
  else
    mark ':'
    let _ ← Json.TextReader.value .lenient budget
    pure before

/-- Reads an equation from an object. -/
def readObject (budget : Nat) : Json.TextReader Equation := do
  let pending ← Json.TextReader.members .strict (pendingMember budget) ⟨none, none⟩
  fitting pending.finished?

/-- Reads an equation from an array. -/
def readArray (budget : Nat) : Json.TextReader Equation := do
  mark '['
  if ← sees ']' then
    refuse .misfit
  else
    let output ← scalarAs textOf?
    if ← sees ']' then
      refuse .misfit
    else
      mark ','
      let expression ← Expr.jsonReader budget
      mark ']'
      pure ⟨output, expression⟩

/-- Reads an equation when a number of arrays and objects may still be opened. -/
def jsonReader (budget : Nat) : Json.TextReader Equation := do
  if ← sees '{' then
    within readObject budget
  else if ← sees '[' then
    within readArray budget
  else
    let _ ← scalar .strict
    refuse .misfit

/-- The equation that a JSON text denotes. -/
def ofJsonText (options : Options) (text : List Char) : Except Json.Fault Equation :=
  Json.read jsonReader options text

/-- The only value of a name among members, if there is exactly one. -/
def onlyMember? (members : List (String × Json.Value)) (name : String) : Option Json.Value :=
  match members.filter fun member => member.1 == name with
  | [(_, value)] => some value
  | _ => none

/-- The equation that a value denotes. -/
def ofJson? : Json.Value → Option Equation
  | .object members => do
      let output ← textOf? (← onlyMember? members "output")
      let expression ← Expr.ofJson? (← onlyMember? members "expression")
      some ⟨output, expression⟩
  | .array [output, expression] => do
      some ⟨← textOf? output, ← Expr.ofJson? expression⟩
  | _ => none

end Equation
end ModelEquation
