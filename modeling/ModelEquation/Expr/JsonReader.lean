import ModelEquation.Expr.Reading
import ModelEquation.Json.Document

/-!
# Reading expressions from JSON text

The type of the topmost node is looked at as soon as it is met; the other parts
are read as plain values first and then taken together.
-/

namespace ModelEquation
namespace Expr

open Json.TextReader (sees mark refuse fitting scalar scalarAs afterCommas within)

/-- The type and the other members of a node whose object is being read; the last
member read comes first. -/
structure Pending where
  shape : Option Shape
  reversed : List (String × Json.Value)

/-- Reads a member of the topmost node, after its name. -/
def pendingMember
    (inner : Json.TextReader Json.Value)
    (name : String)
    (before : Pending) :
    Json.TextReader Pending := do
  if name = "type" then
    if before.shape.isSome then
      refuse .misfit
    else
      mark ':'
      let shape ← scalarAs Shape.ofTag?
      pure { before with shape := some shape }
  else
    mark ':'
    let value ← inner
    pure { before with reversed := (name, value) :: before.reversed }

/-- The node of an object whose members have all been read. -/
def Pending.finished? (pending : Pending) : Option Expr := do
  ofMembers? (← pending.shape) pending.reversed.reverse

/-- The parts of a node that is given as an array, after its type. -/
def itemsAfterType (inner : Json.TextReader Json.Value) :
    Json.TextReader (List Json.Value) := do
  let reversed ← afterCommas (fun before => do pure ((← inner) :: before)) []
  mark ']'
  pure reversed.reverse

/-- Reads the topmost node from an object. -/
def readObject (inner : Json.TextReader Json.Value) : Json.TextReader Expr := do
  let pending ← Json.TextReader.members .strict (pendingMember inner) ⟨none, []⟩
  fitting pending.finished?

/-- Reads the topmost node from an array. -/
def readArray (inner : Json.TextReader Json.Value) : Json.TextReader Expr := do
  mark '['
  if ← sees ']' then
    refuse .misfit
  else
    let shape ← scalarAs Shape.ofTag?
    let items ← itemsAfterType inner
    fitting (ofItems? shape items)

/-- Reads an expression when a number of arrays and objects may still be opened. -/
def jsonReader (budget : Nat) : Json.TextReader Expr := do
  if ← sees '{' then
    within (fun inner => readObject (.value .strict inner)) budget
  else if ← sees '[' then
    within (fun inner => readArray (.value .strict inner)) budget
  else
    let _ ← scalar .strict
    refuse .misfit

/-- The expression that a JSON text denotes. -/
def ofJsonText (options : Options) (text : List Char) : Except Json.Fault Expr :=
  Json.read jsonReader options text

end Expr
end ModelEquation
