import ModelEquation.Json.Document

/-!
# Options in structured form
-/

namespace ModelEquation
namespace Options

open Json.TextReader (sees mark refuse scalar scalarAs within)

/-- The structured form of options. -/
def toJson (options : Options) : Json.Value :=
  .object [("max_depth", .whole options.maxDepth)]

/-- The limit that a value denotes: a whole number of 64 bits without sign. -/
def limitOf? : Json.Value → Option Nat
  | .whole value => if 0 ≤ value && value < UInt64.size then some value.toNat else none
  | _ => none

/-- Reads a member of options, after its name. The budget is the number of arrays
and objects that its value may open. -/
def pendingMember
    (budget : Nat)
    (name : String)
    (before : Option Nat) :
    Json.TextReader (Option Nat) := do
  if name = "max_depth" then
    if before.isSome then
      refuse .misfit
    else
      mark ':'
      return some (← scalarAs limitOf?)
  else
    mark ':'
    let _ ← Json.TextReader.value .lenient budget
    pure before

/-- Options with the given limit, or the default ones. -/
def ofLimit (limit : Option Nat) : Options :=
  match limit with
  | some maxDepth => { maxDepth }
  | none => {}

/-- Reads options from an object. -/
def readObject (budget : Nat) : Json.TextReader Options := do
  return ofLimit (← Json.TextReader.members .strict (pendingMember budget) none)

/-- Reads options from an array. -/
def readArray (_budget : Nat) : Json.TextReader Options := do
  mark '['
  if ← sees ']' then
    mark ']'
    pure {}
  else
    let limit ← scalarAs limitOf?
    mark ']'
    pure (ofLimit (some limit))

/-- Reads options when a number of arrays and objects may still be opened. They
are an object or an array of the limit, and the limit may be left out. -/
def jsonReader (budget : Nat) : Json.TextReader Options := do
  if ← sees '{' then
    within readObject budget
  else if ← sees '[' then
    within readArray budget
  else
    let _ ← scalar .strict
    refuse .misfit

/-- The options that a JSON text denotes. -/
def ofJsonText (options : Options) (text : List Char) : Except Json.Fault Options :=
  Json.read jsonReader options text

end Options
end ModelEquation
