import ModelEquation.Text.Blank
import ModelEquation.Text.Width

/-!
# The separator of an equation

An equation is split at its only bare `=`: one that is not part of `==`, `!=`,
`<=` or `>=` and does not stand in a string literal. The sides are trimmed and a
final semicolon is dropped.
-/

namespace ModelEquation
namespace Equation

/-- Puts a text before the first part of a pair of texts. -/
def putBefore (front : List Char) (parts : List Char × List Char) : List Char × List Char :=
  (front ++ parts.1, parts.2)

/-- The texts before and after the first bare `=`. The flag tells whether the
text starts inside a string literal; one without an end hides all that follows. -/
def splitAtBare : Bool → List Char → Option (List Char × List Char)
  | _, [] => none
  | true, character :: rest => (splitAtBare (character != '"') rest).map (putBefore [character])
  | false, '"' :: rest => (splitAtBare true rest).map (putBefore ['"'])
  | false, '=' :: '=' :: rest => (splitAtBare false rest).map (putBefore ['=', '='])
  | false, '!' :: '=' :: rest => (splitAtBare false rest).map (putBefore ['!', '='])
  | false, '<' :: '=' :: rest => (splitAtBare false rest).map (putBefore ['<', '='])
  | false, '>' :: '=' :: rest => (splitAtBare false rest).map (putBefore ['>', '='])
  | false, '=' :: rest => some ([], rest)
  | false, character :: rest => (splitAtBare false rest).map (putBefore [character])

/-- Byte offset of the first bare `=` of a text. -/
def bareOffset? (text : List Char) : Option Nat :=
  (splitAtBare false text).map fun (before, _) => Text.byteLength before

/-- Why a text cannot be split. The offsets are those of the separators. -/
inductive SeparatorFault
  | missing
  | emptyOutput (separator : Nat)
  | emptyExpression (separator : Nat)
  | repeated (first second : Nat)
  deriving DecidableEq, Repr

namespace SeparatorFault

/-- The message that reports a fault. -/
def message : SeparatorFault → String
  | .missing => "Missing '=' between output and expression"
  | .emptyOutput separator =>
      "Empty output before '=' at position " ++ toString separator
  | .emptyExpression separator =>
      "Empty expression after '=' at position " ++ toString separator
  | .repeated first second =>
      "Ambiguous equation: '=' at positions " ++ toString first ++ " and " ++ toString second

/-- The byte position that a fault points at, if it points at one. -/
def position? : SeparatorFault → Option Nat
  | .missing => none
  | .emptyOutput separator => some separator
  | .emptyExpression separator => some separator
  | .repeated _ second => some second

/-- The offsets of the separators that were found. -/
def separators : SeparatorFault → List Nat
  | .missing => []
  | .emptyOutput separator => [separator]
  | .emptyExpression separator => [separator]
  | .repeated first second => [first, second]

end SeparatorFault

/-- The sides of an equation, trimmed. -/
structure Sides where
  output : List Char
  expression : List Char
  /-- Byte offset of the expression in the text of the equation. -/
  offset : Nat
  deriving DecidableEq, Repr

/-- A trimmed text without a final semicolon and the blanks before it. -/
def dropSemicolon (text : List Char) : List Char :=
  if text.getLast? = some ';' then Text.trimEnd text.dropLast else text

/-- Splits the text of an equation at its separator. -/
def split (text : List Char) : Except SeparatorFault Sides :=
  match splitAtBare false text with
  | none => .error .missing
  | some (before, after) =>
      let separator := Text.byteLength before
      match bareOffset? after with
      | some further => .error (.repeated separator (separator + 1 + further))
      | none =>
          let output := Text.trim before
          let expression := dropSemicolon (Text.trim after)
          let blanks := Text.byteLength after - Text.byteLength (Text.trimStart after)
          if output.isEmpty then .error (.emptyOutput separator)
          else if expression.isEmpty then .error (.emptyExpression separator)
          else .ok ⟨output, expression, separator + 1 + blanks⟩

end Equation
end ModelEquation
