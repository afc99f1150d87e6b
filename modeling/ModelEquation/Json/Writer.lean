import ModelEquation.Json.Value
import ModelEquation.Number

/-!
# Writing JSON

One writer serves compact and indented text; they differ only in the blanks that
a `Spacing` puts around members and items. Strings escape the double quote, the
backslash and the control characters, and nothing else. Doubles that are not
finite have no JSON number and are written as `null`.
-/

namespace ModelEquation
namespace Json

/-- The characters that stand for one character inside a JSON string. -/
def escape (character : Char) : List Char :=
  match character with
  | '"' => ['\\', '"']
  | '\\' => ['\\', '\\']
  | '\x08' => ['\\', 'b']
  | '\x0c' => ['\\', 'f']
  | '\n' => ['\\', 'n']
  | '\r' => ['\\', 'r']
  | '\t' => ['\\', 't']
  | other =>
      if other.toNat < 0x20 then
        ['\\', 'u', '0', '0', Nat.digitChar (other.toNat / 16), Nat.digitChar (other.toNat % 16)]
      else
        [other]

/-- A text as a JSON string. -/
def quote (text : List Char) : List Char :=
  '"' :: (text.flatMap escape ++ ['"'])

/-- Doubles are written positionally from `0.00001` up to `10 ^ 16`, with a signed
exponent outside that range, and a tie goes to the even digit. -/
def layout : Binary64.Layout where
  leastPositional := -5
  positiveMark := ['+']
  tie := .toEven

/-- A double as a JSON number, or `null`. -/
def doubleText (value : Binary64) : List Char :=
  if value.isFinite then layout.text value else ['n', 'u', 'l', 'l']

/-- The blanks of a style of writing: those that start a line at some depth, and
those after a colon. -/
structure Spacing where
  line : Nat → List Char
  afterColon : List Char

namespace Spacing

/-- No blanks at all. -/
def compact : Spacing where
  line _ := []
  afterColon := []

/-- One member or item a line, two spaces for each level of nesting. -/
def indented : Spacing where
  line depth := '\n' :: List.replicate (2 * depth) ' '
  afterColon := [' ']

/-- Parts between brackets, each on a line of its own; nothing between the
brackets if there are no parts. -/
def enclose
    (spacing : Spacing)
    (depth : Nat)
    (opening closing : Char)
    (parts : List (List Char)) :
    List Char :=
  match parts with
  | [] => [opening, closing]
  | first :: others =>
      opening :: (spacing.line (depth + 1) ++ first ++
        others.flatMap (fun part => ',' :: (spacing.line (depth + 1) ++ part)) ++
        spacing.line depth ++ [closing])

end Spacing

namespace Value

mutual

/-- The text of a value that stands at some depth. -/
def write (spacing : Spacing) (depth : Nat) : Value → List Char
  | .null => ['n', 'u', 'l', 'l']
  | .boolean true => ['t', 'r', 'u', 'e']
  | .boolean false => ['f', 'a', 'l', 's', 'e']
  | .whole value => Number.wholeText value
  | .double value => doubleText value
  | .string text => quote text.toList
  | .array items => spacing.enclose depth '[' ']' (writeItems spacing (depth + 1) items)
  | .object members => spacing.enclose depth '{' '}' (writeMembers spacing (depth + 1) members)

/-- The texts of the items of an array. -/
def writeItems (spacing : Spacing) (depth : Nat) : List Value → List (List Char)
  | [] => []
  | item :: rest => item.write spacing depth :: writeItems spacing depth rest

/-- The texts of the members of an object. -/
def writeMembers
    (spacing : Spacing)
    (depth : Nat) :
    List (String × Value) → List (List Char)
  | [] => []
  | (name, value) :: rest =>
      (quote name.toList ++ ':' :: (spacing.afterColon ++ value.write spacing depth)) ::
        writeMembers spacing depth rest

end

/-- The text without blanks. -/
def compact (value : Value) : String :=
  String.ofList (value.write .compact 0)

/-- The text with one member or item a line. -/
def pretty (value : Value) : String :=
  String.ofList (value.write .indented 0)

end Value
end Json
end ModelEquation
