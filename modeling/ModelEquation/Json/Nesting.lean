/-!
# Nesting of JSON text

How deep the brackets and braces of a text nest, whether or not it is JSON.
Brackets in strings do not count, and a closing bracket without an opening one
changes nothing.
-/

namespace ModelEquation
namespace Json

/-- Where a character stands with respect to strings. -/
inductive Place
  | outside
  | inString
  /-- In a string, after a backslash. -/
  | escaped
  deriving DecidableEq, Repr

/-- The greatest depth that a text reaches from a place at some depth, or zero if
it opens nothing. -/
def nestingFrom : Place → Nat → List Char → Nat
  | _, _, [] => 0
  | .escaped, depth, _ :: rest => nestingFrom .inString depth rest
  | .inString, depth, character :: rest =>
      if character = '\\' then nestingFrom .escaped depth rest
      else if character = '"' then nestingFrom .outside depth rest
      else nestingFrom .inString depth rest
  | .outside, depth, character :: rest =>
      if character = '"' then nestingFrom .inString depth rest
      else if character = '{' || character = '[' then
        max (depth + 1) (nestingFrom .outside (depth + 1) rest)
      else if character = '}' || character = ']' then nestingFrom .outside (depth - 1) rest
      else nestingFrom .outside depth rest

/-- The greatest depth of the brackets and braces of a text. -/
def nesting (text : List Char) : Nat :=
  nestingFrom .outside 0 text

end Json
end ModelEquation
