import ModelEquation.Json.Numeral
import ModelEquation.Json.Quoted

/-!
# Reading JSON values

A value is read by levels: a number says how many arrays and objects may still be
opened one in another, and since each of them takes a character the length of the
text is always enough. Every reader drops the blanks after what it read. A value
whose content does not matter is read by the same rules with a laxer `Lexis`.

`parse` reads a plain value, which is held to `containerLimit`: no options bound
how deep it nests.
-/

namespace ModelEquation
namespace Json

/-- How numbers and escaped code units are read. -/
structure Lexis where
  number : TextReader Value
  unicode : TextReader Char

namespace Lexis

/-- Numbers must be in range and surrogates must come in pairs. -/
def strict : Lexis where
  number := .number
  unicode := .codePoint

/-- Numbers and code units are only passed over. -/
def lenient : Lexis where
  number := .anyNumber
  unicode := .anyCodeUnit

end Lexis

namespace TextReader

/-- A string and the blanks after it. -/
def string (lexis : Lexis) : TextReader String := do
  let text ← quoted lexis.unicode
  blanks
  pure text

/-- A word and the blanks after it. -/
def word (letters : List Char) (value : Value) : TextReader Value := do
  chars letters
  blanks
  pure value

/-- A value that is neither an array nor an object. -/
def scalar (lexis : Lexis) : TextReader Value := do
  match ← Reader.peek with
  | some 'n' => word ['n', 'u', 'l', 'l'] .null
  | some 't' => word ['t', 'r', 'u', 'e'] (.boolean true)
  | some 'f' => word ['f', 'a', 'l', 's', 'e'] (.boolean false)
  | some '"' => return .string (← string lexis)
  | some next =>
      if next = '-' || next.isDigit then
        let value ← lexis.number
        blanks
        pure value
      else
        stop
  | none => stop

/-- Whether the next character is the given one. -/
def sees (expected : Char) : TextReader Bool := do
  pure ((← Reader.peek) = some expected)

/-- Whether the next character opens an array or an object. -/
def seesContainer : TextReader Bool := do
  pure ((← sees '[') || (← sees '{'))

/-- Reads one part after each comma, going on from what was read before. -/
def afterCommas {α : Type} (part : α → TextReader α) : α → TextReader α :=
  Reader.extend fun next =>
    if next = ',' then
      some fun before => do
        blanks
        part before
    else
      none

/-- The items of an array, from its opening bracket on. -/
def items (item : TextReader Value) : TextReader (List Value) := do
  mark '['
  if ← sees ']' then
    mark ']'
    pure []
  else
    let first ← item
    let reversed ← afterCommas (fun before => do pure ((← item) :: before)) [first]
    mark ']'
    pure reversed.reverse

/-- The members of an object, from its opening brace on. Each member is read by
a reader that starts after the name and goes on from what was read before. -/
def members {α : Type} (lexis : Lexis) (member : String → α → TextReader α) (start : α) :
    TextReader α := do
  mark '{'
  if ← sees '}' then
    mark '}'
    pure start
  else
    let named (before : α) : TextReader α := do
      member (← string lexis) before
    let result ← afterCommas named (← named start)
    mark '}'
    pure result

/-- Adds a member, after its name, to those read before it. -/
def plainMember (inner : TextReader Value) (name : String) (before : List (String × Value)) :
    TextReader (List (String × Value)) := do
  mark ':'
  pure ((name, ← inner) :: before)

/-- An array, an object or a scalar, where the values in it are read by `inner`. -/
def valueBody (lexis : Lexis) (inner : TextReader Value) : TextReader Value := do
  if ← sees '[' then
    return .array (← items inner)
  else if ← sees '{' then
    return .object (← members lexis (plainMember inner) []).reverse
  else
    scalar lexis

/-- A value when no array or object may be opened any more. -/
def flatValue (lexis : Lexis) : TextReader Value := do
  if ← seesContainer then refuse .malformed else scalar lexis

/-- A value when a number of arrays and objects may still be opened. -/
def value (lexis : Lexis) : Nat → TextReader Value
  | 0 => flatValue lexis
  | budget + 1 => .defer fun _ => valueBody lexis (value lexis budget)

/-- Reads an array or object by a reader that is told how many more may be opened
in it; at least one must be left to open. -/
def within {α : Type} (reader : Nat → TextReader α) : Nat → TextReader α
  | 0 => refuse .malformed
  | budget + 1 => reader budget

/-- A scalar that has the wanted form. An array or an object is refused before it
is read, and any other value after that. -/
def scalarAs {α : Type} (form : Value → Option α) : TextReader α := do
  if ← seesContainer then
    refuse .misfit
  else
    fitting (form (← scalar .strict))

/-- Reads a whole text, blanks around the value included. -/
def document {α : Type} (reader : TextReader α) (text : List Char) : Except Failure α :=
  let whole : TextReader α := do
    blanks
    let result ← reader
    if (← Reader.peek).isNone then pure result else refuse .malformed
  (whole.run text).map Prod.fst

end TextReader

/-- The value that a text denotes, where at most a number of arrays and objects
stand one in another. The text is refused at the first one beyond that. -/
def parseWithin (containers : Nat) (text : List Char) : Except Failure Value :=
  TextReader.document (TextReader.value .strict containers) text

/-- How many arrays and objects may stand one in another in a plain value. -/
def containerLimit : Nat := 127

/-- The plain value that a text denotes. -/
def parse (text : List Char) : Except Failure Value :=
  parseWithin containerLimit text

end Json
end ModelEquation
