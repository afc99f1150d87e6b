import ModelEquation.Text.Blank
import ModelEquation.Text.WordCharacter

/-!
# Lexeme patterns

A pattern measures how many characters at the front of a text form one lexeme
of its class. The classes of characters are ASCII, except that a word ends
where no word character of any script follows.
-/

namespace ModelEquation
namespace Token

/-- A class of lexemes: the number of characters that the lexeme at the front
of a text has, if there is one. A lexeme is never empty. -/
structure Pattern where
  measure : List Char → Option Nat
  positive : ∀ {text : List Char} {length : Nat}, measure text = some length → 0 < length

namespace Pattern

/-- Number of decimal digits at the front of a text. -/
def digitCount (text : List Char) : Nat :=
  (text.takeWhile Char.isDigit).length

/-- Length of a fraction: a point and any digits after it. -/
def fractionLength : List Char → Nat
  | '.' :: rest => 1 + digitCount rest
  | _ => 0

/-- Length of an optional sign. -/
def signLength : List Char → Nat
  | '+' :: _ => 1
  | '-' :: _ => 1
  | _ => 0

/-- Length of an exponent: a mark, an optional sign and at least one digit. -/
def exponentLength : List Char → Nat
  | [] => 0
  | mark :: rest =>
      let sign := signLength rest
      let digits := digitCount (rest.drop sign)
      if (mark == 'e' || mark == 'E') && digits != 0 then 1 + sign + digits else 0

/-- Digits, then an optional fraction, then an optional exponent. -/
def number : Pattern where
  measure text :=
    let whole := digitCount text
    let fraction := fractionLength (text.drop whole)
    let exponent := exponentLength (text.drop (whole + fraction))
    if whole = 0 then none else some (whole + fraction + exponent)
  positive := by
    intro text length measured
    dsimp only at measured
    split at measured
    · contradiction
    · cases measured
      omega

/-- One character out of a list. -/
def single (members : List Char) : Pattern where
  measure
    | [] => none
    | character :: _ => if members.contains character then some 1 else none
  positive := by
    intro text length measured
    split at measured
    · contradiction
    · split at measured <;> simp_all
      omega

/-- A comparison symbol; the symbols of two characters come first. -/
def comparison : Pattern where
  measure
    | '>' :: '=' :: _ => some 2
    | '<' :: '=' :: _ => some 2
    | '=' :: '=' :: _ => some 2
    | '!' :: '=' :: _ => some 2
    | '>' :: _ => some 1
    | '<' :: _ => some 1
    | _ => none
  positive := by
    intro text length measured
    split at measured <;> simp_all <;> omega

/-- Whether a text continues with a word character. -/
def continuesWord : List Char → Bool
  | [] => false
  | character :: _ => Text.isWordCharacter character

/-- The given letters, where no word character follows them. -/
def word (first : Char) (others : List Char) : Pattern where
  measure text :=
    let length := others.length + 1
    if (first :: others).isPrefixOf text && !continuesWord (text.drop length) then
      some length
    else
      none
  positive := by
    intro text length measured
    dsimp only at measured
    split at measured <;> simp_all
    omega

/-- A letter or underscore of the ASCII range. -/
def isNameStart (character : Char) : Bool :=
  character.isAlpha || character == '_'

/-- A character that continues a dotted name. -/
def isNamePart (character : Char) : Bool :=
  character.isAlphanum || character == '_' || character == '.'

/-- A dotted name: a letter or underscore, then letters, digits, underscores and
dots. -/
def name : Pattern where
  measure
    | [] => none
    | first :: rest =>
        if isNameStart first then some (1 + (rest.takeWhile isNamePart).length) else none
  positive := by
    intro text length measured
    split at measured
    · contradiction
    · split at measured <;> simp_all
      omega

/-- A quoted text: a double quote, characters other than it, and the next double
quote. -/
def quoted : Pattern where
  measure
    | '"' :: rest =>
        let body := (rest.takeWhile (· != '"')).length
        if body < rest.length then some (body + 2) else none
    | _ => none
  positive := by
    intro text length measured
    split at measured
    · dsimp only at measured
      split at measured <;> simp_all
      omega
    · contradiction

/-- A run of blanks. -/
def blanks : Pattern where
  measure text :=
    let length := (text.takeWhile Text.isBlank).length
    if length = 0 then none else some length
  positive := by
    intro text length measured
    dsimp only at measured
    split at measured
    · contradiction
    · cases measured
      omega

end Pattern
end Token
end ModelEquation
