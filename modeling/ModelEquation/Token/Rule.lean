import ModelEquation.Token.Basic
import ModelEquation.Token.Pattern

/-!
# Lexical rules

The rules are tried in a fixed order and the first one that applies decides the
next lexeme. Numbers come before names, words before names, and comparison
symbols of two characters before those of one. A word gives way to a name where
a dot follows, so that `then.x` stays one dotted name.
-/

namespace ModelEquation
namespace Token

/-- What becomes of a lexeme. -/
inductive Action
  /-- The lexeme is a token of this kind. -/
  | emit (kind : Kind)
  /-- The lexeme is a token of this kind unless a dot follows it. -/
  | word (kind : Kind)
  /-- The lexeme separates tokens and is dropped. -/
  | skip
  deriving DecidableEq, Repr

namespace Action

/-- The kind of the token that a lexeme becomes, if it becomes one. -/
def kind? : Action → Option Kind
  | .emit kind => some kind
  | .word kind => some kind
  | .skip => none

end Action

/-- A lexical rule: a class of lexemes and what becomes of them. -/
structure Rule where
  action : Action
  pattern : Pattern

namespace Rule

/-- Whether a text starts with a dot. -/
def startsWithDot : List Char → Bool
  | '.' :: _ => true
  | _ => false

/-- Number of characters that the rule takes from the front of a text. -/
def measure? (rule : Rule) (text : List Char) : Option Nat :=
  match rule.action with
  | .word _ => (rule.pattern.measure text).filter fun length => !startsWithDot (text.drop length)
  | _ => rule.pattern.measure text

/-- The rules in the order in which they are tried. -/
def table : List Rule :=
  [⟨.emit .number, .number⟩,
    ⟨.emit .operator, .single ['+', '-', '*', '/']⟩,
    ⟨.emit .leftParenthesis, .single ['(']⟩,
    ⟨.emit .rightParenthesis, .single [')']⟩,
    ⟨.emit .leftBracket, .single ['[']⟩,
    ⟨.emit .rightBracket, .single [']']⟩,
    ⟨.emit .comma, .single [',']⟩,
    ⟨.word .ifWord, .word 'i' ['f']⟩,
    ⟨.word .thenWord, .word 't' ['h', 'e', 'n']⟩,
    ⟨.word .elseWord, .word 'e' ['l', 's', 'e']⟩,
    ⟨.skip, .blanks⟩,
    ⟨.emit .comparison, .comparison⟩,
    ⟨.word .andWord, .word 'a' ['n', 'd']⟩,
    ⟨.word .orWord, .word 'o' ['r']⟩,
    ⟨.word .notWord, .word 'n' ['o', 't']⟩,
    ⟨.emit .identifier, .name⟩,
    ⟨.emit .stringLiteral, .quoted⟩,
    ⟨.emit .dot, .single ['.']⟩]

/-- The first rule that applies at the front of a text, as its action and the
number of characters that it takes. -/
def choose? (text : List Char) : Option (Action × Nat) :=
  table.findSome? fun rule => (rule.measure? text).map fun length => (rule.action, length)

/-- A rule that applies takes at least one character. -/
theorem positive_of_measure?
    {rule : Rule}
    {text : List Char}
    {length : Nat}
    (measured : rule.measure? text = some length) :
    0 < length := by
  unfold measure? at measured
  split at measured
  · exact rule.pattern.positive (Option.filter_eq_some_iff.mp measured).1
  · exact rule.pattern.positive measured

/-- The chosen lexeme has at least one character. -/
theorem positive_of_choose?
    {text : List Char}
    {action : Action}
    {length : Nat}
    (chosen : choose? text = some (action, length)) :
    0 < length := by
  obtain ⟨rule, _, applies⟩ := List.exists_of_findSome?_eq_some chosen
  obtain ⟨measured, found, same⟩ := Option.map_eq_some_iff.mp applies
  cases same
  exact positive_of_measure? found

end Rule
end Token
end ModelEquation
