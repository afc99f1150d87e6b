import ModelEquation.Text.Width

/-!
# Tokens

A token is a lexeme with its kind and the byte offset at which it starts.
Arithmetic operators share one kind and comparisons another; the lexeme tells
them apart.
-/

namespace ModelEquation

/-- Lexical category of a token. -/
inductive Token.Kind
  | number
  | operator
  | leftParenthesis
  | rightParenthesis
  | leftBracket
  | rightBracket
  | comma
  | ifWord
  | thenWord
  | elseWord
  | comparison
  | andWord
  | orWord
  | notWord
  | identifier
  | stringLiteral
  | dot
  deriving DecidableEq, Repr

/-- A lexeme together with its kind and its byte offset in the source text. -/
structure Token where
  kind : Token.Kind
  text : String
  position : Nat
  deriving DecidableEq, Repr

namespace Token

/-- Byte offset just past the end of the lexeme. -/
def finish (token : Token) : Nat :=
  token.position + Text.byteLength token.text.toList

/-- The token at a place that lies further on by a number of bytes. -/
def shifted (offset : Nat) (token : Token) : Token :=
  { token with position := token.position + offset }

namespace Kind

/-- Every kind, in the order in which the documentation lists them. -/
def all : List Kind :=
  [.number, .operator, .leftParenthesis, .rightParenthesis, .leftBracket,
    .rightBracket, .comma, .ifWord, .thenWord, .elseWord, .comparison, .andWord,
    .orWord, .notWord, .identifier, .stringLiteral, .dot]

/-- The name under which a kind is written in structured output. -/
def name : Kind → String
  | .number => "Number"
  | .operator => "Operator"
  | .leftParenthesis => "LParen"
  | .rightParenthesis => "RParen"
  | .leftBracket => "LBracket"
  | .rightBracket => "RBracket"
  | .comma => "Comma"
  | .ifWord => "KeywordIf"
  | .thenWord => "KeywordThen"
  | .elseWord => "KeywordElse"
  | .comparison => "Compare"
  | .andWord => "And"
  | .orWord => "Or"
  | .notWord => "Not"
  | .identifier => "Identifier"
  | .stringLiteral => "StringLiteral"
  | .dot => "Dot"

/-- The kind that a name of structured output stands for. -/
def ofName? (text : String) : Option Kind :=
  all.find? fun kind => kind.name == text

/-- The words by which a message names a kind. -/
def description : Kind → String
  | .number => "number"
  | .operator => "operator"
  | .leftParenthesis => "'('"
  | .rightParenthesis => "')'"
  | .leftBracket => "'['"
  | .rightBracket => "']'"
  | .comma => "','"
  | .ifWord => "'if'"
  | .thenWord => "'then'"
  | .elseWord => "'else'"
  | .comparison => "comparison operator"
  | .andWord => "'and'"
  | .orWord => "'or'"
  | .notWord => "'not'"
  | .identifier => "identifier"
  | .stringLiteral => "string literal"
  | .dot => "'.'"

@[simp] theorem ofName?_name (kind : Kind) : ofName? kind.name = some kind := by
  cases kind <;> rfl

end Kind

end Token
end ModelEquation
