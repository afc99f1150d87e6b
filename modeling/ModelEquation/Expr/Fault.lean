import ModelEquation.Token.Cursor

/-!
# Faults of expressions

Reading an expression stops at the first fault: a character that starts no token,
a token that cannot stand where it stands, or nesting beyond the limit. While
tokens are read a fault is a `Failure`, which keeps the tokens that are left;
`Failure.located` turns them into a byte position.
-/

namespace ModelEquation
namespace Expr

/-- What was expected where a token could not stand. -/
inductive Expectation
  | token (kind : Token.Kind)
  /-- The start of an operand. -/
  | expression
  /-- A comparison that completes a condition. -/
  | comparison
  | endOfInput
  /-- A literal that denotes a finite number. -/
  | finiteNumber
  deriving DecidableEq, Repr

namespace Expectation

/-- The words by which a message names what was expected. -/
def description : Expectation → String
  | .token kind => kind.description
  | .expression => "expression"
  | .comparison => "comparison operator"
  | .endOfInput => "end of input"
  | .finiteNumber => "finite number"

end Expectation

/-- Why tokens could not be read on. -/
inductive Reason
  | unexpected (expected : Expectation)
  | tooDeep
  deriving DecidableEq, Repr

/-- A reason together with the tokens that were left. -/
structure Failure where
  reason : Reason
  remaining : List Token
  deriving DecidableEq, Repr

/-- A fault of the text of an expression. -/
inductive Fault
  | lexical (fault : Token.Fault)
  /-- The position is that of the token found, or of the end of the input. -/
  | unexpected (expected : Expectation) (found : Option Token) (position : Nat)
  | tooDeep (limit : Nat) (position : Nat)
  deriving DecidableEq, Repr

/-- The fault of a failure, given the limit on nesting and the position of the
end of the input. -/
def Failure.located (limit finish : Nat) (failure : Failure) : Fault :=
  let position := (failure.remaining.head?.map Token.position).getD finish
  match failure.reason with
  | .unexpected expected => .unexpected expected failure.remaining.head? position
  | .tooDeep => .tooDeep limit position

namespace Fault

/-- The message that reports a fault. -/
def message : Fault → String
  | .lexical fault => fault.message
  | .unexpected expected (some token) position =>
      "Expected " ++ expected.description ++ ", got '" ++ token.text ++ "' at position " ++
        toString position
  | .unexpected expected none position =>
      "Expected " ++ expected.description ++ ", got end of input at position " ++
        toString position
  | .tooDeep limit position =>
      "Nesting deeper than " ++ toString limit ++ " levels at position " ++ toString position

/-- The byte position that a fault points at. -/
def position : Fault → Nat
  | .lexical fault => fault.position
  | .unexpected _ _ position => position
  | .tooDeep _ position => position

/-- The fault in a text that has a number of bytes put before it. -/
def shifted (offset : Nat) : Fault → Fault
  | .lexical fault => .lexical (fault.shifted offset)
  | .unexpected expected found position =>
      .unexpected expected (found.map (Token.shifted offset)) (position + offset)
  | .tooDeep limit position => .tooDeep limit (position + offset)

end Fault
end Expr
end ModelEquation
