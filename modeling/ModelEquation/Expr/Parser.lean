import ModelEquation.Expr.Grammar
import ModelEquation.Options

/-!
# Reading expressions

`Expr.ofTokens` reads a list of tokens, of a text or made by hand, as one
expression; `Expr.parse` reads a text.
-/

namespace ModelEquation
namespace Expr

/-- The expression that all the tokens together form, or the first failure. -/
def read (options : Options) (tokens : List Token) : Except Failure Expr :=
  ((Grammar.wholeExpression options.maxDepth).run tokens).map fun (built, _) => built.expression

/-- The expression that tokens form, where the input ends at a byte position. -/
def ofTokensUntil
    (options : Options)
    (finish : Nat)
    (tokens : List Token) :
    Except Fault Expr :=
  (read options tokens).mapError (Failure.located options.maxDepth finish)

theorem ofTokensUntil_of_read_ok
    {options : Options}
    {tokens : List Token}
    {tree : Expr}
    (finish : Nat)
    (success : read options tokens = .ok tree) :
    ofTokensUntil options finish tokens = .ok tree := by
  rw [ofTokensUntil, success]
  rfl

theorem ofTokensUntil_of_read_error
    {options : Options}
    {tokens : List Token}
    {failure : Failure}
    (finish : Nat)
    (refused : read options tokens = .error failure) :
    ofTokensUntil options finish tokens = .error (failure.located options.maxDepth finish) := by
  rw [ofTokensUntil, refused]
  rfl

/-- The expression that tokens form. The input ends where the last token does. -/
def ofTokens (options : Options) (tokens : List Token) : Except Fault Expr :=
  ofTokensUntil options ((tokens.getLast?.map Token.finish).getD 0) tokens

/-- The expression that a text denotes. -/
def parse (options : Options) (text : List Char) : Except Fault Expr :=
  match Token.tokenize text with
  | .error fault => .error (.lexical fault)
  | .ok tokens => ofTokensUntil options (Text.byteLength text) tokens

end Expr
end ModelEquation
