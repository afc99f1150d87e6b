import ModelEquation.Expr.Basic
import ModelEquation.Expr.Fault
import ModelEquation.Reader

/-!
# Grammar of expressions

The productions of the grammar as readers of tokens. Sums and products fold to
the left, signs nest to the right, calls and index groups apply from left to
right, and both connectives share one precedence. A parenthesis at the start of a
condition holds either a condition or an operand of a comparison; what is found
in it decides.

Nesting is bounded in two ways. Every factor and every condition group enters a
level, of which there are as many as the limit. Every node that is built must not
be taller than the limit.
-/

namespace ModelEquation
namespace Expr
namespace Grammar

/-- A reader of tokens. -/
abbrev Production := Reader Token Failure

/-- An expression that was read, with its height. -/
structure Built where
  expression : Expr
  height : Nat

/-- What stands where a condition may stand: a condition, or an expression that
no comparison follows. -/
inductive Operand
  | condition (built : Built)
  | expression (built : Built)

/-- The readers of the next level of nesting. -/
structure Level where
  factor : Production Built
  operand : Production Operand

/-- Fails at the next token, where something else was expected. -/
def unexpected {α : Type} (expected : Expectation) : Production α :=
  .fail fun remaining => ⟨.unexpected expected, remaining⟩

/-- Fails because nesting exceeds the limit. -/
def tooDeep {α : Type} : Production α :=
  .fail fun remaining => ⟨.tooDeep, remaining⟩

/-- Takes a token of the given kind and returns its lexeme. -/
def expect (kind : Token.Kind) : Production String := do
  match ← Reader.peek with
  | some token =>
      if token.kind = kind then
        Reader.skip
        pure token.text
      else
        unexpected (.token kind)
  | none => unexpected (.token kind)

/-- Whether the next token has the given kind. -/
def sees (kind : Token.Kind) : Production Bool := do
  pure ((← Reader.peek).any fun token => token.kind = kind)

/-- A node without parts. -/
def leaf (expression : Expr) : Built :=
  ⟨expression, 1⟩

/-- A node above parts of the given height, unless it exceeds the limit. -/
def grow (limit : Nat) (below : Nat) (expression : Expr) : Production Built :=
  if below + 1 ≤ limit then pure ⟨expression, below + 1⟩ else tooDeep

/-- The arithmetic operator of a token, of the additive ones or of the others. -/
def arithmetic? (additive : Bool) (token : Token) : Option Arithmetic :=
  if token.kind = .operator then
    (Arithmetic.ofSymbol? token.text).filter fun operator => operator.isAdditive = additive
  else
    none

/-- The comparison of a token. -/
def comparison? (token : Token) : Option Comparison :=
  if token.kind = .comparison then Comparison.ofSymbol? token.text else none

/-- The connective of a token. -/
def connective? (token : Token) : Option Connective :=
  match token.kind with
  | .andWord => some .and
  | .orWord => some .or
  | _ => none

/-- Further operands of one precedence, folded to the left. -/
def folded
    (limit : Nat)
    (additive : Bool)
    (operand : Production Built) :
    Built → Production Built :=
  Reader.extend fun token =>
    (arithmetic? additive token).map fun operator left => do
      let right ← operand
      grow limit (max left.height right.height) (.binary operator left.expression right.expression)

/-- The rest of a product whose first factor has been read. -/
def termFrom (limit : Nat) (level : Level) (first : Built) : Production Built :=
  folded limit false level.factor first

/-- A factor, or factors with `*` and `/` between them. -/
def term (limit : Nat) (level : Level) : Production Built := do
  termFrom limit level (← level.factor)

/-- The rest of a sum whose first term has been read. -/
def expressionFrom (limit : Nat) (level : Level) (first : Built) : Production Built :=
  folded limit true (term limit level) first

/-- A term, or terms with `+` and `-` between them. -/
def expression (limit : Nat) (level : Level) : Production Built := do
  expressionFrom limit level (← term limit level)

/-- Expressions that were read one after the other, with the greatest height. -/
structure Listed where
  expressions : List Expr
  height : Nat

/-- Adds an expression at the end of a list. -/
def Listed.append (listed : Listed) (built : Built) : Listed :=
  ⟨listed.expressions ++ [built.expression], max listed.height built.height⟩

/-- One or more expressions with commas between them. -/
def expressionList (limit : Nat) (level : Level) : Production Listed := do
  let first ← expression limit level
  Reader.extend
    (fun token =>
      if token.kind = .comma then
        some fun listed => do
          pure (listed.append (← expression limit level))
      else
        none)
    ⟨[first.expression], first.height⟩

/-- Members of a chain that were read one after the other, with the greatest
height. -/
structure Chain where
  members : List Variable
  height : Nat

/-- The member after a dot: a name and an optional group in brackets. -/
def member (limit : Nat) (level : Level) (chain : Chain) : Production Chain := do
  let name ← expect .identifier
  if ← sees .leftBracket then
    Reader.skip
    let listed ← expressionList limit level
    let _ ← expect .rightBracket
    pure ⟨chain.members ++ [⟨name, none, some listed.expressions, []⟩],
      max chain.height (listed.height + 1)⟩
  else
    pure ⟨chain.members ++ [.named name], max chain.height 1⟩

/-- The members that follow an index group. -/
def memberChain (limit : Nat) (level : Level) : Production Chain :=
  Reader.extend (fun token => if token.kind = .dot then some (member limit level) else none) ⟨[], 0⟩

/-- The arguments of a call, after the opening parenthesis. -/
def call (limit : Nat) (level : Level) (callee : Built) : Production Built := do
  let listed ←
    if ← sees .rightParenthesis then pure ⟨[], 0⟩ else expressionList limit level
  let _ ← expect .rightParenthesis
  grow limit (max callee.height listed.height) (.call callee.expression listed.expressions)

/-- An index group, after the opening bracket, and the members after it. -/
def index (limit : Nat) (level : Level) (target : Built) : Production Built := do
  let listed ← expressionList limit level
  let _ ← expect .rightBracket
  let chain ← memberChain limit level
  grow limit (max (max target.height listed.height) chain.height)
    (target.expression.indexed listed.expressions chain.members)

/-- The calls and index groups that follow an expression, from left to right. -/
def postfixed (limit : Nat) (level : Level) : Built → Production Built :=
  Reader.extend fun token =>
    match token.kind with
    | .leftParenthesis => some (call limit level)
    | .leftBracket => some (index limit level)
    | _ => none

/-- Refuses an expression where a condition must stand. -/
def condition : Operand → Production Built
  | .condition built => pure built
  | .expression _ => unexpected .comparison

/-- A comparison whose left side has been read, or that side alone. -/
def comparisonFrom (limit : Nat) (level : Level) (left : Built) : Production Operand := do
  match (← Reader.peek).bind comparison? with
  | none => pure (.expression left)
  | some operator =>
      Reader.skip
      let right ← expression limit level
      let built ← grow limit (max left.height right.height)
        (.compare operator left.expression right.expression)
      pure (.condition built)

/-- A comparison, a condition in parentheses, or an expression alone. -/
def conditionOperand (limit : Nat) (level : Level) : Production Operand := do
  if ← sees .leftParenthesis then
    Reader.skip
    let inner ← level.operand
    let _ ← expect .rightParenthesis
    match inner with
    | .condition built => pure (.condition built)
    | .expression built =>
        let factor ← postfixed limit level built
        let product ← termFrom limit level factor
        comparisonFrom limit level (← expressionFrom limit level product)
  else
    comparisonFrom limit level (← expression limit level)

/-- Further conditions, folded to the left. -/
def logical (limit : Nat) (level : Level) : Built → Production Built :=
  Reader.extend fun token =>
    (connective? token).map fun operator left => do
      let right ← condition (← conditionOperand limit level)
      grow limit (max left.height right.height) (.logical operator left.expression right.expression)

/-- Operands of a condition with `and` and `or` between them, or one operand
alone. -/
def operandBody (limit : Nat) (level : Level) : Production Operand := do
  let first ← conditionOperand limit level
  match (← Reader.peek).bind connective? with
  | none => pure first
  | some _ =>
      let left ← condition first
      pure (.condition (← logical limit level left))

/-- A conditional expression; its last branch extends as far as it can. -/
def conditional (limit : Nat) (level : Level) : Production Built := do
  let _ ← expect .ifWord
  let chosen ← condition (← level.operand)
  let _ ← expect .thenWord
  let whenTrue ← expression limit level
  let _ ← expect .elseWord
  let whenFalse ← expression limit level
  grow limit (max (max chosen.height whenTrue.height) whenFalse.height)
    (.conditional chosen.expression whenTrue.expression whenFalse.expression)

/-- A sign and the factor after it. -/
def signed (limit : Nat) (level : Level) (operator : Sign) : Production Built := do
  Reader.skip
  let operand ← level.factor
  grow limit operand.height (.unary operator operand.expression)

/-- An expression in parentheses and what follows it. -/
def grouped (limit : Nat) (level : Level) : Production Built := do
  Reader.skip
  let inner ← expression limit level
  let _ ← expect .rightParenthesis
  postfixed limit level inner

/-- One operand of a product, within a level. -/
def factorBody (limit : Nat) (level : Level) : Production Built := do
  match ← Reader.peek with
  | none => unexpected .expression
  | some token =>
      match token.kind with
      | .operator =>
          match Sign.ofSymbol? token.text with
          | none => unexpected .expression
          | some operator => signed limit level operator
      | .leftParenthesis => grouped limit level
      | .number =>
          match Number.ofText? token.text.toList with
          | none => unexpected .finiteNumber
          | some value =>
              Reader.skip
              pure (leaf (.number value))
      | .stringLiteral =>
          Reader.skip
          pure (leaf (.string token.text))
      | .ifWord => conditional limit level
      | .identifier =>
          Reader.skip
          postfixed limit level (leaf (.named token.text))
      | _ => unexpected .expression

/-- The readers of factors and of condition operands when a number of levels may
still be entered. -/
def level (limit : Nat) : Nat → Level
  | 0 => ⟨tooDeep, tooDeep⟩
  | budget + 1 =>
      { factor := .defer fun _ => factorBody limit (level limit budget)
        operand := .defer fun _ => operandBody limit (level limit budget) }

/-- One expression that takes all the tokens. -/
def wholeExpression (limit : Nat) : Production Built := do
  let built ← expression limit (level limit limit)
  match ← Reader.peek with
  | none => pure built
  | some _ => unexpected .endOfInput

end Grammar
end Expr
end ModelEquation
