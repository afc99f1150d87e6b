import ModelEquation.Expr.Grammar

/-!
# Derivations

The grammar of expressions as a relation between tokens and trees, apart from
any reader. Sums and products fold to the left on two levels, signs nest to the
right, calls and index groups apply from left to right, both connectives fold to
the left on one level, and a condition in parentheses is that condition.

The productions alone leave two questions open: whether an operator after a
conditional belongs to its last branch, and whether a bracket after a member
opens the group of that member. The `Ending` of a phrase says which of the two
its last token leaves open. Under the greedy convention the answer is yes both
times; under the free one every derivation counts.
-/

namespace ModelEquation
namespace Expr
namespace Grammar

/-- What the last token of a phrase leaves open. -/
inductive Ending
  | closed
  /-- The phrase ends in a member without a group. -/
  | member
  /-- The phrase ends in the last branch of a conditional. -/
  | branch
  deriving DecidableEq, Repr

/-- Which of the derivations of the same tokens count. -/
inductive Convention
  /-- All of them. -/
  | free
  /-- Those in which a last branch extends as far as it can, and a bracket after
  a member opens the group of that member. -/
  | greedy
  deriving DecidableEq, Repr

namespace Convention

/-- Whether a phrase of the given ending may be the left side of an operator. -/
def admitsOperator : Convention → Ending → Bool
  | .greedy, .branch => false
  | _, _ => true

/-- Whether an index group may be applied to a phrase of the given ending. -/
def admitsBracket : Convention → Ending → Bool
  | .greedy, .member => false
  | _, _ => true

end Convention

/-- An operator may follow everything but a branch. -/
theorem admitsOperator_of_ne
    {ending : Ending}
    (other : ending ≠ .branch) :
    Convention.greedy.admitsOperator ending = true := by
  cases ending with
  | closed => rfl
  | member => rfl
  | branch => contradiction

/-- An index group may follow everything but a bare member. -/
theorem admitsBracket_of_ne
    {ending : Ending}
    (other : ending ≠ .member) :
    Convention.greedy.admitsBracket ending = true := by
  cases ending with
  | closed => rfl
  | member => contradiction
  | branch => rfl

/-- A phrase of the grammar with the tree that it stands for. -/
inductive Phrase
  | expression (ending : Ending) (tree : Expr)
  | term (ending : Ending) (tree : Expr)
  | factor (ending : Ending) (tree : Expr)
  /-- A name or a parenthesis, with the calls and index groups after it. -/
  | primary (ending : Ending) (tree : Expr)
  /-- Expressions with commas between them. -/
  | list (trees : List Expr)
  /-- The members after an index group. -/
  | chain (ending : Ending) (members : List Variable)
  | operand (tree : Expr)
  | condition (tree : Expr)

/-- Tokens form a phrase. The number bounds how many factors and conditions stand
one in another; every larger number will do as well. -/
inductive Derives (convention : Convention) : Nat → Phrase → List Token → Prop
  | ofTerm {depth ending tree tokens}
      (whole : Derives convention depth (.term ending tree) tokens) :
      Derives convention depth (.expression ending tree) tokens
  | sum {depth before after left right front back token operator}
      (first : Derives convention depth (.expression before left) front)
      (admitted : convention.admitsOperator before = true)
      (named : arithmetic? true token = some operator)
      (second : Derives convention depth (.term after right) back) :
      Derives convention depth (.expression after (.binary operator left right))
        (front ++ token :: back)
  | ofFactor {depth ending tree tokens}
      (whole : Derives convention depth (.factor ending tree) tokens) :
      Derives convention depth (.term ending tree) tokens
  | product {depth before after left right front back token operator}
      (first : Derives convention depth (.term before left) front)
      (admitted : convention.admitsOperator before = true)
      (named : arithmetic? false token = some operator)
      (second : Derives convention depth (.factor after right) back) :
      Derives convention depth (.term after (.binary operator left right))
        (front ++ token :: back)
  | number {depth token value}
      (kind : token.kind = .number)
      (denoted : Number.ofText? token.text.toList = some value) :
      Derives convention (depth + 1) (.factor .closed (.number value)) [token]
  | string {depth token}
      (kind : token.kind = .stringLiteral) :
      Derives convention (depth + 1) (.factor .closed (.string token.text)) [token]
  | signed {depth ending tree tokens token operator}
      (kind : token.kind = .operator)
      (named : Sign.ofSymbol? token.text = some operator)
      (operand : Derives convention depth (.factor ending tree) tokens) :
      Derives convention (depth + 1) (.factor ending (.unary operator tree)) (token :: tokens)
  | conditional
      {depth chosen whenTrue whenFalse trueEnding falseEnding}
      {conditionTokens trueTokens falseTokens ifToken thenToken elseToken}
      (ifKind : ifToken.kind = .ifWord)
      (condition : Derives convention depth (.condition chosen) conditionTokens)
      (thenKind : thenToken.kind = .thenWord)
      (first : Derives convention depth (.expression trueEnding whenTrue) trueTokens)
      (elseKind : elseToken.kind = .elseWord)
      (second : Derives convention depth (.expression falseEnding whenFalse) falseTokens) :
      Derives convention (depth + 1) (.factor .branch (.conditional chosen whenTrue whenFalse))
        (ifToken :: conditionTokens ++ thenToken :: trueTokens ++ elseToken :: falseTokens)
  | ofPrimary {depth ending tree tokens}
      (whole : Derives convention depth (.primary ending tree) tokens) :
      Derives convention (depth + 1) (.factor ending tree) tokens
  | name {depth token}
      (kind : token.kind = .identifier) :
      Derives convention depth (.primary .closed (.named token.text)) [token]
  | group {depth ending tree tokens opening closing}
      (openingKind : opening.kind = .leftParenthesis)
      (inner : Derives convention depth (.expression ending tree) tokens)
      (closingKind : closing.kind = .rightParenthesis) :
      Derives convention depth (.primary .closed tree) (opening :: tokens ++ [closing])
  | emptyCall {depth ending callee tokens opening closing}
      (applied : Derives convention depth (.primary ending callee) tokens)
      (openingKind : opening.kind = .leftParenthesis)
      (closingKind : closing.kind = .rightParenthesis) :
      Derives convention depth (.primary .closed (.call callee [])) (tokens ++ [opening, closing])
  | call {depth ending callee arguments tokens argumentTokens opening closing}
      (applied : Derives convention depth (.primary ending callee) tokens)
      (openingKind : opening.kind = .leftParenthesis)
      (inner : Derives convention depth (.list arguments) argumentTokens)
      (closingKind : closing.kind = .rightParenthesis) :
      Derives convention depth (.primary .closed (.call callee arguments))
        (tokens ++ opening :: argumentTokens ++ [closing])
  | index
      {depth before after target indices members}
      {tokens indexTokens memberTokens opening closing}
      (applied : Derives convention depth (.primary before target) tokens)
      (admitted : convention.admitsBracket before = true)
      (openingKind : opening.kind = .leftBracket)
      (inner : Derives convention depth (.list indices) indexTokens)
      (closingKind : closing.kind = .rightBracket)
      (continued : Derives convention depth (.chain after members) memberTokens) :
      Derives convention depth (.primary after (target.indexed indices members))
        (tokens ++ opening :: indexTokens ++ closing :: memberTokens)
  | single {depth ending tree tokens}
      (only : Derives convention depth (.expression ending tree) tokens) :
      Derives convention depth (.list [tree]) tokens
  | append {depth ending trees tree front back comma}
      (before : Derives convention depth (.list trees) front)
      (kind : comma.kind = .comma)
      (last : Derives convention depth (.expression ending tree) back) :
      Derives convention depth (.list (trees ++ [tree])) (front ++ comma :: back)
  | noMember {depth} :
      Derives convention depth (.chain .closed []) []
  | bareMember {depth ending members tokens dot name}
      (before : Derives convention depth (.chain ending members) tokens)
      (dotKind : dot.kind = .dot)
      (nameKind : name.kind = .identifier) :
      Derives convention depth (.chain .member (members ++ [.named name.text]))
        (tokens ++ [dot, name])
  | member {depth ending members arguments tokens argumentTokens dot name opening closing}
      (before : Derives convention depth (.chain ending members) tokens)
      (dotKind : dot.kind = .dot)
      (nameKind : name.kind = .identifier)
      (openingKind : opening.kind = .leftBracket)
      (inner : Derives convention depth (.list arguments) argumentTokens)
      (closingKind : closing.kind = .rightBracket) :
      Derives convention depth (.chain .closed (members ++ [⟨name.text, none, some arguments, []⟩]))
        (tokens ++ dot :: name :: opening :: argumentTokens ++ [closing])
  | comparison {depth leftEnding rightEnding left right front back token operator}
      (first : Derives convention depth (.expression leftEnding left) front)
      (named : comparison? token = some operator)
      (second : Derives convention depth (.expression rightEnding right) back) :
      Derives convention depth (.operand (.compare operator left right)) (front ++ token :: back)
  | conditionGroup {depth tree tokens opening closing}
      (openingKind : opening.kind = .leftParenthesis)
      (inner : Derives convention depth (.condition tree) tokens)
      (closingKind : closing.kind = .rightParenthesis) :
      Derives convention depth (.operand tree) (opening :: tokens ++ [closing])
  | ofOperand {depth tree tokens}
      (whole : Derives convention depth (.operand tree) tokens) :
      Derives convention (depth + 1) (.condition tree) tokens
  | logical {depth left right front back token operator}
      (first : Derives convention (depth + 1) (.condition left) front)
      (named : connective? token = some operator)
      (second : Derives convention depth (.operand right) back) :
      Derives convention (depth + 1) (.condition (.logical operator left right))
        (front ++ token :: back)

/-- Tokens form an expression under a convention, nested however deeply. -/
def Denotes (convention : Convention) (tokens : List Token) (tree : Expr) : Prop :=
  ∃ depth ending, Derives convention depth (.expression ending tree) tokens

namespace Derives

variable {convention wider : Convention} {depth larger : Nat} {phrase : Phrase}
variable {tokens : List Token}

/-- A derivation nests within one more level, under every convention that admits
what its own admits. -/
theorem relax
    (derived : Derives convention depth phrase tokens)
    (operators : ∀ ending,
      convention.admitsOperator ending = true → wider.admitsOperator ending = true)
    (brackets : ∀ ending,
      convention.admitsBracket ending = true → wider.admitsBracket ending = true) :
    Derives wider (depth + 1) phrase tokens := by
  induction derived with
  | ofTerm _ whole => exact .ofTerm whole
  | sum _ admitted named _ first second => exact .sum first (operators _ admitted) named second
  | ofFactor _ whole => exact .ofFactor whole
  | product _ admitted named _ first second =>
      exact .product first (operators _ admitted) named second
  | number kind denoted => exact .number kind denoted
  | string kind => exact .string kind
  | signed kind named _ operand => exact .signed kind named operand
  | conditional ifKind _ thenKind _ elseKind _ condition first second =>
      exact .conditional ifKind condition thenKind first elseKind second
  | ofPrimary _ whole => exact .ofPrimary whole
  | name kind => exact .name kind
  | group openingKind _ closingKind inner => exact .group openingKind inner closingKind
  | emptyCall _ openingKind closingKind applied =>
      exact .emptyCall applied openingKind closingKind
  | call _ openingKind _ closingKind applied inner =>
      exact .call applied openingKind inner closingKind
  | index _ admitted openingKind _ closingKind _ applied inner continued =>
      exact .index applied (brackets _ admitted) openingKind inner closingKind continued
  | single _ only => exact .single only
  | append _ kind _ before last => exact .append before kind last
  | noMember => exact .noMember
  | bareMember _ dotKind nameKind before => exact .bareMember before dotKind nameKind
  | member _ dotKind nameKind openingKind _ closingKind before inner =>
      exact .member before dotKind nameKind openingKind inner closingKind
  | comparison _ named _ first second => exact .comparison first named second
  | conditionGroup openingKind _ closingKind inner =>
      exact .conditionGroup openingKind inner closingKind
  | ofOperand _ whole => exact .ofOperand whole
  | logical _ named _ first second => exact .logical first named second

/-- What is derived within some levels is derived within one more. -/
theorem succ
    (derived : Derives convention depth phrase tokens) :
    Derives convention (depth + 1) phrase tokens :=
  derived.relax (fun _ admitted => admitted) fun _ admitted => admitted

/-- A derivation nests within every larger number of levels. -/
theorem mono
    (derived : Derives convention depth phrase tokens)
    (le : depth ≤ larger) :
    Derives convention larger phrase tokens := by
  induction le with
  | refl => exact derived
  | step _ hypothesis => exact hypothesis.succ

/-- Every derivation is one of the free convention. -/
theorem toFree
    (derived : Derives convention depth phrase tokens) :
    Derives .free (depth + 1) phrase tokens :=
  derived.relax (fun _ _ => rfl) fun _ _ => rfl

end Derives

end Grammar
end Expr
end ModelEquation
