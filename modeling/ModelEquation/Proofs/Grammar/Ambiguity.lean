import ModelEquation.Proofs.Grammar.Derivation

/-!
# Ambiguity

Two conventions settle what the productions leave open, and neither refuses any
tokens. An operator after a last branch moves into that branch, together with its
right side. A bracket after a member becomes the group of that member, and the
members after the bracket join its chain. So tokens that form a phrase in any way
form one of the same sort in the greedy way.
-/

namespace ModelEquation
namespace Expr
namespace Grammar

/-- An operator with its right side, as a sum or a product goes on. -/
inductive Continuation (depth : Nat) (token : Token) (tokens : List Token) : Bool → Prop
  | sum {ending right operator}
      (named : arithmetic? true token = some operator)
      (derived : Derives .greedy depth (.term ending right) tokens) :
      Continuation depth token tokens true
  | product {ending right operator}
      (named : arithmetic? false token = some operator)
      (derived : Derives .greedy depth (.factor ending right) tokens) :
      Continuation depth token tokens false

/-- What a phrase becomes when an operator and its right side follow it. An
expression takes every operator; a term takes those of a product, and otherwise,
like a factor, leaves them to its last branch. No primary expression and no member
ends in a branch. -/
def Absorbs (depth : Nat) (tokens : List Token) : Phrase → Prop
  | .expression _ _ =>
      ∀ {more token back additive}, Continuation more token back additive →
        ∃ ending tree,
          Derives .greedy (depth + more) (.expression ending tree) (tokens ++ token :: back)
  | .term ending _ =>
      ∀ {more token back additive}, Continuation more token back additive →
        additive = false ∨ ending = .branch →
        ∃ ending tree,
          Derives .greedy (depth + more) (.term ending tree) (tokens ++ token :: back)
  | .factor ending _ =>
      ∀ {more token back additive}, Continuation more token back additive →
        ending = .branch →
        ∃ ending tree,
          Derives .greedy (depth + more) (.factor ending tree) (tokens ++ token :: back)
  | .primary ending _ => ending ≠ .branch
  | .chain ending _ => ending ≠ .branch
  | .list _ | .operand _ | .condition _ => True

/-- A greedy derivation goes on with an operator by moving it into the last branch. -/
theorem Derives.absorbs
    {depth : Nat}
    {phrase : Phrase}
    {tokens : List Token}
    (derived : Derives .greedy depth phrase tokens) :
    Absorbs depth tokens phrase := by
  induction derived with
  | @ofTerm _ ending _ _ whole hypothesis =>
      intro more token back additive continuation
      by_cases moves : additive = false ∨ ending = .branch
      · obtain ⟨ending, tree, term⟩ := hypothesis continuation moves
        exact ⟨ending, tree, .ofTerm term⟩
      · cases continuation with
        | product => simp at moves
        | sum named right =>
            have admitted := admitsOperator_of_ne fun branch => moves (.inr branch)
            exact ⟨_, _, .sum (.ofTerm (whole.mono (Nat.le_add_right _ _))) admitted named
              (right.mono (Nat.le_add_left _ _))⟩
  | @sum _ _ ending _ _ _ _ _ _ first admitted named second _ hypothesis =>
      intro more token back additive continuation
      by_cases moves : additive = false ∨ ending = .branch
      · obtain ⟨ending, tree, term⟩ := hypothesis continuation moves
        rw [List.append_assoc]
        exact ⟨ending, _, .sum (first.mono (Nat.le_add_right _ _)) admitted named term⟩
      · cases continuation with
        | product => simp at moves
        | sum further right =>
            have whole := Derives.sum first admitted named second
            have admitted := admitsOperator_of_ne fun branch => moves (.inr branch)
            exact ⟨_, _, .sum (whole.mono (Nat.le_add_right _ _)) admitted further
              (right.mono (Nat.le_add_left _ _))⟩
  | @ofFactor _ ending _ _ whole hypothesis =>
      intro more token back additive continuation moves
      by_cases branch : ending = .branch
      · obtain ⟨ending, tree, factor⟩ := hypothesis continuation branch
        exact ⟨ending, tree, .ofFactor factor⟩
      · cases continuation with
        | sum => simp [branch] at moves
        | product named right =>
            exact ⟨_, _, .product (.ofFactor (whole.mono (Nat.le_add_right _ _)))
              (admitsOperator_of_ne branch) named (right.mono (Nat.le_add_left _ _))⟩
  | @product _ _ ending _ _ _ _ _ _ first admitted named second _ hypothesis =>
      intro more token back additive continuation moves
      by_cases branch : ending = .branch
      · obtain ⟨ending, tree, factor⟩ := hypothesis continuation branch
        rw [List.append_assoc]
        exact ⟨ending, _, .product (first.mono (Nat.le_add_right _ _)) admitted named factor⟩
      · cases continuation with
        | sum => simp [branch] at moves
        | product further right =>
            have whole := Derives.product first admitted named second
            exact ⟨_, _, .product (whole.mono (Nat.le_add_right _ _))
              (admitsOperator_of_ne branch) further (right.mono (Nat.le_add_left _ _))⟩
  | number | string | name | group | emptyCall | call | noMember | bareMember | member =>
      simp [Absorbs]
  | signed kind named _ hypothesis =>
      intro more token back additive continuation branch
      obtain ⟨ending, tree, operand⟩ := hypothesis continuation branch
      rw [Nat.add_right_comm]
      exact ⟨ending, _, .signed kind named operand⟩
  | conditional ifKind condition thenKind first elseKind _ _ _ hypothesis =>
      intro more token back additive continuation _
      obtain ⟨ending, tree, second⟩ := hypothesis continuation
      rw [Nat.add_right_comm, List.append_assoc]
      exact ⟨.branch, _, .conditional ifKind (condition.mono (Nat.le_add_right _ _)) thenKind
        (first.mono (Nat.le_add_right _ _)) elseKind second⟩
  | ofPrimary _ hypothesis =>
      intro more token back additive continuation branch
      exact absurd branch hypothesis
  | index _ _ _ _ _ _ _ _ hypothesis => exact hypothesis
  | single | append | comparison | conditionGroup | ofOperand | logical => trivial

/-! ## Brackets after a member -/

/-- The members of a second chain join the first one. -/
theorem Derives.chain_append
    {depth : Nat}
    {before after : Ending}
    {front back : List Variable}
    {frontTokens backTokens : List Token}
    (first : Derives .greedy depth (.chain before front) frontTokens)
    (second : Derives .greedy depth (.chain after back) backTokens) :
    ∃ ending,
      Derives .greedy depth (.chain ending (front ++ back)) (frontTokens ++ backTokens) := by
  generalize phrase : Phrase.chain after back = joined at second
  induction second generalizing after back with
  | noMember =>
      cases phrase
      exact ⟨before, by simpa using first⟩
  | bareMember _ dotKind nameKind hypothesis =>
      cases phrase
      obtain ⟨ending, derived⟩ := hypothesis first rfl
      exact ⟨.member, by simpa using derived.bareMember dotKind nameKind⟩
  | member _ dotKind nameKind openingKind inner closingKind hypothesis _ =>
      cases phrase
      obtain ⟨ending, derived⟩ := hypothesis first rfl
      exact ⟨.closed, by
        simpa using derived.member dotKind nameKind openingKind inner closingKind⟩
  | _ => contradiction

/-- A bracket after the last member opens the group of that member. -/
theorem Derives.absorbs_bracket
    {depth : Nat}
    {after : Ending}
    {target : Expr}
    {indices : List Expr}
    {members : List Variable}
    {tokens indexTokens memberTokens : List Token}
    {opening closing : Token}
    (applied : Derives .greedy depth (.primary .member target) tokens)
    (openingKind : opening.kind = .leftBracket)
    (inner : Derives .greedy depth (.list indices) indexTokens)
    (closingKind : closing.kind = .rightBracket)
    (continued : Derives .greedy depth (.chain after members) memberTokens) :
    ∃ ending tree, Derives .greedy depth (.primary ending tree)
      (tokens ++ opening :: indexTokens ++ closing :: memberTokens) := by
  generalize phrase : Phrase.primary .member target = primary at applied
  cases applied with
  | index base admitted baseOpening baseInner baseClosing chain =>
      cases phrase
      cases chain with
      | bareMember before dotKind nameKind =>
          obtain ⟨ending, chain⟩ :=
            (before.member dotKind nameKind openingKind inner closingKind).chain_append continued
          have whole := Derives.index base admitted baseOpening baseInner baseClosing chain
          simp only [List.append_assoc, List.cons_append, List.nil_append] at whole ⊢
          exact ⟨ending, _, whole⟩
  | _ => cases phrase

/-! ## The greedy language -/

/-- The sorts of phrases. -/
inductive Category
  | expression
  | term
  | factor
  | primary
  | list
  | chain
  | operand
  | condition

/-- The sort of a phrase. -/
def Phrase.category : Phrase → Category
  | .expression _ _ => .expression
  | .term _ _ => .term
  | .factor _ _ => .factor
  | .primary _ _ => .primary
  | .list _ => .list
  | .chain _ _ => .chain
  | .operand _ => .operand
  | .condition _ => .condition

/-- The tokens form a phrase of the sort in the greedy way. -/
def Recognized : Category → List Token → Prop
  | .expression, tokens =>
      ∃ depth ending tree, Derives .greedy depth (.expression ending tree) tokens
  | .term, tokens => ∃ depth ending tree, Derives .greedy depth (.term ending tree) tokens
  | .factor, tokens => ∃ depth ending tree, Derives .greedy depth (.factor ending tree) tokens
  | .primary, tokens => ∃ depth ending tree, Derives .greedy depth (.primary ending tree) tokens
  | .list, tokens => ∃ depth trees, Derives .greedy depth (.list trees) tokens
  | .chain, tokens => ∃ depth ending members, Derives .greedy depth (.chain ending members) tokens
  | .operand, tokens => ∃ depth tree, Derives .greedy depth (.operand tree) tokens
  | .condition, tokens => ∃ depth tree, Derives .greedy depth (.condition tree) tokens

/-- Two derivations nest within the same number of levels. -/
theorem Derives.align
    {convention : Convention}
    {depth more : Nat}
    {phrase other : Phrase}
    {tokens others : List Token}
    (first : Derives convention depth phrase tokens)
    (second : Derives convention more other others) :
    ∃ common, Derives convention common phrase tokens ∧ Derives convention common other others :=
  ⟨depth + more, first.mono (Nat.le_add_right _ _), second.mono (Nat.le_add_left _ _)⟩

namespace Recognized

variable {tokens front back : List Token} {token : Token}

theorem ofTerm (whole : Recognized .term tokens) : Recognized .expression tokens := by
  obtain ⟨depth, ending, tree, term⟩ := whole
  exact ⟨depth, ending, tree, .ofTerm term⟩

/-- A left side that ends in a branch takes the operator in. -/
theorem sum
    {operator : Arithmetic}
    (first : Recognized .expression front)
    (named : arithmetic? true token = some operator)
    (second : Recognized .term back) :
    Recognized .expression (front ++ token :: back) := by
  obtain ⟨depth, ending, left, first⟩ := first
  obtain ⟨more, _, right, second⟩ := second
  exact ⟨depth + more, first.absorbs (.sum named second)⟩

theorem ofFactor (whole : Recognized .factor tokens) : Recognized .term tokens := by
  obtain ⟨depth, ending, tree, factor⟩ := whole
  exact ⟨depth, ending, tree, .ofFactor factor⟩

/-- A left side that ends in a branch takes the operator in. -/
theorem product
    {operator : Arithmetic}
    (first : Recognized .term front)
    (named : arithmetic? false token = some operator)
    (second : Recognized .factor back) :
    Recognized .term (front ++ token :: back) := by
  obtain ⟨depth, ending, left, first⟩ := first
  obtain ⟨more, _, right, second⟩ := second
  exact ⟨depth + more, first.absorbs (.product named second) (.inl rfl)⟩

theorem number
    {value : Number}
    (kind : token.kind = .number)
    (denoted : Number.ofText? token.text.toList = some value) :
    Recognized .factor [token] :=
  ⟨1, _, _, .number kind denoted⟩

theorem string (kind : token.kind = .stringLiteral) : Recognized .factor [token] :=
  ⟨1, _, _, .string kind⟩

/-- A sign in front of what is recognized as a factor makes a factor. -/
theorem signed
    {operator : Sign}
    (kind : token.kind = .operator)
    (named : Sign.ofSymbol? token.text = some operator)
    (operand : Recognized .factor tokens) :
    Recognized .factor (token :: tokens) := by
  obtain ⟨depth, ending, tree, operand⟩ := operand
  exact ⟨depth + 1, ending, _, .signed kind named operand⟩

/-- Branches of recognized expressions behind a recognized condition make a factor. -/
theorem conditional
    {conditionTokens trueTokens falseTokens : List Token}
    {ifToken thenToken elseToken : Token}
    (ifKind : ifToken.kind = .ifWord)
    (condition : Recognized .condition conditionTokens)
    (thenKind : thenToken.kind = .thenWord)
    (first : Recognized .expression trueTokens)
    (elseKind : elseToken.kind = .elseWord)
    (second : Recognized .expression falseTokens) :
    Recognized .factor
      (ifToken :: conditionTokens ++ thenToken :: trueTokens ++ elseToken :: falseTokens) := by
  obtain ⟨chosenDepth, _, condition⟩ := condition
  obtain ⟨_, _, _, first⟩ := first
  obtain ⟨_, _, _, second⟩ := second
  obtain ⟨depth, first, second⟩ := first.align second
  have larger := Nat.le_add_left depth chosenDepth
  exact ⟨chosenDepth + depth + 1, _, _, .conditional ifKind
    (condition.mono (Nat.le_add_right _ _)) thenKind (first.mono larger) elseKind
    (second.mono larger)⟩

theorem ofPrimary (whole : Recognized .primary tokens) : Recognized .factor tokens := by
  obtain ⟨depth, ending, tree, primary⟩ := whole
  exact ⟨depth + 1, ending, tree, .ofPrimary primary⟩

theorem name (kind : token.kind = .identifier) : Recognized .primary [token] :=
  ⟨0, _, _, .name kind⟩

section Postfixes

variable {argumentTokens memberTokens : List Token} {dot opening closing : Token}

/-- A recognized expression in parentheses makes a primary. -/
theorem group
    (openingKind : opening.kind = .leftParenthesis)
    (inner : Recognized .expression tokens)
    (closingKind : closing.kind = .rightParenthesis) :
    Recognized .primary (opening :: tokens ++ [closing]) := by
  obtain ⟨depth, ending, tree, inner⟩ := inner
  exact ⟨depth, _, tree, .group openingKind inner closingKind⟩

theorem emptyCall
    (applied : Recognized .primary tokens)
    (openingKind : opening.kind = .leftParenthesis)
    (closingKind : closing.kind = .rightParenthesis) :
    Recognized .primary (tokens ++ [opening, closing]) := by
  obtain ⟨depth, ending, callee, applied⟩ := applied
  exact ⟨depth, _, _, .emptyCall applied openingKind closingKind⟩

/-- A recognized list in parentheses behind a primary makes a primary. -/
theorem call
    (applied : Recognized .primary tokens)
    (openingKind : opening.kind = .leftParenthesis)
    (inner : Recognized .list argumentTokens)
    (closingKind : closing.kind = .rightParenthesis) :
    Recognized .primary (tokens ++ opening :: argumentTokens ++ [closing]) := by
  obtain ⟨_, _, _, applied⟩ := applied
  obtain ⟨_, _, inner⟩ := inner
  obtain ⟨depth, applied, inner⟩ := applied.align inner
  exact ⟨depth, _, _, .call applied openingKind inner closingKind⟩

/-- After a member without a group the brackets become its group. -/
theorem index
    (applied : Recognized .primary tokens)
    (openingKind : opening.kind = .leftBracket)
    (inner : Recognized .list argumentTokens)
    (closingKind : closing.kind = .rightBracket)
    (continued : Recognized .chain memberTokens) :
    Recognized .primary (tokens ++ opening :: argumentTokens ++ closing :: memberTokens) := by
  obtain ⟨appliedDepth, ending, _, applied⟩ := applied
  obtain ⟨_, _, inner⟩ := inner
  obtain ⟨_, _, _, continued⟩ := continued
  obtain ⟨depth, inner, continued⟩ := inner.align continued
  have larger := Nat.le_add_left depth appliedDepth
  have applied := applied.mono (Nat.le_add_right _ depth)
  have inner := inner.mono larger
  have continued := continued.mono larger
  cases ending with
  | member => exact ⟨_, applied.absorbs_bracket openingKind inner closingKind continued⟩
  | closed => exact ⟨_, _, _, .index applied rfl openingKind inner closingKind continued⟩
  | branch => exact ⟨_, _, _, .index applied rfl openingKind inner closingKind continued⟩

theorem single (only : Recognized .expression tokens) : Recognized .list tokens := by
  obtain ⟨depth, ending, tree, only⟩ := only
  exact ⟨depth, [tree], .single only⟩

theorem append
    {comma : Token}
    (before : Recognized .list front)
    (kind : comma.kind = .comma)
    (last : Recognized .expression back) :
    Recognized .list (front ++ comma :: back) := by
  obtain ⟨_, _, before⟩ := before
  obtain ⟨_, _, _, last⟩ := last
  obtain ⟨depth, before, last⟩ := before.align last
  exact ⟨depth, _, .append before kind last⟩

theorem noMember : Recognized .chain [] :=
  ⟨0, _, _, .noMember⟩

theorem bareMember
    {name : Token}
    (before : Recognized .chain tokens)
    (dotKind : dot.kind = .dot)
    (nameKind : name.kind = .identifier) :
    Recognized .chain (tokens ++ [dot, name]) := by
  obtain ⟨depth, ending, members, before⟩ := before
  exact ⟨depth, _, _, .bareMember before dotKind nameKind⟩

/-- A chain goes on with a dot, a name and a list in brackets. -/
theorem member
    {name : Token}
    (before : Recognized .chain tokens)
    (dotKind : dot.kind = .dot)
    (nameKind : name.kind = .identifier)
    (openingKind : opening.kind = .leftBracket)
    (inner : Recognized .list argumentTokens)
    (closingKind : closing.kind = .rightBracket) :
    Recognized .chain (tokens ++ dot :: name :: opening :: argumentTokens ++ [closing]) := by
  obtain ⟨_, _, _, before⟩ := before
  obtain ⟨_, _, inner⟩ := inner
  obtain ⟨depth, before, inner⟩ := before.align inner
  exact ⟨depth, _, _, .member before dotKind nameKind openingKind inner closingKind⟩

end Postfixes

/-- Two recognized expressions with a comparison in between make an operand of a condition. -/
theorem comparison
    {operator : Comparison}
    (first : Recognized .expression front)
    (named : comparison? token = some operator)
    (second : Recognized .expression back) :
    Recognized .operand (front ++ token :: back) := by
  obtain ⟨_, _, _, first⟩ := first
  obtain ⟨_, _, _, second⟩ := second
  obtain ⟨depth, first, second⟩ := first.align second
  exact ⟨depth, _, .comparison first named second⟩

/-- A recognized condition in parentheses makes an operand of a condition. -/
theorem conditionGroup
    {opening closing : Token}
    (openingKind : opening.kind = .leftParenthesis)
    (inner : Recognized .condition tokens)
    (closingKind : closing.kind = .rightParenthesis) :
    Recognized .operand (opening :: tokens ++ [closing]) := by
  obtain ⟨depth, tree, inner⟩ := inner
  exact ⟨depth, tree, .conditionGroup openingKind inner closingKind⟩

theorem ofOperand (whole : Recognized .operand tokens) : Recognized .condition tokens := by
  obtain ⟨depth, tree, whole⟩ := whole
  exact ⟨depth + 1, tree, .ofOperand whole⟩

/-- A recognized condition goes on with a connective and an operand. -/
theorem logical
    {operator : Connective}
    (first : Recognized .condition front)
    (named : connective? token = some operator)
    (second : Recognized .operand back) :
    Recognized .condition (front ++ token :: back) := by
  obtain ⟨_, _, first⟩ := first
  obtain ⟨_, _, second⟩ := second
  obtain ⟨depth, first, second⟩ := first.align second
  exact ⟨depth + 1, _, .logical first.succ named second⟩

end Recognized

/-- Tokens that form a phrase in any way form one of the same sort in the greedy
way. -/
theorem Derives.recognized
    {convention : Convention}
    {depth : Nat}
    {phrase : Phrase}
    {tokens : List Token}
    (derived : Derives convention depth phrase tokens) :
    Recognized phrase.category tokens := by
  induction derived with
  | ofTerm _ whole => exact Recognized.ofTerm whole
  | sum _ _ named _ first second => exact Recognized.sum first named second
  | ofFactor _ whole => exact Recognized.ofFactor whole
  | product _ _ named _ first second => exact Recognized.product first named second
  | number kind denoted => exact Recognized.number kind denoted
  | string kind => exact Recognized.string kind
  | signed kind named _ operand => exact Recognized.signed kind named operand
  | conditional ifKind _ thenKind _ elseKind _ condition first second =>
      exact Recognized.conditional ifKind condition thenKind first elseKind second
  | ofPrimary _ whole => exact Recognized.ofPrimary whole
  | name kind => exact Recognized.name kind
  | group openingKind _ closingKind inner => exact Recognized.group openingKind inner closingKind
  | emptyCall _ openingKind closingKind applied =>
      exact Recognized.emptyCall applied openingKind closingKind
  | call _ openingKind _ closingKind applied inner =>
      exact Recognized.call applied openingKind inner closingKind
  | index _ _ openingKind _ closingKind _ applied inner continued =>
      exact Recognized.index applied openingKind inner closingKind continued
  | single _ only => exact Recognized.single only
  | append _ kind _ before last => exact Recognized.append before kind last
  | noMember => exact Recognized.noMember
  | bareMember _ dotKind nameKind before => exact Recognized.bareMember before dotKind nameKind
  | member _ dotKind nameKind openingKind _ closingKind before inner =>
      exact Recognized.member before dotKind nameKind openingKind inner closingKind
  | comparison _ named _ first second => exact Recognized.comparison first named second
  | conditionGroup openingKind _ closingKind inner =>
      exact Recognized.conditionGroup openingKind inner closingKind
  | ofOperand _ whole => exact Recognized.ofOperand whole
  | logical _ named _ first second => exact Recognized.logical first named second

end Grammar
end Expr
end ModelEquation
