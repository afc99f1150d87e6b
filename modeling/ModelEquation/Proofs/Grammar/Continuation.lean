import ModelEquation.Proofs.Grammar.Derivation
import ModelEquation.Proofs.Grammar.Height
import ModelEquation.Proofs.Grammar.Levels
import ModelEquation.Proofs.Reader.Loop

/-!
# Going on after a phrase

What each reader of the grammar does with the tokens that follow a phrase. It
stops where no production goes on, which depends on the kind of the next token,
and otherwise reads one more operand, member or group.

A condition may start with a parenthesis that turns out to hold an expression.
The reader of conditions has then read the first factor by another way, and goes
on with the rest of it. This way leads to the same expression, by induction on the
parentheses in front.
-/

namespace ModelEquation

namespace Expr

/-- A tree with its height. -/
def built (tree : Expr) : Grammar.Built :=
  ⟨tree, tree.height⟩

namespace Grammar

/-! ## Single steps -/

/-- A token of the kind that is expected is taken. -/
theorem run_expect
    {kind : Token.Kind}
    {token : Token}
    (known : token.kind = kind)
    (rest : List Token) :
    (expect kind).run (token :: rest) = .ok (token.text, rest) := by
  simp [expect, known]

/-- What is taken where a kind is expected is a token of this kind. -/
theorem exists_of_run_expect
    {kind : Token.Kind}
    {input rest : List Token}
    {lexeme : String}
    (ran : (expect kind).run input = .ok (lexeme, rest)) :
    ∃ token, input = token :: rest ∧ token.kind = kind := by
  cases input with
  | nil => contradiction
  | cons token others =>
      by_cases known : token.kind = kind
      · rw [run_expect known] at ran
        cases ran
        exact ⟨token, rfl, known⟩
      · simp [expect, known, unexpected] at ran

theorem run_sees (kind : Token.Kind) (token : Token) (rest : List Token) :
    (sees kind).run (token :: rest) = .ok (decide (token.kind = kind), token :: rest) := by
  simp [sees]

/-- A tree that is not too high is built. -/
theorem run_grow
    {limit below : Nat}
    (fits : below + 1 ≤ limit)
    (expression : Expr)
    (input : List Token) :
    (grow limit below expression).run input = .ok (⟨expression, below + 1⟩, input) := by
  simp [grow, fits]

/-- One more operand of a sum or product. -/
theorem run_folded
    {limit : Nat}
    {additive : Bool}
    {operand : Production Built}
    {token : Token}
    {operator : Arithmetic}
    {left right : Expr}
    {others rest : List Token}
    (named : arithmetic? additive token = some operator)
    (ran : operand.run others = .ok (right.built, rest))
    (fits : (Expr.binary operator left right).height ≤ limit) :
    (folded limit additive operand left.built).run (token :: others) =
      (folded limit additive operand (Expr.binary operator left right).built).run rest := by
  refine Reader.run_extend_of_ran _ (by rw [named]; rfl) ?_
  rw [Reader.run_bind, ran]
  exact run_grow fits _ _

/-- The expressions after the first one of a list. -/
def expressionListFrom (limit : Nat) (level : Level) : Listed → Production Listed :=
  Reader.extend fun token =>
    if token.kind = .comma then
      some fun listed => do
        pure (listed.append (← expression limit level))
    else
      none

theorem expressionList_eq (limit : Nat) (level : Level) :
    expressionList limit level =
      (expression limit level >>= fun first =>
        expressionListFrom limit level ⟨[first.expression], first.height⟩) := rfl

/-- The members after some members of a chain. -/
def memberChainFrom (limit : Nat) (level : Level) : Chain → Production Chain :=
  Reader.extend fun token => if token.kind = .dot then some (member limit level) else none

/-! ## What may follow a phrase -/

/-- The next token, if there is one, has none of the given kinds. -/
def Avoids (kinds : List Token.Kind) (rest : List Token) : Prop :=
  ∀ token ∈ rest.head?, token.kind ∉ kinds

theorem avoids_nil (kinds : List Token.Kind) : Avoids kinds [] := by
  simp [Avoids]

@[simp] theorem avoids_cons
    (kinds : List Token.Kind)
    (token : Token)
    (rest : List Token) :
    Avoids kinds (token :: rest) ↔ token.kind ∉ kinds := by
  simp [Avoids]

theorem Avoids.subset
    {kinds fewer : List Token.Kind}
    {rest : List Token}
    (avoids : Avoids kinds rest)
    (subset : fewer ⊆ kinds) :
    Avoids fewer rest :=
  fun token next present => avoids token next (subset present)

/-- A reader that goes on in two ways, by the kind of the next token. -/
theorem ensures_sees_bind
    {α : Type}
    {kind : Token.Kind}
    {input : List Token}
    {next : Bool → Production α}
    {returned : α → List Token → List Token → Prop}
    {failed : Failure → Prop}
    (seen : ∀ token others, input = token :: others → token.kind = kind →
      (next true).Ensures input returned failed)
    (unseen : Avoids [kind] input → (next false).Ensures input returned failed) :
    (sees kind >>= next).Ensures input returned failed := by
  cases input with
  | nil => exact Reader.ensures_bind ⟨[], rfl, unseen (avoids_nil _)⟩
  | cons token others =>
      by_cases known : token.kind = kind
      · refine Reader.ensures_bind ?_
        rw [Reader.Ensures, run_sees, decide_eq_true known]
        exact ⟨[], rfl, seen token others rfl known⟩
      · refine Reader.ensures_bind ?_
        rw [Reader.Ensures, run_sees, decide_eq_false known]
        exact ⟨[], rfl, unseen (by simpa using known)⟩

/-- The kinds of token by which a phrase of the given ending would go on. -/
def Ending.openKinds : Ending → List Token.Kind
  | .closed => []
  | .member => [.leftBracket]
  | .branch => [.operator]

/-- The kinds of token that go on after a primary expression. -/
def postfixKinds : List Token.Kind :=
  [.leftParenthesis, .leftBracket, .dot]

/-- The kinds of token that go on after an expression. -/
def expressionKinds : List Token.Kind :=
  .operator :: postfixKinds

theorem arithmetic?_eq_none
    {additive : Bool}
    {token : Token}
    (other : token.kind ≠ .operator) :
    arithmetic? additive token = none := by
  simp [arithmetic?, other]

/-- Only a token of an operator is read as one. -/
theorem kind_of_arithmetic?
    {additive : Bool}
    {token : Token}
    {operator : Arithmetic}
    (named : arithmetic? additive token = some operator) :
    token.kind = .operator := by
  unfold arithmetic? at named
  split at named
  · assumption
  · contradiction

/-- No token names an additive and a multiplicative operator. -/
theorem arithmetic?_false_of_true
    {token : Token}
    {operator : Arithmetic}
    (named : arithmetic? true token = some operator) :
    arithmetic? false token = none := by
  have kind := kind_of_arithmetic? named
  simp only [arithmetic?, kind, if_true, Option.filter_eq_some_iff, Option.filter_eq_none_iff,
    decide_eq_true_eq] at named ⊢
  intro other found
  rw [found] at named
  simp_all

/-- Only a token of a comparison is read as one. -/
theorem kind_of_comparison?
    {token : Token}
    {operator : Comparison}
    (named : comparison? token = some operator) :
    token.kind = .comparison := by
  unfold comparison? at named
  split at named
  · assumption
  · contradiction

/-- Only the words of connectives are read as one. -/
theorem kind_of_connective?
    {token : Token}
    {operator : Connective}
    (named : connective? token = some operator) :
    token.kind = .andWord ∨ token.kind = .orWord := by
  unfold connective? at named
  split at named
  · next kind => exact .inl kind
  · next kind => exact .inr kind
  · contradiction

/-- A term ends where no operator of its precedence follows. -/
theorem run_termFrom_of_avoids
    {limit : Nat}
    {level : Level}
    {rest : List Token}
    (stops : ∀ token ∈ rest.head?, arithmetic? false token = none)
    (first : Built) :
    (termFrom limit level first).run rest = .ok (first, rest) :=
  Reader.run_extend_of_stops (fun token next => by rw [stops token next]; rfl) first

/-- An expression ends where no operator follows. -/
theorem run_expressionFrom_of_avoids
    {limit : Nat}
    {level : Level}
    {rest : List Token}
    (avoids : Avoids [.operator] rest)
    (first : Built) :
    (expressionFrom limit level first).run rest = .ok (first, rest) :=
  Reader.run_extend_of_stops
    (fun token next => by
      rw [arithmetic?_eq_none (by simpa using avoids token next)]
      rfl)
    first

/-- A primary ends where no group follows. -/
theorem run_postfixed_of_avoids
    {limit : Nat}
    {level : Level}
    {rest : List Token}
    (avoids : Avoids postfixKinds rest)
    (first : Built) :
    (postfixed limit level first).run rest = .ok (first, rest) := by
  refine Reader.run_extend_of_stops (fun token next => ?_) first
  have other := avoids token next
  split <;> simp_all [postfixKinds]

/-- The kinds of token that go on after a factor, a term or an expression of the
given ending. -/
def Ending.stopKinds (ending : Ending) : List Token.Kind :=
  postfixKinds ++ ending.openKinds

/-- Every ending that may be the left side of an operator is not open for it. -/
theorem Ending.operator_notMem_openKinds
    {ending : Ending}
    (admitted : Convention.greedy.admitsOperator ending = true) :
    .operator ∉ ending.openKinds := by
  cases ending with
  | closed => simp [openKinds]
  | member => simp [openKinds]
  | branch => contradiction

theorem Ending.leftBracket_notMem_openKinds
    {ending : Ending}
    (admitted : Convention.greedy.admitsBracket ending = true) :
    .leftBracket ∉ ending.openKinds := by
  cases ending with
  | closed => simp [openKinds]
  | member => contradiction
  | branch => simp [openKinds]

/-- Every kind by which a phrase of some ending goes on goes on after an
expression. -/
theorem Ending.stopKinds_subset (ending : Ending) : ending.stopKinds ⊆ expressionKinds := by
  cases ending <;> simp [stopKinds, openKinds, postfixKinds, expressionKinds]

/-! ## Conditions that start as expressions -/

/-- Tokens that start an expression are read as the same expression where a condition may stand,
and a comparison may follow it. Where they start with a parenthesis, the group in it is an
expression of the level inside, and what follows the group may nest in one more level. -/
theorem run_conditionOperand_of_expression
    {limit depth : Nat}
    {left : Built}
    {input rest : List Token}
    (ran : (expression limit (level limit depth)).run input = .ok (left, rest)) :
    (conditionOperand limit (level limit depth)).run input =
      (comparisonFrom limit (level limit depth) left).run rest := by
  induction depth generalizing input left rest with
  | zero => contradiction
  | succ depth hypothesis =>
      obtain ⟨opening, others, rfl⟩ := List.exists_cons_of_ne_nil (by
        rintro rfl
        contradiction : input ≠ [])
      rw [conditionOperand, Reader.run_bind, run_sees]
      by_cases openingKind : opening.kind = .leftParenthesis
      case neg =>
        rw [decide_eq_false openingKind]
        simp only [Bool.false_eq_true, if_false, Reader.run_bind, ran]
      case pos =>
        obtain ⟨product, afterProduct, products, sums⟩ := Reader.run_bind_eq_ok_iff.mp ran
        obtain ⟨factor, afterFactor, factors, more⟩ := Reader.run_bind_eq_ok_iff.mp products
        have grouping : (level limit (depth + 1)).factor.run (opening :: others) =
            (grouped limit (level limit depth)).run (opening :: others) := by
          simp [level, factorBody, openingKind]
        obtain ⟨_, _, skips, groups⟩ := Reader.run_bind_eq_ok_iff.mp (grouping.symm.trans factors)
        cases skips
        rw [List.tail_cons] at groups
        obtain ⟨inner, _, inside, closes⟩ := Reader.run_bind_eq_ok_iff.mp groups
        obtain ⟨lexeme, behind, closed, postfixes⟩ := Reader.run_bind_eq_ok_iff.mp closes
        obtain ⟨closing, rfl, closingKind⟩ := exists_of_run_expect closed
        have operand : (level limit (depth + 1)).operand.run others =
            .ok (.expression inner, closing :: behind) := by
          rw [level, Reader.run_defer, operandBody, Reader.run_bind, hypothesis inside]
          simp [comparisonFrom, comparison?, connective?, closingKind]
        have levels := level_within (Nat.le_refl limit) depth.le_succ
        have further := (postfixed_within (Nat.le_refl limit) levels inner).run_eq_ok postfixes
        rw [decide_eq_true openingKind]
        simp only [if_true, Reader.run_bind, Reader.run_skip, List.tail_cons, operand, closed,
          further, more, sums]

/-- When the tokens start an expression that no comparison or some comparison
follows, reading them as an operand of a condition gives the same. -/
def Resumes (limit : Nat) (level : Level) (used : List Token) : Prop :=
  ∀ rest result,
    (expression limit level >>= comparisonFrom limit level).run (used ++ rest) = .ok result →
    (conditionOperand limit level).run (used ++ rest) = .ok result

/-- Every level reads the beginning of a condition as it reads an expression. -/
theorem resumes (limit depth : Nat) (used : List Token) :
    Resumes limit (level limit depth) used := by
  intro rest result ran
  rw [Reader.run_bind] at ran
  split at ran
  · contradiction
  · next left behind read => rw [run_conditionOperand_of_expression read, ran]

/-! ## Postfixes -/

section Postfixes

variable {limit : Nat} {level : Level} {rest : List Token}

/-- A list that a closing token follows. -/
theorem run_expressionList
    {trees : List Expr}
    {tokens : List Token}
    {closing : Token}
    (rest : List Token)
    (other : closing.kind ≠ .comma)
    (reads : (expressionList limit level).run (tokens ++ closing :: rest) =
      (expressionListFrom limit level ⟨trees, tallest trees⟩).run (closing :: rest)) :
    (expressionList limit level).run (tokens ++ closing :: rest) =
      .ok (⟨trees, tallest trees⟩, closing :: rest) := by
  rw [reads, expressionListFrom]
  exact Reader.run_extend_of_closed (by rw [if_neg other]) _ _

/-- Parentheses without arguments apply an expression. -/
theorem run_postfixed_emptyCall
    {callee : Expr}
    {opening closing : Token}
    (openingKind : opening.kind = .leftParenthesis)
    (closingKind : closing.kind = .rightParenthesis)
    (fits : (Expr.call callee []).height ≤ limit) :
    (postfixed limit level callee.built).run (opening :: closing :: rest) =
      (postfixed limit level (Expr.call callee []).built).run rest := by
  refine Reader.run_extend_of_ran (call limit level) (by rw [openingKind]) ?_
  simp only [call, Reader.run_bind, run_sees, decide_eq_true closingKind, if_true,
    Reader.run_pure, run_expect closingKind]
  exact run_grow fits _ rest

/-- Parentheses with arguments apply an expression. -/
theorem run_postfixed_call
    {callee : Expr}
    {arguments : List Expr}
    {tokens : List Token}
    {opening closing : Token}
    (openingKind : opening.kind = .leftParenthesis)
    (closingKind : closing.kind = .rightParenthesis)
    (starts : ∀ token ∈ (tokens ++ closing :: rest).head?, token.kind ≠ .rightParenthesis)
    (reads : (expressionList limit level).run (tokens ++ closing :: rest) =
      .ok (⟨arguments, tallest arguments⟩, closing :: rest))
    (fits : (Expr.call callee arguments).height ≤ limit) :
    (postfixed limit level callee.built).run (opening :: (tokens ++ closing :: rest)) =
      (postfixed limit level (Expr.call callee arguments).built).run rest := by
  refine Reader.run_extend_of_ran (call limit level) (by rw [openingKind]) ?_
  have sees : (sees .rightParenthesis).run (tokens ++ closing :: rest) =
      .ok (false, tokens ++ closing :: rest) := by
    cases head : tokens ++ closing :: rest with
    | nil => rfl
    | cons token others => rw [run_sees, decide_eq_false (starts token (by rw [head]; rfl))]
  simp only [call, Reader.run_bind, sees, Bool.false_eq_true, if_false, reads,
    run_expect closingKind]
  exact run_grow fits _ rest

/-- Brackets and the members after them index an expression. -/
theorem run_postfixed_index
    {target : Expr}
    {indices : List Expr}
    {members : List Variable}
    {tokens after : List Token}
    {opening closing : Token}
    (openingKind : opening.kind = .leftBracket)
    (closingKind : closing.kind = .rightBracket)
    (nonempty : indices ≠ [])
    (reads : (expressionList limit level).run (tokens ++ closing :: after) =
      .ok (⟨indices, tallest indices⟩, closing :: after))
    (continues : (memberChain limit level).run after =
      .ok (⟨members, Variable.tallest members⟩, rest))
    (fits : (target.indexed indices members).height ≤ limit) :
    (postfixed limit level target.built).run (opening :: (tokens ++ closing :: after)) =
      (postfixed limit level (target.indexed indices members).built).run rest := by
  refine Reader.run_extend_of_ran (index limit level) (by rw [openingKind]) ?_
  simp only [index, Reader.run_bind, reads, run_expect closingKind, continues]
  rw [height_indexed nonempty] at fits
  refine (run_grow fits _ rest).trans ?_
  rw [← height_indexed nonempty]
  rfl

/-- A member without a group, where no bracket follows. -/
theorem run_memberChainFrom_bareMember
    {members : List Variable}
    {dot name : Token}
    (dotKind : dot.kind = .dot)
    (nameKind : name.kind = .identifier)
    (avoids : Avoids [.leftBracket] rest) :
    (memberChainFrom limit level ⟨members, Variable.tallest members⟩).run (dot :: name :: rest) =
      (memberChainFrom limit level
        ⟨members ++ [.named name.text], Variable.tallest (members ++ [.named name.text])⟩).run
        rest := by
  refine Reader.run_extend_of_ran (member limit level) (if_pos dotKind) ?_
  have sees : (sees .leftBracket).run rest = .ok (false, rest) := by
    cases rest with
    | nil => rfl
    | cons token others => rw [run_sees, decide_eq_false (by simpa using avoids)]
  rw [Variable.tallest_append]
  simp only [member, Reader.run_bind, run_expect nameKind, sees]
  rfl

/-- A member with a group. -/
theorem run_memberChainFrom_member
    {members : List Variable}
    {arguments : List Expr}
    {tokens : List Token}
    {dot name opening closing : Token}
    (dotKind : dot.kind = .dot)
    (nameKind : name.kind = .identifier)
    (openingKind : opening.kind = .leftBracket)
    (closingKind : closing.kind = .rightBracket)
    (reads : (expressionList limit level).run (tokens ++ closing :: rest) =
      .ok (⟨arguments, tallest arguments⟩, closing :: rest)) :
    (memberChainFrom limit level ⟨members, Variable.tallest members⟩).run
        (dot :: name :: opening :: (tokens ++ closing :: rest)) =
      (memberChainFrom limit level
        ⟨members ++ [⟨name.text, none, some arguments, []⟩],
          Variable.tallest (members ++ [⟨name.text, none, some arguments, []⟩])⟩).run rest := by
  refine Reader.run_extend_of_ran (member limit level) (if_pos dotKind) ?_
  rw [Variable.tallest_append]
  simp [member, run_expect nameKind, run_sees, openingKind, reads, run_expect closingKind,
    Variable.tallest, Variable.height, groupHeight]

end Postfixes

end Grammar
end Expr
end ModelEquation
