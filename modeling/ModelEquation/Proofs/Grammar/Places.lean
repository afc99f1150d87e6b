import ModelEquation.Expr.Parser
import ModelEquation.Proofs.Reader.Renaming

/-!
# Places of tokens

No production looks at the place of a token. Tokens that are moved to other places form
the same expression, within the same limit, or fail for the same reason at the same token.
The positions of a fault are those of the moved tokens.
-/

namespace ModelEquation

/-- The token at another place, which may depend on its own. -/
def Token.moved (place : Nat → Nat) (token : Token) : Token :=
  { token with position := place token.position }

namespace Expr

/-- The failure with the tokens that are left at other places. -/
def Failure.moved (place : Nat → Nat) (failure : Failure) : Failure :=
  { failure with remaining := failure.remaining.map (Token.moved place) }

namespace Grammar

variable {place : Nat → Nat}

/-- The production does for moved tokens what it does for the tokens themselves. -/
abbrev Placeless (place : Nat → Nat) {α : Type} (production : Production α) : Prop :=
  production.Uniform (Token.moved place) (Failure.moved place)

/-- The readers of a level do not look at places. -/
structure Level.Placeless (place : Nat → Nat) (level : Level) : Prop where
  factor : Grammar.Placeless place level.factor
  operand : Grammar.Placeless place level.operand

open Reader.Uniform (fail peek_bind skip bind extend)

theorem unexpected_placeless {α : Type} (expected : Expectation) :
    Placeless place (unexpected expected : Production α) :=
  fail fun _ => rfl

theorem tooDeep_placeless {α : Type} : Placeless place (tooDeep : Production α) :=
  fail fun _ => rfl

theorem pure_placeless {α : Type} (value : α) : Placeless place (pure value : Production α) :=
  Reader.Uniform.pure value

/-- Whether a token is the expected one does not depend on where it stands. -/
theorem expect_placeless (kind : Token.Kind) : Placeless place (expect kind) := by
  refine peek_bind (fun _ => rfl) fun next => ?_
  split
  · split
    · exact bind skip fun _ => pure_placeless _
    · exact unexpected_placeless _
  · exact unexpected_placeless _

theorem sees_placeless (kind : Token.Kind) : Placeless place (sees kind) :=
  peek_bind (fun _ => rfl) fun _ => pure_placeless _

/-- Building a tree does not depend on where the tokens stand. -/
theorem grow_placeless (limit below : Nat) (expression : Expr) :
    Placeless place (grow limit below expression) := by
  unfold grow
  split
  · exact pure_placeless _
  · exact tooDeep_placeless

theorem condition_placeless (operand : Operand) : Placeless place (condition operand) := by
  cases operand with
  | condition built => exact pure_placeless _
  | expression built => exact unexpected_placeless _

theorem folded_placeless
    {operand : Production Built}
    (operands : Placeless place operand)
    (limit : Nat)
    (additive : Bool)
    (first : Built) :
    Placeless place (folded limit additive operand first) := by
  refine extend ?_ (fun token continuation opened left => ?_) first
  · exact fun _ => rfl
  · obtain ⟨operator, _, rfl⟩ := Option.map_eq_some_iff.mp opened
    exact bind operands fun _ => grow_placeless _ _ _

section Level

variable {level : Level} (placeless : level.Placeless place) (limit : Nat)
include placeless

theorem termFrom_placeless (first : Built) : Placeless place (termFrom limit level first) :=
  folded_placeless placeless.factor limit false first

theorem term_placeless : Placeless place (term limit level) :=
  bind placeless.factor fun first => termFrom_placeless placeless limit first

theorem expressionFrom_placeless (first : Built) :
    Placeless place (expressionFrom limit level first) :=
  folded_placeless (term_placeless placeless limit) limit true first

/-- An expression does not depend on where its tokens stand. -/
theorem expression_placeless : Placeless place (expression limit level) :=
  bind (term_placeless placeless limit) fun first => expressionFrom_placeless placeless limit first

theorem expressionList_placeless : Placeless place (expressionList limit level) := by
  refine bind (expression_placeless placeless limit) fun first => extend ?_ ?_ _
  · exact fun _ => rfl
  · intro token continuation opened listed
    split at opened
    · cases opened
      exact bind (expression_placeless placeless limit) fun _ => pure_placeless _
    · contradiction

theorem member_placeless (chain : Chain) : Placeless place (member limit level chain) := by
  refine bind (expect_placeless _) fun name => bind (sees_placeless _) fun opens => ?_
  split
  · exact bind skip fun _ => bind (expressionList_placeless placeless limit) fun _ =>
      bind (expect_placeless _) fun _ => pure_placeless _
  · exact pure_placeless _

theorem memberChain_placeless : Placeless place (memberChain limit level) := by
  refine extend ?_ (fun token continuation opened chain => ?_) _
  · exact fun _ => rfl
  · split at opened
    · cases opened
      exact member_placeless placeless limit chain
    · contradiction

theorem call_placeless (callee : Built) : Placeless place (call limit level callee) := by
  refine bind (sees_placeless _) fun closes => ?_
  dsimp only
  split
  · exact bind (pure_placeless _) fun _ => bind (expect_placeless _) fun _ => grow_placeless _ _ _
  · exact bind (expressionList_placeless placeless limit) fun _ =>
      bind (expect_placeless _) fun _ => grow_placeless _ _ _

theorem index_placeless (target : Built) : Placeless place (index limit level target) :=
  bind (expressionList_placeless placeless limit) fun _ => bind (expect_placeless _) fun _ =>
    bind (memberChain_placeless placeless limit) fun _ => grow_placeless _ _ _

theorem postfixed_placeless (first : Built) : Placeless place (postfixed limit level first) := by
  refine extend ?_ (fun token continuation opened built => ?_) first
  · exact fun _ => rfl
  · split at opened
    · cases opened
      exact call_placeless placeless limit built
    · cases opened
      exact index_placeless placeless limit built
    · contradiction

theorem comparisonFrom_placeless (left : Built) :
    Placeless place (comparisonFrom limit level left) := by
  refine peek_bind (fun _ => rfl) fun next => ?_
  split
  · exact pure_placeless _
  · exact bind skip fun _ => bind (expression_placeless placeless limit) fun _ =>
      bind (grow_placeless _ _ _) fun _ => pure_placeless _

theorem conditionOperand_placeless : Placeless place (conditionOperand limit level) := by
  refine bind (sees_placeless _) fun opens => ?_
  split
  · refine bind skip fun _ => bind placeless.operand fun inner =>
      bind (expect_placeless _) fun _ => ?_
    cases inner with
    | condition built => exact pure_placeless _
    | expression built =>
        exact bind (postfixed_placeless placeless limit built) fun factor =>
          bind (termFrom_placeless placeless limit factor) fun product =>
          bind (expressionFrom_placeless placeless limit product) fun sum =>
          comparisonFrom_placeless placeless limit sum
  · exact bind (expression_placeless placeless limit) fun left =>
      comparisonFrom_placeless placeless limit left

theorem logical_placeless (first : Built) :
    Placeless place (Grammar.logical limit level first) := by
  refine extend ?_ (fun token continuation opened left => ?_) first
  · exact fun _ => rfl
  · obtain ⟨operator, _, rfl⟩ := Option.map_eq_some_iff.mp opened
    exact bind (conditionOperand_placeless placeless limit) fun operand =>
      bind (condition_placeless operand) fun _ => grow_placeless _ _ _

theorem operandBody_placeless : Placeless place (operandBody limit level) := by
  refine bind (conditionOperand_placeless placeless limit) fun first =>
    peek_bind (fun _ => rfl) fun next => ?_
  split
  · exact pure_placeless _
  · exact bind (condition_placeless first) fun left =>
      bind (logical_placeless placeless limit left) fun _ => pure_placeless _

theorem conditional_placeless : Placeless place (Grammar.conditional limit level) :=
  bind (expect_placeless _) fun _ => bind placeless.operand fun operand =>
    bind (condition_placeless operand) fun _ => bind (expect_placeless _) fun _ =>
    bind (expression_placeless placeless limit) fun _ => bind (expect_placeless _) fun _ =>
    bind (expression_placeless placeless limit) fun _ => grow_placeless _ _ _

theorem signed_placeless (operator : Sign) :
    Placeless place (Grammar.signed limit level operator) :=
  bind skip fun _ => bind placeless.factor fun _ => grow_placeless _ _ _

theorem grouped_placeless : Placeless place (grouped limit level) :=
  bind skip fun _ => bind (expression_placeless placeless limit) fun inner =>
    bind (expect_placeless _) fun _ => postfixed_placeless placeless limit inner

theorem factorBody_placeless : Placeless place (factorBody limit level) := by
  refine peek_bind (fun _ => rfl) fun next => ?_
  split
  · exact unexpected_placeless _
  · split
    · split
      · exact unexpected_placeless _
      · exact signed_placeless placeless limit _
    · exact grouped_placeless placeless limit
    · split
      · exact unexpected_placeless _
      · exact bind skip fun _ => pure_placeless _
    · exact bind skip fun _ => pure_placeless _
    · exact conditional_placeless placeless limit
    · exact bind skip fun _ => postfixed_placeless placeless limit _
    · exact unexpected_placeless _

end Level

/-- No level depends on where the tokens stand, by induction on the levels that are left. -/
theorem level_placeless (limit budget : Nat) : (level limit budget).Placeless place := by
  induction budget with
  | zero => exact ⟨tooDeep_placeless, tooDeep_placeless⟩
  | succ below placeless =>
      exact ⟨factorBody_placeless placeless limit, operandBody_placeless placeless limit⟩

/-- What the tokens are read as does not depend on where they stand. -/
theorem wholeExpression_placeless (limit : Nat) : Placeless place (wholeExpression limit) := by
  refine bind (expression_placeless (level_placeless limit limit) limit) fun built =>
    peek_bind (fun _ => rfl) fun next => ?_
  split
  · exact pure_placeless _
  · exact unexpected_placeless _

end Grammar

/-- Tokens at other places are read as the tokens themselves are. -/
theorem read_moved
    (place : Nat → Nat)
    (options : Options)
    (tokens : List Token) :
    read options (tokens.map (Token.moved place)) =
      (read options tokens).mapError (Failure.moved place) := by
  rw [read, read, Grammar.wholeExpression_placeless options.maxDepth tokens]
  cases (Grammar.wholeExpression options.maxDepth).run tokens with
  | error failure => rfl
  | ok result => rfl

/-- Moving all tokens moves the place at which a failure is reported. -/
theorem Failure.located_moved
    (limit finish offset : Nat)
    (failure : Failure) :
    (failure.moved (· + offset)).located limit (finish + offset) =
      (failure.located limit finish).shifted offset := by
  obtain ⟨reason, remaining⟩ := failure
  cases remaining <;> cases reason <;> rfl

/-- Tokens that lie further on by some bytes form the same expression, and their faults lie
further on by as much. -/
theorem ofTokensUntil_shifted
    (options : Options)
    (finish offset : Nat)
    (tokens : List Token) :
    ofTokensUntil options (finish + offset) (tokens.map (Token.shifted offset)) =
      (ofTokensUntil options finish tokens).mapError (Fault.shifted offset) := by
  have moved : tokens.map (Token.shifted offset) = tokens.map (Token.moved (· + offset)) := rfl
  rw [ofTokensUntil, ofTokensUntil, moved, read_moved]
  cases read options tokens with
  | error failure => exact congrArg Except.error (failure.located_moved _ finish offset)
  | ok tree => rfl

end Expr
end ModelEquation
