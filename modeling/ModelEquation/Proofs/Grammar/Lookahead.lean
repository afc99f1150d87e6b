import ModelEquation.Proofs.Grammar.Levels
import ModelEquation.Proofs.Reader.Lookahead

/-!
# Tokens ahead

Every production decides by the next token alone. What it returns, or why it fails, is
settled by the tokens that it takes and the one after them, whatever follows.
-/

namespace ModelEquation
namespace Expr
namespace Grammar

/-- The production looks at most one token ahead. -/
abbrev OneAhead {α : Type} (production : Production α) : Prop :=
  production.OneAhead Failure.mk

/-- The readers of a level look at most one token ahead. -/
structure Level.OneAhead (level : Level) : Prop where
  factor : Grammar.OneAhead level.factor
  operand : Grammar.OneAhead level.operand

open Reader.OneAhead (fail peek skip bind extend)

theorem unexpected_oneAhead {α : Type} (expected : Expectation) :
    OneAhead (unexpected expected : Production α) :=
  fail (Reason.unexpected expected)

theorem tooDeep_oneAhead {α : Type} : OneAhead (tooDeep : Production α) :=
  fail Reason.tooDeep

theorem pure_oneAhead {α : Type} (value : α) : OneAhead (pure value : Production α) :=
  Reader.OneAhead.pure value

/-- Whether a token is the expected one depends on this token alone. -/
theorem expect_oneAhead (kind : Token.Kind) : OneAhead (expect kind) := by
  refine bind peek fun next => ?_
  split
  · split
    · exact bind skip fun _ => pure_oneAhead _
    · exact unexpected_oneAhead _
  · exact unexpected_oneAhead _

theorem sees_oneAhead (kind : Token.Kind) : OneAhead (sees kind) :=
  bind peek fun _ => pure_oneAhead _

/-- Building a tree does not look at the tokens. -/
theorem grow_oneAhead (limit below : Nat) (expression : Expr) :
    OneAhead (grow limit below expression) := by
  unfold grow
  split
  · exact pure_oneAhead _
  · exact tooDeep_oneAhead

theorem condition_oneAhead (operand : Operand) : OneAhead (condition operand) := by
  cases operand with
  | condition built => exact pure_oneAhead _
  | expression built => exact unexpected_oneAhead _

/-- Whether an operation goes on depends on the next token alone. -/
theorem folded_oneAhead
    {operand : Production Built}
    (operands : OneAhead operand)
    (limit : Nat)
    (additive : Bool)
    (first : Built) :
    OneAhead (folded limit additive operand first) := by
  refine extend (fun token continuation opened left => ?_) first
  obtain ⟨operator, _, rfl⟩ := Option.map_eq_some_iff.mp opened
  exact bind operands fun _ => grow_oneAhead _ _ _

section Level

variable {level : Level} (ahead : level.OneAhead) (limit : Nat)
include ahead

theorem termFrom_oneAhead (first : Built) : OneAhead (termFrom limit level first) :=
  folded_oneAhead ahead.factor limit false first

theorem term_oneAhead : OneAhead (term limit level) :=
  bind ahead.factor fun first => termFrom_oneAhead ahead limit first

theorem expressionFrom_oneAhead (first : Built) : OneAhead (expressionFrom limit level first) :=
  folded_oneAhead (term_oneAhead ahead limit) limit true first

/-- An expression looks one token ahead. -/
theorem expression_oneAhead : OneAhead (expression limit level) :=
  bind (term_oneAhead ahead limit) fun first => expressionFrom_oneAhead ahead limit first

theorem expressionList_oneAhead : OneAhead (expressionList limit level) := by
  refine bind (expression_oneAhead ahead limit) fun first => extend ?_ _
  intro token continuation opened listed
  split at opened
  · cases opened
    exact bind (expression_oneAhead ahead limit) fun _ => pure_oneAhead _
  · contradiction

theorem member_oneAhead (chain : Chain) : OneAhead (member limit level chain) := by
  refine bind (expect_oneAhead _) fun name => bind (sees_oneAhead _) fun opens => ?_
  split
  · exact bind skip fun _ => bind (expressionList_oneAhead ahead limit) fun _ =>
      bind (expect_oneAhead _) fun _ => pure_oneAhead _
  · exact pure_oneAhead _

theorem memberChain_oneAhead : OneAhead (memberChain limit level) := by
  refine extend (fun token continuation opened chain => ?_) _
  split at opened
  · cases opened
    exact member_oneAhead ahead limit chain
  · contradiction

theorem call_oneAhead (callee : Built) : OneAhead (call limit level callee) := by
  refine bind (sees_oneAhead _) fun closes => ?_
  dsimp only
  split
  · exact bind (pure_oneAhead _) fun _ => bind (expect_oneAhead _) fun _ => grow_oneAhead _ _ _
  · exact bind (expressionList_oneAhead ahead limit) fun _ => bind (expect_oneAhead _) fun _ =>
      grow_oneAhead _ _ _

theorem index_oneAhead (target : Built) : OneAhead (index limit level target) :=
  bind (expressionList_oneAhead ahead limit) fun _ => bind (expect_oneAhead _) fun _ =>
    bind (memberChain_oneAhead ahead limit) fun _ => grow_oneAhead _ _ _

theorem postfixed_oneAhead (first : Built) : OneAhead (postfixed limit level first) := by
  refine extend (fun token continuation opened built => ?_) first
  split at opened
  · cases opened
    exact call_oneAhead ahead limit built
  · cases opened
    exact index_oneAhead ahead limit built
  · contradiction

theorem comparisonFrom_oneAhead (left : Built) : OneAhead (comparisonFrom limit level left) := by
  refine bind peek fun next => ?_
  split
  · exact pure_oneAhead _
  · exact bind skip fun _ => bind (expression_oneAhead ahead limit) fun _ =>
      bind (grow_oneAhead _ _ _) fun _ => pure_oneAhead _

/-- An operand of a condition looks one token ahead, although it may turn out to be an
expression. -/
theorem conditionOperand_oneAhead : OneAhead (conditionOperand limit level) := by
  refine bind (sees_oneAhead _) fun opens => ?_
  split
  · refine bind skip fun _ => bind ahead.operand fun inner => bind (expect_oneAhead _) fun _ => ?_
    cases inner with
    | condition built => exact pure_oneAhead _
    | expression built =>
        exact bind (postfixed_oneAhead ahead limit built) fun factor =>
          bind (termFrom_oneAhead ahead limit factor) fun product =>
          bind (expressionFrom_oneAhead ahead limit product) fun sum =>
          comparisonFrom_oneAhead ahead limit sum
  · exact bind (expression_oneAhead ahead limit) fun left =>
      comparisonFrom_oneAhead ahead limit left

theorem logical_oneAhead (first : Built) : OneAhead (Grammar.logical limit level first) := by
  refine extend (fun token continuation opened left => ?_) first
  obtain ⟨operator, _, rfl⟩ := Option.map_eq_some_iff.mp opened
  exact bind (conditionOperand_oneAhead ahead limit) fun operand =>
    bind (condition_oneAhead operand) fun _ => grow_oneAhead _ _ _

theorem operandBody_oneAhead : OneAhead (operandBody limit level) := by
  refine bind (conditionOperand_oneAhead ahead limit) fun first => bind peek fun next => ?_
  split
  · exact pure_oneAhead _
  · exact bind (condition_oneAhead first) fun left => bind (logical_oneAhead ahead limit left)
      fun _ => pure_oneAhead _

theorem conditional_oneAhead : OneAhead (Grammar.conditional limit level) :=
  bind (expect_oneAhead _) fun _ => bind ahead.operand fun operand =>
    bind (condition_oneAhead operand) fun _ => bind (expect_oneAhead _) fun _ =>
    bind (expression_oneAhead ahead limit) fun _ => bind (expect_oneAhead _) fun _ =>
    bind (expression_oneAhead ahead limit) fun _ => grow_oneAhead _ _ _

theorem signed_oneAhead (operator : Sign) : OneAhead (Grammar.signed limit level operator) :=
  bind skip fun _ => bind ahead.factor fun _ => grow_oneAhead _ _ _

theorem grouped_oneAhead : OneAhead (grouped limit level) :=
  bind skip fun _ => bind (expression_oneAhead ahead limit) fun inner =>
    bind (expect_oneAhead _) fun _ => postfixed_oneAhead ahead limit inner

theorem factorBody_oneAhead : OneAhead (factorBody limit level) := by
  refine bind peek fun next => ?_
  split
  · exact unexpected_oneAhead _
  · split
    · split
      · exact unexpected_oneAhead _
      · exact signed_oneAhead ahead limit _
    · exact grouped_oneAhead ahead limit
    · split
      · exact unexpected_oneAhead _
      · exact bind skip fun _ => pure_oneAhead _
    · exact bind skip fun _ => pure_oneAhead _
    · exact conditional_oneAhead ahead limit
    · exact bind skip fun _ => postfixed_oneAhead ahead limit _
    · exact unexpected_oneAhead _

end Level

/-- Every level looks one token ahead, by induction on the levels that are left. -/
theorem level_oneAhead (limit budget : Nat) : (level limit budget).OneAhead := by
  induction budget with
  | zero => exact ⟨tooDeep_oneAhead, tooDeep_oneAhead⟩
  | succ below ahead =>
      exact ⟨factorBody_oneAhead ahead limit, operandBody_oneAhead ahead limit⟩

/-- The whole of the tokens is read with one token of lookahead. -/
theorem wholeExpression_oneAhead (limit : Nat) : OneAhead (wholeExpression limit) := by
  refine bind (expression_oneAhead (level_oneAhead limit limit) limit) fun built =>
    bind peek fun next => ?_
  split
  · exact pure_oneAhead _
  · exact unexpected_oneAhead _

end Grammar
end Expr
end ModelEquation
