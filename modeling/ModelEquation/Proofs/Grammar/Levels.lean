import ModelEquation.Expr.Grammar
import ModelEquation.Proofs.Reader.Approximation

/-!
# Limits on nesting

A reader with fewer levels, or with a smaller limit on heights, gives up because
of nesting or does exactly what one with more of both does.
-/

namespace ModelEquation
namespace Expr

/-- The failures that are due to the limits on nesting. -/
def Failure.GaveUp (failure : Failure) : Prop :=
  failure.reason = .tooDeep

namespace Grammar

/-- A reader with smaller limits approximates one with greater limits. -/
abbrev Within {α : Type} (production larger : Production α) : Prop :=
  production.Approximates Failure.GaveUp larger

/-- The readers of a level approximate those of another. -/
structure Level.Within (level larger : Level) : Prop where
  factor : Grammar.Within level.factor larger.factor
  operand : Grammar.Within level.operand larger.operand

theorem tooDeep_within {α : Type} (larger : Production α) :
    Within (tooDeep : Production α) larger :=
  fun input => .inl ⟨⟨.tooDeep, input⟩, rfl, rfl⟩

section Limits

variable {limit more : Nat} (le : limit ≤ more)
include le

/-- A tree that fits a limit fits a larger one. -/
theorem grow_within (below : Nat) (expression : Expr) :
    Within (grow limit below expression) (grow more below expression) := by
  unfold grow
  split
  · next fits => rw [if_pos (Nat.le_trans fits le)]; exact .refl _
  · exact tooDeep_within _

/-- Operations go on in the same way within a larger limit. -/
theorem folded_within
    {additive : Bool}
    {operand larger : Production Built}
    (operands : Within operand larger)
    (first : Built) :
    Within (folded limit additive operand first) (folded more additive larger first) := by
  refine Reader.Approximates.extend (fun token => ?_) first
  cases arithmetic? additive token with
  | none => exact .none
  | some operator =>
      exact .some fun _ => operands.bind fun _ => grow_within le _ _

variable {level larger : Level} (levels : level.Within larger)
include levels

theorem termFrom_within (first : Built) :
    Within (termFrom limit level first) (termFrom more larger first) :=
  folded_within le levels.factor first

theorem term_within : Within (term limit level) (term more larger) :=
  levels.factor.bind fun first => termFrom_within le levels first

theorem expressionFrom_within (first : Built) :
    Within (expressionFrom limit level first) (expressionFrom more larger first) :=
  folded_within le (term_within le levels) first

/-- An expression is read in the same way within a larger limit. -/
theorem expression_within : Within (expression limit level) (expression more larger) :=
  (term_within le levels).bind fun first => expressionFrom_within le levels first

theorem expressionList_within :
    Within (expressionList limit level) (expressionList more larger) := by
  refine (expression_within le levels).bind fun first =>
    Reader.Approximates.extend (fun token => ?_) _
  split
  · exact .some fun _ => (expression_within le levels).bind fun _ => .refl _
  · exact .none

theorem member_within (chain : Chain) :
    Within (member limit level chain) (member more larger chain) := by
  refine Reader.Approximates.bind_right fun name => Reader.Approximates.bind_right fun opens => ?_
  split
  · exact .bind_right fun _ => (expressionList_within le levels).bind fun _ => .refl _
  · exact .refl _

theorem memberChain_within : Within (memberChain limit level) (memberChain more larger) := by
  refine Reader.Approximates.extend (fun token => ?_) _
  split
  · exact .some fun chain => member_within le levels chain
  · exact .none

theorem call_within (callee : Built) :
    Within (call limit level callee) (call more larger callee) := by
  refine Reader.Approximates.bind_right fun closes => ?_
  dsimp only
  split
  · exact .bind_right fun _ => .bind_right fun _ => grow_within le _ _
  · exact (expressionList_within le levels).bind fun _ => .bind_right fun _ => grow_within le _ _

theorem index_within (target : Built) :
    Within (index limit level target) (index more larger target) :=
  (expressionList_within le levels).bind fun _ => .bind_right fun _ =>
    (memberChain_within le levels).bind fun _ => grow_within le _ _

theorem postfixed_within (first : Built) :
    Within (postfixed limit level first) (postfixed more larger first) := by
  refine Reader.Approximates.extend (fun token => ?_) first
  split
  · exact .some fun callee => call_within le levels callee
  · exact .some fun target => index_within le levels target
  · exact .none

theorem comparisonFrom_within (left : Built) :
    Within (comparisonFrom limit level left) (comparisonFrom more larger left) := by
  refine Reader.Approximates.bind_right fun next => ?_
  split
  · exact .refl _
  · exact .bind_right fun _ => (expression_within le levels).bind fun _ =>
      (grow_within le _ _).bind fun _ => .refl _

/-- An operand of a condition is read in the same way within a larger limit. -/
theorem conditionOperand_within :
    Within (conditionOperand limit level) (conditionOperand more larger) := by
  refine Reader.Approximates.bind_right fun opens => ?_
  split
  · refine .bind_right fun _ => levels.operand.bind fun inner => .bind_right fun _ => ?_
    cases inner with
    | condition built => exact .refl _
    | expression built =>
        exact (postfixed_within le levels built).bind fun factor =>
          (termFrom_within le levels factor).bind fun product =>
          (expressionFrom_within le levels product).bind fun sum =>
          comparisonFrom_within le levels sum
  · exact (expression_within le levels).bind fun left => comparisonFrom_within le levels left

theorem logical_within (first : Built) :
    Within (Grammar.logical limit level first) (Grammar.logical more larger first) := by
  refine Reader.Approximates.extend (fun token => ?_) first
  cases connective? token with
  | none => exact .none
  | some operator =>
      exact .some fun _ => (conditionOperand_within le levels).bind fun _ =>
        .bind_right fun _ => grow_within le _ _

theorem operandBody_within : Within (operandBody limit level) (operandBody more larger) := by
  refine (conditionOperand_within le levels).bind fun first => .bind_right fun next => ?_
  split
  · exact .refl _
  · exact .bind_right fun left => (logical_within le levels left).bind fun _ => .refl _

theorem conditional_within :
    Within (Grammar.conditional limit level) (Grammar.conditional more larger) :=
  .bind_right fun _ => levels.operand.bind fun _ => .bind_right fun _ => .bind_right fun _ =>
    (expression_within le levels).bind fun _ => .bind_right fun _ =>
    (expression_within le levels).bind fun _ => grow_within le _ _

theorem grouped_within : Within (grouped limit level) (grouped more larger) :=
  .bind_right fun _ => (expression_within le levels).bind fun inner => .bind_right fun _ =>
    postfixed_within le levels inner

theorem factorBody_within : Within (factorBody limit level) (factorBody more larger) := by
  refine Reader.Approximates.bind_right fun next => ?_
  split
  · exact .refl _
  · split
    · split
      · exact .refl _
      · exact .bind_right fun _ => levels.factor.bind fun _ => grow_within le _ _
    · exact grouped_within le levels
    · split
      · exact .refl _
      · exact .refl _
    · exact .refl _
    · exact conditional_within le levels
    · exact .bind_right fun _ => postfixed_within le levels _
    · exact .refl _

end Limits

/-- Levels with smaller limits approximate those with greater ones. -/
theorem level_within
    {limit more : Nat}
    (le : limit ≤ more)
    {budget larger : Nat}
    (within : budget ≤ larger) :
    (level limit budget).Within (level more larger) := by
  induction budget generalizing larger with
  | zero => exact ⟨tooDeep_within _, tooDeep_within _⟩
  | succ below hypothesis =>
      obtain ⟨under, rfl⟩ := Nat.exists_eq_add_one.mpr (Nat.lt_of_lt_of_le below.succ_pos within)
      have levels := hypothesis (Nat.le_of_succ_le_succ within)
      exact ⟨factorBody_within le levels, operandBody_within le levels⟩

end Grammar
end Expr
end ModelEquation
