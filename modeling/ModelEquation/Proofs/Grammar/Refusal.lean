import ModelEquation.Proofs.Grammar.Completion
import ModelEquation.Proofs.Grammar.Lookahead
import ModelEquation.Proofs.Grammar.Threshold

/-!
# The first token that cannot go on

Where a token is refused, the tokens before it are the beginning of an expression, and
those up to it are not. The first half is that what was taken can be completed; the
second one that the refusal is settled by the token refused, whatever follows it and
however deeply nesting may go.
-/

namespace ModelEquation
namespace Expr

namespace Grammar

variable {limit : Nat} {tokens remaining : List Token} {expected : Expectation}

/-- The tokens before one that is refused begin an expression, and other tokens behind
those and the one refused are refused there as well. -/
theorem wholeExpression_refuses
    (ran : (wholeExpression limit).run tokens = .error ⟨.unexpected expected, remaining⟩) :
    ∃ taken, tokens = taken ++ remaining ∧ Completable (Recognized .expression) taken ∧
      ∀ other, other.head? = remaining.head? →
        (wholeExpression limit).run (taken ++ other) = .error ⟨.unexpected expected, other⟩ := by
  obtain ⟨reason, taken, rest, split, failure, settled⟩ :=
    (wholeExpression_oneAhead limit tokens).of_run_error ran
  cases failure
  rcases (wholeExpression_extends limit tokens).of_run_error ran with gaveUp | completed
  · cases gaveUp
  · obtain ⟨begun, whole, completable⟩ := completed
    have same : begun = taken := List.append_cancel_right (whole.symm.trans split)
    exact ⟨taken, split, same ▸ completable, settled⟩

end Grammar

open Grammar

variable {options : Options} {finish : Nat} {tokens : List Token}

/-- Tokens that the productions form are accepted with enough levels for them. -/
theorem exists_ofTokens_eq_ok
    (recognized : Recognized .expression tokens) :
    ∃ tree, ∀ options : Options, 2 * tokens.length + 1 ≤ options.maxDepth →
      ofTokens options tokens = .ok tree := by
  obtain ⟨depth, ending, tree, derived⟩ := recognized
  exact ⟨tree, fun options enough =>
    ofTokensUntil_eq_ok_iff.mpr ((read_eq_ok_iff enough).mpr ⟨depth, ending, derived⟩)⟩

/-- Tokens that are refused within some limit are accepted within none. -/
theorem ofTokensUntil_ne_ok_of_refused
    {limit : Nat}
    {expected : Expectation}
    {remaining : List Token}
    (ran : (wholeExpression limit).run tokens = .error ⟨.unexpected expected, remaining⟩)
    (options : Options)
    (finish : Nat)
    (tree : Expr) :
    ofTokensUntil options finish tokens ≠ .ok tree := by
  intro accepted
  let narrow : Options := ⟨limit⟩
  have settled : ¬ GivesUp tokens narrow.maxDepth := by simp [narrow, GivesUp, ran, Failure.GaveUp]
  have refused : Expr.read narrow tokens = .error ⟨.unexpected expected, remaining⟩ := by
    rw [Expr.read, ran]
    rfl
  rw [ofTokensUntil_of_settled settled (not_givesUp_of_ok accepted),
    ofTokensUntil_of_read_error finish refused] at accepted
  contradiction

/-- An unexpected token is the first one that is left when the reading fails. -/
theorem ofTokensUntil_eq_unexpected
    {expected : Expectation}
    {found : Option Token}
    {position : Nat}
    (refused : ofTokensUntil options finish tokens = .error (.unexpected expected found position)) :
    ∃ remaining,
      (wholeExpression options.maxDepth).run tokens = .error ⟨.unexpected expected, remaining⟩ ∧
        found = remaining.head? := by
  cases ran : (wholeExpression options.maxDepth).run tokens with
  | ok result =>
      have success : Expr.read options tokens = .ok result.1.expression := by
        rw [Expr.read, ran]
        rfl
      simp [ofTokensUntil_of_read_ok finish success] at refused
  | error failure =>
      have failed : Expr.read options tokens = .error failure := by rw [Expr.read, ran]; rfl
      obtain ⟨reason, remaining⟩ := failure
      rw [ofTokensUntil_of_read_error finish failed] at refused
      cases reason with
      | tooDeep => simp [Failure.located] at refused
      | unexpected wanted =>
          simp only [Failure.located, Except.error.injEq, Fault.unexpected.injEq] at refused
          obtain ⟨rfl, rfl, rfl⟩ := refused
          exact ⟨remaining, rfl, rfl⟩

/-- A token is refused exactly where the tokens cannot go on. Those before it are the
beginning of tokens that are accepted, and with it they are not, whatever follows and
within whatever limit. Where nothing is refused but the end, all tokens are such a
beginning. -/
theorem ofTokens_refuses_first
    {expected : Expectation}
    {found : Option Token}
    {position : Nat}
    (refused : ofTokens options tokens = .error (.unexpected expected found position)) :
    ∃ index ≤ tokens.length,
      Expr.read options tokens = .error ⟨.unexpected expected, tokens.drop index⟩ ∧
      found = tokens[index]? ∧
      (∃ more tree, ∀ wider : Options,
        2 * (tokens.take index ++ more).length + 1 ≤ wider.maxDepth →
          ofTokens wider (tokens.take index ++ more) = .ok tree) ∧
      (index < tokens.length → ∀ (more : List Token) (wider : Options) (tree : Expr),
        ofTokens wider (tokens.take (index + 1) ++ more) ≠ .ok tree) := by
  obtain ⟨remaining, ran, rfl⟩ := ofTokensUntil_eq_unexpected refused
  obtain ⟨taken, rfl, ⟨more, recognized⟩, settled⟩ := wholeExpression_refuses ran
  have failed : Expr.read options (taken ++ remaining) =
      .error ⟨.unexpected expected, remaining⟩ := by
    rw [Expr.read, ran]
    rfl
  have found : (taken ++ remaining)[taken.length]? = remaining.head? := by
    rw [List.getElem?_append_right (Nat.le_refl _), Nat.sub_self, List.head?_eq_getElem?]
  refine ⟨taken.length, by simp, by simpa using failed, found.symm, ?_, ?_⟩
  · rw [List.take_left]
    exact ⟨more, exists_ofTokens_eq_ok recognized⟩
  · intro inside more wider tree
    cases remaining with
    | nil => simp at inside
    | cons token others =>
        have beginning : (taken ++ token :: others).take (taken.length + 1) = taken ++ [token] :=
          List.take_length_add_append 1
        rw [beginning, List.append_assoc]
        exact ofTokensUntil_ne_ok_of_refused (settled (token :: more) rfl) wider _ tree

/-- The tokens of `if ( a ) then`: the last of them is refused, because a comparison is
missing, though the parenthesis that should hold it is closed by then. -/
theorem ofTokens_refuses_first_of_group :
    let tokens : List Token :=
      [⟨.ifWord, "if", 0⟩, ⟨.leftParenthesis, "(", 3⟩, ⟨.identifier, "a", 5⟩,
        ⟨.rightParenthesis, ")", 7⟩, ⟨.thenWord, "then", 9⟩]
    ofTokens { maxDepth := 11 } tokens =
        .error (.unexpected .comparison (some ⟨.thenWord, "then", 9⟩) 9) ∧
      (∃ more tree, ofTokens { maxDepth := 2 * (4 + more.length) + 1 } (tokens.take 4 ++ more) =
        .ok tree) ∧
      ∀ (more : List Token) (wider : Options) (tree : Expr),
        ofTokens wider (tokens ++ more) ≠ .ok tree := by
  intro tokens
  have refused : ofTokens { maxDepth := 11 } tokens =
      .error (.unexpected .comparison (some ⟨.thenWord, "then", 9⟩) 9) := by
    with_unfolding_all rfl
  have failed : Expr.read { maxDepth := 11 } tokens =
      .error ⟨.unexpected .comparison, tokens.drop 4⟩ := by
    with_unfolding_all rfl
  obtain ⟨index, le, ran, _, ⟨more, tree, completes⟩, refuses⟩ := ofTokens_refuses_first refused
  rw [failed] at ran
  have place : index = 4 := by
    have lengths := congrArg List.length (Failure.mk.inj (Except.error.inj ran)).2
    simp only [List.length_drop, tokens, List.length_cons, List.length_nil] at lengths le
    omega
  subst place
  refine ⟨refused, ⟨more, tree, completes _ ?_⟩, refuses (by decide)⟩
  rw [List.length_append]
  exact Nat.le_refl _

end Expr
end ModelEquation
