import Mathlib.Data.Nat.Find
import ModelEquation.Proofs.Grammar.Language

/-!
# The limit as a threshold

A greater limit on nesting never undoes what a smaller one allowed: a reader that does
not give up within some limit does the same within every greater one. Reading a list
of tokens therefore gives up below one limit, the threshold of the tokens, and has the
same outcome from there on. No threshold is above one more than twice the number of
tokens.
-/

namespace ModelEquation
namespace Expr

namespace Grammar

variable {limit more : Nat} {tokens : List Token}

/-- Reading the tokens within the limit fails because of nesting. -/
def GivesUp (tokens : List Token) (limit : Nat) : Prop :=
  ∃ failure, (wholeExpression limit).run tokens = .error failure ∧ failure.GaveUp

/-- Where reading does not give up, a greater limit changes nothing. -/
theorem run_wholeExpression_of_le
    (settled : ¬ GivesUp tokens limit)
    (le : limit ≤ more) :
    (wholeExpression more).run tokens = (wholeExpression limit).run tokens := by
  rcases wholeExpression_within le tokens with gaveUp | same
  · exact absurd gaveUp settled
  · exact same.symm

/-- A limit that is enough remains so when it grows. -/
theorem not_givesUp_of_le
    (settled : ¬ GivesUp tokens limit)
    (le : limit ≤ more) :
    ¬ GivesUp tokens more := by
  unfold GivesUp at settled ⊢
  rwa [run_wholeExpression_of_le settled le]

/-- Not even one factor fits within no level. -/
theorem givesUp_zero (tokens : List Token) : GivesUp tokens 0 :=
  ⟨⟨.tooDeep, tokens⟩, rfl, rfl⟩

/-- Two levels for each token and one more are enough. -/
theorem not_givesUp_of_length (enough : 2 * tokens.length + 1 ≤ limit) :
    ¬ GivesUp tokens limit := by
  rintro ⟨failure, ran, gaveUp⟩
  exact (wholeExpression_yields enough).of_run_error ran gaveUp

/-- There is a least limit within which reading does not give up. -/
theorem exists_threshold (tokens : List Token) :
    ∃ threshold, 1 ≤ threshold ∧ threshold ≤ 2 * tokens.length + 1 ∧
      ∀ limit, GivesUp tokens limit ↔ limit < threshold := by
  classical
  have settles : ∃ limit, ¬ GivesUp tokens limit :=
    ⟨2 * tokens.length + 1, not_givesUp_of_length (Nat.le_refl _)⟩
  refine ⟨Nat.find settles, ?_, Nat.find_min' settles (not_givesUp_of_length (Nat.le_refl _)),
    fun limit => ⟨fun gaveUp => ?_, fun below => ?_⟩⟩
  · exact Nat.one_le_iff_ne_zero.mpr fun zero =>
      Nat.find_spec settles (zero ▸ givesUp_zero tokens)
  · refine Nat.lt_of_not_le fun above => ?_
    exact not_givesUp_of_le (Nat.find_spec settles) above gaveUp
  · exact not_not.mp (Nat.find_min settles below)

end Grammar

open Grammar

variable {options wider : Options} {finish : Nat} {tokens : List Token}

/-- Giving up is reported with the limit. -/
theorem ofTokensUntil_of_givesUp
    (gaveUp : GivesUp tokens options.maxDepth) :
    ∃ position, ofTokensUntil options finish tokens =
      .error (.tooDeep options.maxDepth position) := by
  obtain ⟨failure, ran, reason⟩ := gaveUp
  have refused : Expr.read options tokens = .error failure := by rw [Expr.read, ran]; rfl
  rw [ofTokensUntil_of_read_error finish refused, Failure.located]
  rw [Failure.GaveUp] at reason
  rw [reason]
  exact ⟨_, rfl⟩

/-- Tokens that are accepted are read without giving up. -/
theorem not_givesUp_of_ok
    {tree : Expr}
    (accepted : ofTokensUntil options finish tokens = .ok tree) :
    ¬ GivesUp tokens options.maxDepth := by
  intro gives
  obtain ⟨position, failed⟩ : ∃ position, ofTokensUntil options finish tokens = _ :=
    ofTokensUntil_of_givesUp gives
  rw [accepted] at failed
  contradiction

/-- Where reading does not give up, the position of a fault and the fault itself do not
depend on the limit either. -/
theorem ofTokensUntil_of_le
    (settled : ¬ GivesUp tokens options.maxDepth)
    (le : options.maxDepth ≤ wider.maxDepth) :
    ofTokensUntil wider finish tokens = ofTokensUntil options finish tokens := by
  have same := run_wholeExpression_of_le settled le
  unfold ofTokensUntil Expr.read
  rw [same]
  cases ran : (wholeExpression options.maxDepth).run tokens with
  | ok result => rfl
  | error failure =>
      have reason : failure.reason ≠ .tooDeep := fun reason => settled ⟨failure, ran, reason⟩
      simp only [Except.map, Except.mapError, Failure.located]
      split
      · rfl
      · contradiction

/-- All limits within which reading does not give up have the same outcome. -/
theorem ofTokensUntil_of_settled
    (settled : ¬ GivesUp tokens options.maxDepth)
    (another : ¬ GivesUp tokens wider.maxDepth) :
    ofTokensUntil wider finish tokens = ofTokensUntil options finish tokens := by
  rcases Nat.le_total options.maxDepth wider.maxDepth with le | le
  · exact ofTokensUntil_of_le settled le
  · exact (ofTokensUntil_of_le another le).symm

/-- A limit that is enough is not reported as exceeded, and neither is any other. -/
theorem ofTokensUntil_ne_tooDeep_of_settled
    (settled : ¬ GivesUp tokens options.maxDepth)
    (limit position : Nat) :
    ofTokensUntil options finish tokens ≠ .error (.tooDeep limit position) := by
  let wider : Options := ⟨2 * tokens.length + 1⟩
  have another : ¬ GivesUp tokens wider.maxDepth := not_givesUp_of_length (Nat.le_refl _)
  rw [ofTokensUntil_of_settled another settled]
  exact ofTokensUntil_ne_tooDeep (Nat.le_refl _) limit position

/-- Tokens that are accepted within one limit have a threshold no greater than it, from
which on they are accepted. -/
theorem ofTokensUntil_threshold_of_ok
    {tree : Expr}
    (accepted : ofTokensUntil options finish tokens = .ok tree) :
    ∃ threshold ≤ options.maxDepth,
      (∀ other : Options, threshold ≤ other.maxDepth →
        ofTokensUntil other finish tokens = .ok tree) ∧
      ∀ other : Options, other.maxDepth < threshold →
        ∃ position, ofTokensUntil other finish tokens =
          .error (.tooDeep other.maxDepth position) := by
  obtain ⟨threshold, _, _, gaveUp⟩ := exists_threshold tokens
  have settled := not_givesUp_of_ok accepted
  refine ⟨threshold, Nat.le_of_not_lt fun below => settled ((gaveUp _).mpr below),
    fun other above => ?_, fun other below => ofTokensUntil_of_givesUp ((gaveUp _).mpr below)⟩
  rw [ofTokensUntil_of_settled settled fun gives => Nat.not_lt_of_le above ((gaveUp _).mp gives)]
  exact accepted

/-- The limit on nesting is a threshold. Below it the fault is the nesting, with the limit
that was given; from it on the outcome is always the same and never that fault. -/
theorem ofTokens_threshold (tokens : List Token) :
    ∃ threshold, 1 ≤ threshold ∧ threshold ≤ 2 * tokens.length + 1 ∧
      (∀ options : Options, options.maxDepth < threshold →
        ∃ position, ofTokens options tokens = .error (.tooDeep options.maxDepth position)) ∧
      ∃ outcome, (∀ limit position, outcome ≠ .error (.tooDeep limit position)) ∧
        ∀ options : Options, threshold ≤ options.maxDepth →
          ofTokens options tokens = outcome := by
  obtain ⟨threshold, positive, bounded, gaveUp⟩ := exists_threshold tokens
  let least : Options := ⟨threshold⟩
  have settled : ¬ GivesUp tokens least.maxDepth :=
    fun gives => Nat.lt_irrefl _ ((gaveUp _).mp gives)
  exact ⟨threshold, positive, bounded, fun options below =>
    ofTokensUntil_of_givesUp ((gaveUp _).mpr below), ofTokens least tokens,
    ofTokensUntil_ne_tooDeep_of_settled settled, fun options above =>
    ofTokensUntil_of_le settled above⟩

end Expr
end ModelEquation
