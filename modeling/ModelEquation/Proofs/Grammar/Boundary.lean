import ModelEquation.Proofs.Grammar.Continuation
import ModelEquation.Proofs.Grammar.Lookahead
import ModelEquation.Proofs.Reader.Boundary

/-!
# Expressions in front of other tokens

An expression that takes all of its tokens takes the same where tokens follow by which no
expression goes on. Only the readers of expressions, with all that stands after their last token,
can meet the end of the tokens: a condition is always followed by a word or a parenthesis.
-/

namespace ModelEquation
namespace Expr
namespace Grammar

open Reader (EndsBefore EndsBeforeAt NeverEnds endsBefore_bind_of_neverEnds endsBefore_extend
  endsBeforeAt_peek_bind endsBeforeAt_skip_bind neverEnds_bind)

/-- The production stops in front of tokens by which no expression goes on. -/
abbrev Stops {α : Type} (production : Production α) : Prop :=
  production.EndsBefore (Avoids expressionKinds)

/-- The factors of a level stop, and each has at least one token. -/
structure Level.Stops (level : Level) : Prop where
  factor : Grammar.Stops level.factor
  starts : level.factor.NeverEnds

/-- The next token is of none of the kinds by which an expression goes on. -/
theorem avoids_kind
    {kind : Token.Kind}
    (known : kind ∈ expressionKinds)
    {rest : List Token}
    (avoids : Avoids expressionKinds rest)
    {token : Token}
    (next : token ∈ rest.head?) :
    token.kind ≠ kind := by
  rintro rfl
  exact avoids token next known

theorem skip_oneAhead : OneAhead (Reader.skip : Production Unit) :=
  Reader.OneAhead.skip

/-- A token that is expected has to be there. -/
theorem expect_neverEnds (kind : Token.Kind) : (expect kind).NeverEnds :=
  fun _ => nofun

theorem expect_stops (kind : Token.Kind) : Stops (expect kind) := by
  intro input
  cases input with
  | nil => exact fun _ ran => nomatch ran
  | cons token others =>
      intro value ran other _
      by_cases known : token.kind = kind
      · rw [run_expect known] at ran
        cases ran
        exact run_expect known other
      · simp [expect, known, unexpected] at ran

theorem sees_stops
    {kind : Token.Kind}
    (known : kind ∈ expressionKinds) :
    Stops (sees kind) := by
  intro input value ran other avoids
  obtain rfl : input = [] := by
    simp only [sees, Reader.run_bind, Reader.run_peek, Reader.run_pure] at ran
    cases ran
    rfl
  have unseen : ¬ (other.head?.any fun token => token.kind = kind) = true := by
    rw [Option.any_eq_true]
    rintro ⟨token, next, same⟩
    exact avoids_kind known avoids next (of_decide_eq_true same)
  cases ran
  simp only [sees, Reader.run_bind, Reader.run_peek, Reader.run_pure, List.nil_append]
  rw [Bool.eq_false_iff.mpr unseen]
  rfl

/-- Building a tree takes no token, so it stops wherever it stands. -/
theorem grow_stops (limit below : Nat) (expression : Expr) :
    Stops (grow limit below expression) := by
  unfold grow
  split
  · exact Reader.endsBefore_pure _
  · exact Reader.endsBefore_fail _

/-- A sequence of operations stops where its operands do. -/
theorem folded_stops
    {operand : Production Built}
    (ahead : OneAhead operand)
    (stops : Stops operand)
    (limit : Nat)
    (additive : Bool)
    (first : Built) :
    Stops (folded limit additive operand first) := by
  refine endsBefore_extend Failure.mk ?_ ?_ ?_ first
  · intro other avoids token next
    rw [arithmetic?_eq_none (avoids_kind (by simp [expressionKinds]) avoids next)]
    rfl
  · intro token continuation opened left
    obtain ⟨operator, _, rfl⟩ := Option.map_eq_some_iff.mp opened
    exact .bind ahead fun _ => grow_oneAhead _ _ _
  · intro token continuation opened left
    obtain ⟨operator, _, rfl⟩ := Option.map_eq_some_iff.mp opened
    exact .bind ahead stops fun _ => grow_stops _ _ _

/-- What is closed by a token does not end before it. -/
theorem closed_neverEnds
    {α : Type}
    (limit : Nat)
    (level : Level)
    (kind : Token.Kind)
    (next : Listed → Production α) :
    (expressionList limit level >>= fun listed =>
      expect kind >>= fun _ => next listed).NeverEnds :=
  neverEnds_bind _ fun _ => (expect_neverEnds kind).bind _

/-- A factor has at least one token. -/
theorem factorBody_neverEnds (limit : Nat) (level : Level) : (factorBody limit level).NeverEnds :=
  fun _ => nofun

section Groups

variable {level : Level} (ahead : level.OneAhead) (limit : Nat)
include ahead

/-- A list between brackets does not meet the end, since its closing bracket follows. -/
theorem closed_stops
    {α : Type}
    (kind : Token.Kind)
    {next : Listed → Production α}
    (nexts : ∀ listed, Stops (next listed)) :
    Stops (expressionList limit level >>= fun listed => expect kind >>= fun _ => next listed) :=
  endsBefore_bind_of_neverEnds (expressionList_oneAhead ahead limit)
    (fun _ => (expect_neverEnds kind).bind _)
    fun listed => .bind (expect_oneAhead kind) (expect_stops kind) fun _ => nexts listed

theorem member_stops (chain : Chain) : Stops (member limit level chain) := by
  refine .bind (expect_oneAhead _) (expect_stops _) fun name =>
    .bind (sees_oneAhead _) (sees_stops (by simp [expressionKinds, postfixKinds])) fun opens => ?_
  split
  · exact endsBefore_bind_of_neverEnds skip_oneAhead
      (fun _ => closed_neverEnds limit level _ _)
      fun _ => closed_stops ahead limit _ fun _ => Reader.endsBefore_pure _
  · exact Reader.endsBefore_pure _

theorem memberChain_stops : Stops (memberChain limit level) := by
  refine endsBefore_extend Failure.mk ?_ ?_ ?_ _
  · exact fun other avoids token next =>
      if_neg (avoids_kind (by simp [expressionKinds, postfixKinds]) avoids next)
  · intro token continuation opened chain
    split at opened
    · cases opened
      exact member_oneAhead ahead limit chain
    · contradiction
  · intro token continuation opened chain
    split at opened
    · cases opened
      exact member_stops ahead limit chain
    · contradiction

theorem call_stops (callee : Built) : Stops (call limit level callee) := by
  have closing (listed : Listed) : Stops (expect .rightParenthesis >>= fun _ =>
      grow limit (max callee.height listed.height)
        (.call callee.expression listed.expressions)) :=
    .bind (expect_oneAhead _) (expect_stops _) fun _ => grow_stops _ _ _
  refine endsBefore_bind_of_neverEnds (sees_oneAhead _) (fun closes => ?_) fun closes => ?_
  · dsimp only
    split
    · exact neverEnds_bind _ fun _ => (expect_neverEnds _).bind _
    · exact closed_neverEnds limit level _ _
  · dsimp only
    split
    · exact .bind (pure_oneAhead _) (Reader.endsBefore_pure _) closing
    · exact closed_stops ahead limit _ fun _ => grow_stops _ _ _

theorem index_stops (target : Built) : Stops (index limit level target) :=
  closed_stops ahead limit _ fun _ => .bind (memberChain_oneAhead ahead limit)
    (memberChain_stops ahead limit) fun _ => grow_stops _ _ _

theorem postfixed_stops (first : Built) : Stops (postfixed limit level first) := by
  refine endsBefore_extend Failure.mk ?_ ?_ ?_ first
  · intro other avoids token next
    have opening : token.kind ≠ .leftParenthesis :=
      avoids_kind (by simp [expressionKinds, postfixKinds]) avoids next
    have bracket : token.kind ≠ .leftBracket :=
      avoids_kind (by simp [expressionKinds, postfixKinds]) avoids next
    split <;> simp_all
  · intro token continuation opened built
    split at opened
    · cases opened
      exact call_oneAhead ahead limit built
    · cases opened
      exact index_oneAhead ahead limit built
    · contradiction
  · intro token continuation opened built
    split at opened
    · cases opened
      exact call_stops ahead limit built
    · cases opened
      exact index_stops ahead limit built
    · contradiction

theorem grouped_stops : Stops (grouped limit level) := by
  refine endsBefore_bind_of_neverEnds skip_oneAhead (fun _ => ?_) fun _ => ?_
  · exact neverEnds_bind _ fun _ => (expect_neverEnds _).bind _
  exact endsBefore_bind_of_neverEnds (expression_oneAhead ahead limit)
    (fun _ => (expect_neverEnds _).bind _) fun inner =>
    .bind (expect_oneAhead _) (expect_stops _) fun _ => postfixed_stops ahead limit inner

end Groups

section Level

variable {level : Level} (ahead : level.OneAhead) (stops : level.Stops) (limit : Nat)
include ahead stops

theorem termFrom_stops (first : Built) : Stops (termFrom limit level first) :=
  folded_stops ahead.factor stops.factor limit false first

theorem term_stops : Stops (term limit level) :=
  .bind ahead.factor stops.factor fun first => termFrom_stops ahead stops limit first

theorem expressionFrom_stops (first : Built) : Stops (expressionFrom limit level first) :=
  folded_stops (term_oneAhead ahead limit) (term_stops ahead stops limit) limit true first

/-- An expression stops where no operator follows. -/
theorem expression_stops : Stops (expression limit level) :=
  .bind (term_oneAhead ahead limit) (term_stops ahead stops limit)
    fun first => expressionFrom_stops ahead stops limit first

theorem conditional_stops : Stops (conditional limit level) := by
  refine .bind (expect_oneAhead _) (expect_stops _) fun _ =>
    endsBefore_bind_of_neverEnds ahead.operand (fun operand => ?_) fun operand => ?_
  · exact neverEnds_bind _ fun _ => (expect_neverEnds _).bind _
  refine endsBefore_bind_of_neverEnds (condition_oneAhead operand)
    (fun _ => (expect_neverEnds _).bind _) fun chosen => ?_
  refine .bind (expect_oneAhead _) (expect_stops _) fun _ =>
    endsBefore_bind_of_neverEnds (expression_oneAhead ahead limit)
      (fun _ => (expect_neverEnds _).bind _) fun whenTrue => ?_
  exact .bind (expect_oneAhead _) (expect_stops _) fun _ =>
    .bind (expression_oneAhead ahead limit) (expression_stops ahead stops limit)
      fun _ => grow_stops _ _ _

theorem signed_stops (operator : Sign) : Stops (signed limit level operator) :=
  endsBefore_bind_of_neverEnds skip_oneAhead (fun _ => stops.starts.bind _)
    fun _ => .bind ahead.factor stops.factor fun _ => grow_stops _ _ _

theorem factorBody_stops : Stops (factorBody limit level) := by
  intro input
  cases input with
  | nil => exact fun _ ran => absurd ran (factorBody_neverEnds limit level _)
  | cons token others =>
      apply endsBeforeAt_peek_bind
      dsimp only
      split
      · split
        · exact Reader.endsBefore_fail _ _
        · exact signed_stops ahead stops limit _ _
      · exact grouped_stops ahead limit _
      · split
        · exact Reader.endsBefore_fail _ _
        · exact endsBeforeAt_skip_bind (Reader.endsBefore_pure _ _)
      · exact endsBeforeAt_skip_bind (Reader.endsBefore_pure _ _)
      · exact conditional_stops ahead stops limit _
      · exact endsBeforeAt_skip_bind (postfixed_stops ahead limit _ _)
      · exact Reader.endsBefore_fail _ _

end Level

/-- The factors of every level stop, by induction on the levels that are left. -/
theorem level_stops (limit budget : Nat) : (level limit budget).Stops := by
  induction budget with
  | zero => exact ⟨Reader.endsBefore_fail _, Reader.neverEnds_fail _⟩
  | succ below stops =>
      exact ⟨factorBody_stops (level_oneAhead limit below) stops limit,
        factorBody_neverEnds limit _⟩

/-- An expression that takes all of the tokens takes the same in front of others. -/
theorem run_expression_append
    {limit budget : Nat}
    {tokens : List Token}
    {built : Built}
    (ran : (expression limit (level limit budget)).run tokens = .ok (built, []))
    (rest : List Token)
    (avoids : Avoids expressionKinds rest) :
    (expression limit (level limit budget)).run (tokens ++ rest) = .ok (built, rest) :=
  expression_stops (level_oneAhead limit budget) (level_stops limit budget) limit tokens built ran
    rest avoids

end Grammar
end Expr
end ModelEquation
