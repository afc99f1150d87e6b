import ModelEquation.Expr.Parser
import ModelEquation.Proofs.Grammar.Ambiguity
import ModelEquation.Proofs.Grammar.Soundness

/-!
# The language of expressions

Reading tokens decides the grammar. With a limit above twice the number of tokens
nesting is never the reason for a failure, the tokens that are accepted are those
that the productions form, and the tree that is returned is the only one that
they form in the greedy way.
-/

namespace ModelEquation
namespace Expr

namespace Grammar

variable {limit more : Nat} {tokens : List Token}

/-- With a larger limit a text is read in the same way, unless the smaller one was exceeded. -/
theorem wholeExpression_within (le : limit ≤ more) :
    Within (wholeExpression limit) (wholeExpression more) :=
  (expression_within le (level_within le le)).bind fun _ => .refl _

/-- Tokens that form an expression in the greedy way are read as it within any limit
that their nesting and its height fit. -/
theorem run_wholeExpression_of_derives
    {depth : Nat}
    {ending : Ending}
    {tree : Expr}
    (derived : Derives .greedy depth (.expression ending tree) tokens)
    (levels : depth ≤ limit)
    (fits : tree.height ≤ limit) :
    (wholeExpression limit).run tokens = .ok (tree.built, []) := by
  have whole := run_expression_of_read (derived.mono levels).reads fits [] (avoids_nil _)
  rw [List.append_nil] at whole
  rw [wholeExpression, Reader.run_bind, whole]
  rfl

/-- Some limit suffices for any tokens that have a greedy derivation. The limit serves both as
the number of levels and as the bound on heights. -/
theorem exists_run_wholeExpression
    {tree : Expr}
    (denotes : Denotes .greedy tokens tree)
    (limit : Nat) :
    ∃ more, limit ≤ more ∧ (wholeExpression more).run tokens = .ok (tree.built, []) := by
  obtain ⟨depth, ending, derived⟩ := denotes
  let more := max limit (max depth tree.height)
  have levels : depth ≤ more :=
    Nat.le_trans (Nat.le_max_left depth tree.height) (Nat.le_max_right limit _)
  have fits : tree.height ≤ more :=
    Nat.le_trans (Nat.le_max_right depth tree.height) (Nat.le_max_right limit _)
  exact ⟨more, Nat.le_max_left _ _, run_wholeExpression_of_derives derived levels fits⟩

/-- A limit above twice the number of tokens is as good as any greater one. -/
theorem run_wholeExpression_eq
    (enough : 2 * tokens.length + 1 ≤ limit)
    (le : limit ≤ more) :
    (wholeExpression limit).run tokens = (wholeExpression more).run tokens := by
  rcases wholeExpression_within le tokens with ⟨failure, failed, gaveUp⟩ | same
  · exact absurd gaveUp ((wholeExpression_yields enough).of_run_error failed)
  · exact same

end Grammar

open Grammar

variable {options : Options} {finish : Nat} {tokens : List Token} {tree : Expr}

/-- What is read has a greedy derivation, and what has one is read. -/
theorem read_eq_ok_iff
    (enough : 2 * tokens.length + 1 ≤ options.maxDepth) :
    read options tokens = .ok tree ↔ Denotes .greedy tokens tree := by
  constructor
  · intro success
    cases ran : (wholeExpression options.maxDepth).run tokens with
    | error failure => simp [read, ran, Except.map] at success
    | ok result =>
        obtain ⟨built, rest⟩ := result
        obtain ⟨_, _, denotes⟩ := (wholeExpression_yields enough).of_run ran
        simp only [read, ran, Except.map, Except.ok.injEq] at success
        rw [← success]
        exact denotes
  · intro denotes
    obtain ⟨more, le, ran⟩ := exists_run_wholeExpression denotes options.maxDepth
    rw [read, run_wholeExpression_eq enough le, ran]
    rfl

/-- Under whatever limit, what is read has a greedy derivation. -/
theorem denotes_of_read
    (success : read options tokens = .ok tree) :
    Denotes .greedy tokens tree := by
  let wider : Options := ⟨max options.maxDepth (2 * tokens.length + 1)⟩
  have le : options.maxDepth ≤ wider.maxDepth := Nat.le_max_left ..
  have enough : 2 * tokens.length + 1 ≤ wider.maxDepth := Nat.le_max_right ..
  refine (read_eq_ok_iff enough).mp ?_
  cases ran : (wholeExpression options.maxDepth).run tokens with
  | error failure => simp [read, ran, Except.map] at success
  | ok result =>
      have again := (wholeExpression_within le).run_eq_ok ran
      rw [read, ran] at success
      rw [read, again, success]

/-- Where the tokens end matters only to a failure. -/
theorem ofTokensUntil_eq_ok_iff :
    ofTokensUntil options finish tokens = .ok tree ↔ read options tokens = .ok tree := by
  cases known : read options tokens with
  | error failure => simp [ofTokensUntil_of_read_error finish known]
  | ok other => simp [ofTokensUntil_of_read_ok finish known]

/-- With enough levels for the tokens nesting is not what fails. -/
theorem ofTokensUntil_ne_tooDeep
    (enough : 2 * tokens.length + 1 ≤ options.maxDepth)
    (limit position : Nat) :
    ofTokensUntil options finish tokens ≠ .error (.tooDeep limit position) := by
  intro tooDeep
  cases ran : (wholeExpression options.maxDepth).run tokens with
  | ok result =>
      have success : read options tokens = .ok result.1.expression := by rw [read, ran]; rfl
      simp [ofTokensUntil_of_read_ok finish success] at tooDeep
  | error failure =>
      have known := (wholeExpression_yields enough).of_run_error ran
      have refused : read options tokens = .error failure := by rw [read, ran]; rfl
      simp only [ofTokensUntil_of_read_error finish refused, Except.error.injEq,
        Failure.located] at tooDeep
      split at tooDeep
      · contradiction
      · next reason => exact known reason

/-- A tree that tokens form in the greedy way is the only one. -/
theorem Grammar.Denotes.unique
    {other : Expr}
    (denotes : Denotes .greedy tokens tree)
    (another : Denotes .greedy tokens other) :
    tree = other := by
  let options : Options := { maxDepth := 2 * tokens.length + 1 }
  have first : read options tokens = .ok tree := (read_eq_ok_iff (Nat.le_refl _)).mpr denotes
  have second : read options tokens = .ok other := (read_eq_ok_iff (Nat.le_refl _)).mpr another
  rw [first] at second
  exact Except.ok.inj second

/-- The greedy convention refuses no tokens that the productions form. -/
theorem Grammar.exists_denotes_greedy_iff :
    (∃ tree, Denotes .greedy tokens tree) ↔ ∃ tree, Denotes .free tokens tree := by
  constructor
  · rintro ⟨tree, depth, ending, derived⟩
    exact ⟨tree, depth + 1, ending, derived.toFree⟩
  · rintro ⟨tree, depth, ending, derived⟩
    obtain ⟨depth, ending, tree, derived⟩ := derived.recognized
    exact ⟨tree, depth, ending, derived⟩

/-- Reading tokens decides the grammar: a tree is returned exactly when it is the
greedy one of the tokens, which is then the only one; some tree is returned
exactly when the productions form the tokens at all; and nesting is never the
fault. -/
theorem ofTokens_decides
    (options : Options)
    (tokens : List Token)
    (enough : 2 * tokens.length + 1 ≤ options.maxDepth) :
    (∀ tree, ofTokens options tokens = .ok tree ↔ Denotes .greedy tokens tree) ∧
      ((∃ tree, ofTokens options tokens = .ok tree) ↔ ∃ tree, Denotes .free tokens tree) ∧
      (∀ tree other, Denotes .greedy tokens tree → Denotes .greedy tokens other → tree = other) ∧
      ∀ limit position, ofTokens options tokens ≠ .error (.tooDeep limit position) := by
  have decides tree : ofTokens options tokens = .ok tree ↔ Denotes .greedy tokens tree :=
    ofTokensUntil_eq_ok_iff.trans (read_eq_ok_iff enough)
  refine ⟨decides, ?_, fun _ _ denotes another => denotes.unique another,
    ofTokensUntil_ne_tooDeep enough⟩
  rw [← Grammar.exists_denotes_greedy_iff]
  exact exists_congr decides

/-- The tokens of `-if (a) < 1 then b else c * d`: the product belongs to the last
branch, and the sign to the whole. -/
theorem ofTokens_decides_of_conditional :
    let tokens : List Token :=
      [⟨.operator, "-", 0⟩, ⟨.ifWord, "if", 1⟩, ⟨.leftParenthesis, "(", 4⟩, ⟨.identifier, "a", 5⟩,
        ⟨.rightParenthesis, ")", 6⟩, ⟨.comparison, "<", 8⟩, ⟨.number, "1", 10⟩,
        ⟨.thenWord, "then", 12⟩, ⟨.identifier, "b", 17⟩, ⟨.elseWord, "else", 19⟩,
        ⟨.identifier, "c", 24⟩, ⟨.operator, "*", 26⟩, ⟨.identifier, "d", 28⟩]
    let tree : Expr :=
      .unary .minus (.conditional (.compare .less (.named "a") (.number (.integer 1)))
        (.named "b") (.binary .multiply (.named "c") (.named "d")))
    2 * tokens.length + 1 ≤ 27 ∧ Denotes .greedy tokens tree ∧
      ∀ other, Denotes .greedy tokens other → other = tree := by
  intro tokens tree
  have enough : 2 * tokens.length + 1 ≤ 27 := by decide
  have decides := ofTokens_decides { maxDepth := 27 } tokens enough
  have read : ofTokens { maxDepth := 27 } tokens = .ok tree := by
    with_unfolding_all rfl
  have denotes := (decides.1 tree).mp read
  exact ⟨enough, denotes, fun other another => decides.2.2.1 other tree another denotes⟩

end Expr
end ModelEquation
