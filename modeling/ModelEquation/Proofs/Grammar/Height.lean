import ModelEquation.Expr.Height
import ModelEquation.Expr.Parser
import ModelEquation.Proofs.Reader.Outcome

/-!
# Heights that readers keep

The readers of the grammar return every expression together with a height that is
computed as the tree grows. That height is the height of the tree, and no tree
that is returned exceeds the limit. A bare variable that takes an index group does
not become taller by a node of its own; the two computations still agree because
an index group is never empty.
-/

namespace ModelEquation

mutual

/-- Every expression has a level of its own. -/
theorem Expr.height_pos : (expression : Expr) → 0 < expression.height
  | .number _ => Nat.one_pos
  | .string _ => Nat.one_pos
  | .variable reference => by
      rw [Expr.height]
      exact reference.height_pos
  | .unary _ _ => Nat.succ_pos _
  | .binary _ _ _ => Nat.succ_pos _
  | .compare _ _ _ => Nat.succ_pos _
  | .logical _ _ _ => Nat.succ_pos _
  | .call _ _ => Nat.succ_pos _
  | .index _ _ _ => Nat.succ_pos _
  | .conditional _ _ _ => Nat.succ_pos _

theorem Variable.height_pos : (reference : Variable) → 0 < reference.height
  | ⟨_, _, _, _⟩ => Nat.succ_pos _

end

namespace Expr

/-- Items are at least one level high. -/
theorem tallest_pos
    {items : List Expr}
    (nonempty : items ≠ []) :
    0 < tallest items := by
  cases items with
  | nil => contradiction
  | cons item rest => exact Nat.lt_of_lt_of_le item.height_pos (Nat.le_max_left _ _)

/-- An index group adds one level to whatever it is applied to, a bare variable
included. -/
theorem height_indexed
    {indices : List Expr}
    (nonempty : indices ≠ [])
    (target : Expr)
    (members : List Variable) :
    (target.indexed indices members).height =
      max (max target.height (tallest indices)) (Variable.tallest members) + 1 := by
  have positive := tallest_pos nonempty
  unfold indexed
  split
  · next reference =>
      split
      · next bare =>
          rw [(Variable.isBare_iff reference).mp bare]
          simp only [height, Variable.height, Variable.height_named, groupHeight]
          omega
      · rfl
  · rfl

namespace Grammar

/-- The height that was kept is that of the tree and within the limit. -/
structure Built.Tracked (limit : Nat) (built : Built) : Prop where
  height_eq : built.height = built.expression.height
  le_limit : built.height ≤ limit

/-- What stands where a condition may stand was tracked. -/
def Operand.Tracked (limit : Nat) : Operand → Prop
  | .condition built => built.Tracked limit
  | .expression built => built.Tracked limit

/-- The height that was kept is that of the tallest expression, and no expression
exceeds the limit. -/
structure Listed.Tracked (limit : Nat) (listed : Listed) : Prop where
  height_eq : listed.height = tallest listed.expressions
  le_limit : listed.height ≤ limit

/-- The height that was kept is that of the tallest member, and no expression in
a group of a member exceeds the limit. -/
structure Chain.Tracked (limit : Nat) (chain : Chain) : Prop where
  height_eq : chain.height = Variable.tallest chain.members
  groups_le_limit : ∀ member ∈ chain.members, groupHeight member.arguments ≤ limit

/-- The readers of a level return tracked expressions. -/
structure Level.Tracks (limit : Nat) (level : Level) : Prop where
  factor : level.factor.Returns (Built.Tracked limit)
  operand : level.operand.Returns (Operand.Tracked limit)

/-- A node that grows is tracked as soon as its height is one above its parts. -/
theorem grow_tracked
    {limit below : Nat}
    {expression : Expr}
    (height : expression.height = below + 1) :
    (grow limit below expression).Returns (Built.Tracked limit) := by
  unfold grow
  split
  · next within => exact Reader.returns_pure ⟨height.symm, within⟩
  · exact Reader.returns_fail _

/-- The condition that an operand holds has the height that was kept for it. -/
theorem condition_tracked
    {limit : Nat}
    {operand : Operand}
    (tracked : operand.Tracked limit) :
    (condition operand).Returns (Built.Tracked limit) := by
  cases operand with
  | condition built => exact Reader.returns_pure tracked
  | expression built => exact Reader.returns_fail _

/-- Each operation adds one level to the higher one of its sides. -/
theorem folded_tracked
    {limit : Nat}
    {additive : Bool}
    {operand : Production Built}
    (operandTracked : operand.Returns (Built.Tracked limit))
    {first : Built}
    (tracked : first.Tracked limit) :
    (folded limit additive operand first).Returns (Built.Tracked limit) := by
  refine Reader.returns_extend (fun token continuation left opened leftTracked => ?_) tracked
  obtain ⟨operator, _, rfl⟩ := Option.map_eq_some_iff.mp opened
  refine Reader.returns_bind operandTracked fun right rightTracked => grow_tracked ?_
  rw [height, leftTracked.height_eq, rightTracked.height_eq]

section Level

variable {limit : Nat} {level : Level} (tracks : level.Tracks limit)
include tracks

theorem termFrom_tracked
    {first : Built}
    (tracked : first.Tracked limit) :
    (termFrom limit level first).Returns (Built.Tracked limit) :=
  folded_tracked tracks.factor tracked

theorem term_tracked : (term limit level).Returns (Built.Tracked limit) :=
  Reader.returns_bind tracks.factor fun _ tracked => termFrom_tracked tracks tracked

theorem expressionFrom_tracked
    {first : Built}
    (tracked : first.Tracked limit) :
    (expressionFrom limit level first).Returns (Built.Tracked limit) :=
  folded_tracked (term_tracked tracks) tracked

/-- The height that is kept for an expression is its height, and it is within the limit. -/
theorem expression_tracked : (expression limit level).Returns (Built.Tracked limit) :=
  Reader.returns_bind (term_tracked tracks) fun _ tracked =>
    expressionFrom_tracked tracks tracked

/-- Lists that are read are tracked, and they hold at least one expression. -/
theorem expressionList_tracked :
    (expressionList limit level).Returns fun listed =>
      listed.Tracked limit ∧ listed.expressions ≠ [] := by
  refine Reader.returns_bind (expression_tracked tracks) fun first firstTracked => ?_
  refine Reader.returns_extend (fun token continuation listed opened known => ?_) ?_
  · obtain ⟨listedTracked, _⟩ := known
    split at opened
    · cases opened
      refine Reader.returns_bind (expression_tracked tracks) fun built tracked => ?_
      refine Reader.returns_pure ⟨⟨?_, ?_⟩, by simp [Listed.append]⟩
      · simp only [Listed.append, tallest_append, tallest, Nat.max_zero]
        rw [listedTracked.height_eq, tracked.height_eq]
      · exact Nat.max_le.mpr ⟨listedTracked.le_limit, tracked.le_limit⟩
    · contradiction
  · refine ⟨⟨?_, firstTracked.le_limit⟩, by simp⟩
    simp only [tallest, Nat.max_zero]
    exact firstTracked.height_eq

theorem member_tracked
    {chain : Chain}
    (tracked : chain.Tracked limit) :
    (member limit level chain).Returns (Chain.Tracked limit) := by
  refine Reader.returns_bind (Reader.returns_any _) fun name _ => ?_
  refine Reader.returns_bind (Reader.returns_any _) fun bracket _ => ?_
  split
  · refine Reader.returns_bind (Reader.returns_any _) fun _ _ => ?_
    refine Reader.returns_bind (expressionList_tracked tracks) fun listed known => ?_
    obtain ⟨listedTracked, _⟩ := known
    refine Reader.returns_bind (Reader.returns_any _) fun _ _ => ?_
    refine Reader.returns_pure ⟨?_, fun member present => ?_⟩
    · simp only [Variable.tallest_append, Variable.tallest, Variable.height, groupHeight]
      rw [tracked.height_eq, listedTracked.height_eq]
      omega
    · rcases List.mem_append.mp present with earlier | last
      · exact tracked.groups_le_limit member earlier
      · rw [List.mem_singleton.mp last]
        rw [groupHeight, ← listedTracked.height_eq]
        exact listedTracked.le_limit
  · refine Reader.returns_pure ⟨?_, fun member present => ?_⟩
    · simp only [Variable.tallest_append, Variable.tallest, Variable.height_named]
      rw [tracked.height_eq]
      omega
    · rcases List.mem_append.mp present with earlier | last
      · exact tracked.groups_le_limit member earlier
      · rw [List.mem_singleton.mp last]
        exact Nat.zero_le _

theorem memberChain_tracked :
    (memberChain limit level).Returns (Chain.Tracked limit) := by
  refine Reader.returns_extend (fun token continuation chain opened tracked => ?_) ?_
  · split at opened
    · cases opened
      exact member_tracked tracks tracked
    · contradiction
  · exact ⟨rfl, by simp⟩

theorem call_tracked
    {callee : Built}
    (tracked : callee.Tracked limit) :
    (call limit level callee).Returns (Built.Tracked limit) := by
  have finish (listed : Listed) (listedTracked : listed.Tracked limit) :
      (expect .rightParenthesis >>= fun _ =>
        grow limit (max callee.height listed.height)
          (.call callee.expression listed.expressions)).Returns (Built.Tracked limit) := by
    refine Reader.returns_bind (Reader.returns_any _) fun _ _ => grow_tracked ?_
    rw [height, tracked.height_eq, listedTracked.height_eq]
  refine Reader.returns_bind (Reader.returns_any _) fun closes _ => ?_
  dsimp only
  split
  · exact Reader.returns_bind (Reader.returns_pure ⟨rfl, Nat.zero_le _⟩) finish
  · exact Reader.returns_bind (expressionList_tracked tracks) fun listed known =>
      finish listed known.1

theorem index_tracked
    {target : Built}
    (tracked : target.Tracked limit) :
    (index limit level target).Returns (Built.Tracked limit) := by
  refine Reader.returns_bind (expressionList_tracked tracks) fun listed known => ?_
  obtain ⟨listedTracked, nonempty⟩ := known
  refine Reader.returns_bind (Reader.returns_any _) fun _ _ => ?_
  refine Reader.returns_bind (memberChain_tracked tracks) fun chain chainTracked =>
    grow_tracked ?_
  rw [height_indexed nonempty, tracked.height_eq, listedTracked.height_eq,
    chainTracked.height_eq]

theorem postfixed_tracked
    {first : Built}
    (tracked : first.Tracked limit) :
    (postfixed limit level first).Returns (Built.Tracked limit) := by
  refine Reader.returns_extend (fun token continuation built opened builtTracked => ?_) tracked
  split at opened
  · cases opened
    exact call_tracked tracks builtTracked
  · cases opened
    exact index_tracked tracks builtTracked
  · contradiction

theorem comparisonFrom_tracked
    {left : Built}
    (tracked : left.Tracked limit) :
    (comparisonFrom limit level left).Returns (Operand.Tracked limit) := by
  refine Reader.returns_bind (Reader.returns_any _) fun next _ => ?_
  split
  · exact Reader.returns_pure tracked
  · refine Reader.returns_bind (Reader.returns_any _) fun _ _ => ?_
    refine Reader.returns_bind (expression_tracked tracks) fun right rightTracked => ?_
    refine Reader.returns_bind (grow_tracked ?_) fun built builtTracked =>
      Reader.returns_pure builtTracked
    rw [height, tracked.height_eq, rightTracked.height_eq]

theorem conditionOperand_tracked :
    (conditionOperand limit level).Returns (Operand.Tracked limit) := by
  refine Reader.returns_bind (Reader.returns_any _) fun opens _ => ?_
  split
  · refine Reader.returns_bind (Reader.returns_any _) fun _ _ => ?_
    refine Reader.returns_bind tracks.operand fun inner innerTracked => ?_
    refine Reader.returns_bind (Reader.returns_any _) fun _ _ => ?_
    cases inner with
    | condition built => exact Reader.returns_pure innerTracked
    | expression built =>
        refine Reader.returns_bind (postfixed_tracked tracks innerTracked) fun factor known => ?_
        refine Reader.returns_bind (termFrom_tracked tracks known) fun product known => ?_
        exact Reader.returns_bind (expressionFrom_tracked tracks known) fun sum known =>
          comparisonFrom_tracked tracks known
  · exact Reader.returns_bind (expression_tracked tracks) fun left known =>
      comparisonFrom_tracked tracks known

/-- Each connective adds one level to the higher one of its sides. -/
theorem logical_tracked
    {first : Built}
    (tracked : first.Tracked limit) :
    (Grammar.logical limit level first).Returns (Built.Tracked limit) := by
  refine Reader.returns_extend (fun token continuation left opened leftTracked => ?_) tracked
  obtain ⟨operator, _, rfl⟩ := Option.map_eq_some_iff.mp opened
  refine Reader.returns_bind (conditionOperand_tracked tracks) fun operand known => ?_
  refine Reader.returns_bind (condition_tracked known) fun right rightTracked => grow_tracked ?_
  rw [height, leftTracked.height_eq, rightTracked.height_eq]

theorem operandBody_tracked :
    (operandBody limit level).Returns (Operand.Tracked limit) := by
  refine Reader.returns_bind (conditionOperand_tracked tracks) fun first known => ?_
  refine Reader.returns_bind (Reader.returns_any _) fun next _ => ?_
  split
  · exact Reader.returns_pure known
  · refine Reader.returns_bind (condition_tracked known) fun left leftTracked => ?_
    exact Reader.returns_bind (logical_tracked tracks leftTracked) fun built builtTracked =>
      Reader.returns_pure builtTracked

/-- A conditional is one level higher than the highest of its three parts. -/
theorem conditional_tracked :
    (Grammar.conditional limit level).Returns (Built.Tracked limit) := by
  refine Reader.returns_bind (Reader.returns_any _) fun _ _ => ?_
  refine Reader.returns_bind tracks.operand fun operand known => ?_
  refine Reader.returns_bind (condition_tracked known) fun chosen chosenTracked => ?_
  refine Reader.returns_bind (Reader.returns_any _) fun _ _ => ?_
  refine Reader.returns_bind (expression_tracked tracks) fun whenTrue trueTracked => ?_
  refine Reader.returns_bind (Reader.returns_any _) fun _ _ => ?_
  refine Reader.returns_bind (expression_tracked tracks) fun whenFalse falseTracked =>
    grow_tracked ?_
  rw [height, chosenTracked.height_eq, trueTracked.height_eq, falseTracked.height_eq]

theorem signed_tracked (operator : Sign) :
    (signed limit level operator).Returns (Built.Tracked limit) := by
  refine Reader.returns_bind (Reader.returns_any _) fun _ _ => ?_
  refine Reader.returns_bind tracks.factor fun operand tracked => grow_tracked ?_
  rw [height, tracked.height_eq]

theorem grouped_tracked : (grouped limit level).Returns (Built.Tracked limit) := by
  refine Reader.returns_bind (Reader.returns_any _) fun _ _ => ?_
  refine Reader.returns_bind (expression_tracked tracks) fun inner tracked => ?_
  exact Reader.returns_bind (Reader.returns_any _) fun _ _ => postfixed_tracked tracks tracked

/-- A factor is tracked; a leaf is not compared with the limit, which is positive
wherever a factor is read. -/
theorem factorBody_tracked
    (positive : 0 < limit) :
    (factorBody limit level).Returns (Built.Tracked limit) := by
  have leafTracked (expression : Expr) (height : expression.height = 1) :
      (leaf expression).Tracked limit := ⟨height.symm, positive⟩
  refine Reader.returns_bind (Reader.returns_any _) fun next _ => ?_
  split
  · exact Reader.returns_fail _
  · split
    · split
      · exact Reader.returns_fail _
      · exact signed_tracked tracks _
    · exact grouped_tracked tracks
    · split
      · exact Reader.returns_fail _
      · exact Reader.returns_bind (Reader.returns_any _) fun _ _ =>
          Reader.returns_pure (leafTracked _ rfl)
    · exact Reader.returns_bind (Reader.returns_any _) fun _ _ =>
        Reader.returns_pure (leafTracked _ rfl)
    · exact conditional_tracked tracks
    · exact Reader.returns_bind (Reader.returns_any _) fun _ _ =>
        postfixed_tracked tracks (leafTracked _ (height_named _))
    · exact Reader.returns_fail _

end Level

/-- Every level within the limit tracks. -/
theorem level_tracks
    {limit budget : Nat}
    (within : budget ≤ limit) :
    (level limit budget).Tracks limit := by
  induction budget with
  | zero => exact ⟨Reader.returns_fail _, Reader.returns_fail _⟩
  | succ below hypothesis =>
      have tracks := hypothesis (Nat.le_of_succ_le within)
      have positive : 0 < limit := Nat.lt_of_lt_of_le below.succ_pos within
      exact ⟨fun _ _ _ ran => factorBody_tracked tracks positive ran,
        fun _ _ _ ran => operandBody_tracked tracks ran⟩

/-- What is read as a whole has the height that was kept for it, and it is within the limit. -/
theorem wholeExpression_tracked (limit : Nat) :
    (wholeExpression limit).Returns (Built.Tracked limit) := by
  refine Reader.returns_bind (expression_tracked (level_tracks (Nat.le_refl limit)))
    fun built tracked => ?_
  refine Reader.returns_bind (Reader.returns_any _) fun next _ => ?_
  split
  · exact Reader.returns_pure tracked
  · exact Reader.returns_fail _

/-- Every reader that builds on a level keeps heights: what it returns is tracked,
provided that the expression it goes on from is. -/
structure Level.KeepsHeights (limit : Nat) (level : Level) : Prop where
  factor : level.factor.Returns (Built.Tracked limit)
  factorBody : 0 < limit → (factorBody limit level).Returns (Built.Tracked limit)
  term : (term limit level).Returns (Built.Tracked limit)
  termFrom : ∀ first : Built, first.Tracked limit →
    (termFrom limit level first).Returns (Built.Tracked limit)
  expression : (expression limit level).Returns (Built.Tracked limit)
  expressionFrom : ∀ first : Built, first.Tracked limit →
    (expressionFrom limit level first).Returns (Built.Tracked limit)
  postfixed : ∀ first : Built, first.Tracked limit →
    (postfixed limit level first).Returns (Built.Tracked limit)
  memberChain : (memberChain limit level).Returns (Chain.Tracked limit)
  expressionList : (expressionList limit level).Returns (Listed.Tracked limit)
  conditional : (Grammar.conditional limit level).Returns (Built.Tracked limit)
  operand : level.operand.Returns (Operand.Tracked limit)
  operandBody : (operandBody limit level).Returns (Operand.Tracked limit)
  conditionOperand : (conditionOperand limit level).Returns (Operand.Tracked limit)
  comparisonFrom : ∀ left : Built, left.Tracked limit →
    (comparisonFrom limit level left).Returns (Operand.Tracked limit)
  condition : ∀ operand : Operand, operand.Tracked limit →
    (condition operand).Returns (Built.Tracked limit)
  logical : ∀ first : Built, first.Tracked limit →
    (Grammar.logical limit level first).Returns (Built.Tracked limit)

/-- A level whose factors and operands keep their heights keeps those of all that is read with
them. -/
theorem Level.Tracks.keepsHeights
    {limit : Nat}
    {level : Level}
    (tracks : level.Tracks limit) :
    level.KeepsHeights limit where
  factor := tracks.factor
  factorBody := factorBody_tracked tracks
  term := term_tracked tracks
  termFrom _ tracked := termFrom_tracked tracks tracked
  expression := expression_tracked tracks
  expressionFrom _ tracked := expressionFrom_tracked tracks tracked
  postfixed _ tracked := postfixed_tracked tracks tracked
  memberChain := memberChain_tracked tracks
  expressionList := (expressionList_tracked tracks).imp fun _ known => known.1
  conditional := conditional_tracked tracks
  operand := tracks.operand
  operandBody := operandBody_tracked tracks
  conditionOperand := conditionOperand_tracked tracks
  comparisonFrom _ tracked := comparisonFrom_tracked tracks tracked
  condition _ tracked := condition_tracked tracked
  logical _ tracked := logical_tracked tracks tracked

end Grammar

/-- A tree that is read from tokens is not taller than the limit. -/
theorem height_le_of_ofTokensUntil
    {options : Options}
    {finish : Nat}
    {tokens : List Token}
    {tree : Expr}
    (read : ofTokensUntil options finish tokens = .ok tree) :
    tree.height ≤ options.maxDepth := by
  cases ran : (Grammar.wholeExpression options.maxDepth).run tokens with
  | error failure =>
      have refused : Expr.read options tokens = .error failure := by rw [Expr.read, ran]; rfl
      simp [ofTokensUntil_of_read_error finish refused] at read
  | ok result =>
      obtain ⟨built, rest⟩ := result
      have success : Expr.read options tokens = .ok built.expression := by rw [Expr.read, ran]; rfl
      have tracked := Grammar.wholeExpression_tracked options.maxDepth ran
      simp only [ofTokensUntil_of_read_ok finish success, Except.ok.injEq] at read
      rw [← read, ← tracked.height_eq]
      exact tracked.le_limit

/-- However many levels have been entered, every reader keeps the heights of what
it builds and stays within the limit; so does the tree that is read in the end. -/
theorem keepsHeights_of_entered
    (limit entered : Nat) :
    (Grammar.level limit (limit - entered)).KeepsHeights limit ∧
      ∀ (finish : Nat) (tokens : List Token) (tree : Expr),
        ofTokensUntil { maxDepth := limit } finish tokens = .ok tree → tree.height ≤ limit :=
  ⟨(Grammar.level_tracks (Nat.sub_le limit entered)).keepsHeights,
    fun _ _ _ read => height_le_of_ofTokensUntil read⟩

/-- The tokens of `a[1].b + c` within three levels, which the tree fills. -/
theorem keepsHeights_of_entered_at_limit :
    let tokens : List Token :=
      [⟨.identifier, "a", 0⟩, ⟨.leftBracket, "[", 1⟩, ⟨.number, "1", 2⟩, ⟨.rightBracket, "]", 3⟩,
        ⟨.dot, ".", 4⟩, ⟨.identifier, "b", 5⟩, ⟨.operator, "+", 7⟩, ⟨.identifier, "c", 9⟩]
    let tree : Expr :=
      .binary .add (.variable ⟨"a", some [.number (.integer 1)], none, [.named "b"]⟩) (.named "c")
    ofTokensUntil { maxDepth := 3 } 10 tokens = .ok tree ∧ tree.height = 3 ∧ tree.height ≤ 3 := by
  intro tokens tree
  have read : ofTokensUntil { maxDepth := 3 } 10 tokens = .ok tree := by
    with_unfolding_all rfl
  exact ⟨read, rfl, (keepsHeights_of_entered 3 0).2 10 tokens tree read⟩

end Expr
end ModelEquation
