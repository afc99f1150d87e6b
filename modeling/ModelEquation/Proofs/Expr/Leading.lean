import ModelEquation.Proofs.Expr.Spelling
import ModelEquation.Proofs.Grammar.Boundary
import ModelEquation.Proofs.Grammar.Language
import ModelEquation.Proofs.Grammar.Places
import ModelEquation.Proofs.Token.Enclosed

/-!
# Parentheses at the start of a condition

Where a condition starts with a parenthesis, the reader cannot know whether it opens a condition
or the first operand of a comparison. Whichever it is, the expressions in it mean what they mean
elsewhere. An expression that is read under some limit is read as the same tree in parentheses
under one more level, as the left side of a comparison under two more, and under three more if a
parenthesis stands around the left side or around all of the comparison.
-/

namespace ModelEquation
namespace Expr

open Grammar Token

variable {options : Options} {tokens : List Token} {tree : Expr}

/-! ## Tokens that are read -/

/-- All of the tokens are read as the tree, which the limit does not exceed. -/
theorem run_expression_of_read_ok
    (success : read options tokens = .ok tree) :
    (expression options.maxDepth (level options.maxDepth options.maxDepth)).run tokens =
      .ok (tree.built, []) ∧ tree.height ≤ options.maxDepth := by
  cases ran : (wholeExpression options.maxDepth).run tokens with
  | error failure => simp [read, ran, Except.map] at success
  | ok result =>
      obtain ⟨found, behind⟩ := result
      have tracked := wholeExpression_tracked options.maxDepth ran
      simp only [read, ran, Except.map, Except.ok.injEq] at success
      subst success
      obtain ⟨first, rest, reads, ended⟩ := Reader.run_bind_eq_ok_iff.mp ran
      have same : found = found.expression.built := by
        rw [built, ← tracked.height_eq]
      cases rest with
      | nil =>
          cases ended
          rw [← same]
          exact ⟨reads, tracked.height_eq ▸ tracked.le_limit⟩
      | cons next others => contradiction

/-- Under a limit there is a level for what is read. -/
theorem maxDepth_pos_of_read
    (success : read options tokens = .ok tree) :
    0 < options.maxDepth :=
  Nat.lt_of_lt_of_le tree.height_pos (run_expression_of_read_ok success).2

/-- Tokens that are read as an expression are read as it wherever an expression may stand, within
no fewer levels. -/
theorem reads_of_read
    (success : read options tokens = .ok tree)
    {limit depth : Nat}
    (fits : options.maxDepth ≤ limit)
    (levels : options.maxDepth ≤ depth) :
    Grammar.Reads limit depth tokens (.expression .branch tree) := by
  have alone := (run_expression_of_read_ok success).1
  have larger := (expression_within fits (level_within fits levels)).run_eq_ok alone
  refine fun _ => ⟨resumes limit depth tokens, fun rest avoids _ => ?_⟩
  have stops : Avoids expressionKinds rest :=
    avoids.subset (by simp [expressionKinds, Ending.stopKinds, Ending.openKinds, postfixKinds])
  rw [run_expression_append larger rest stops]
  exact (run_expressionFrom_of_avoids (stops.subset (by simp [expressionKinds])) _).symm

/-- Tokens that the levels of a limit read are read under the limit. -/
theorem read_of_reads
    {ending : Ending}
    (reads : Grammar.Reads options.maxDepth options.maxDepth tokens (.expression ending tree))
    (fits : tree.height ≤ options.maxDepth) :
    read options tokens = .ok tree := by
  have whole := run_expression_of_read reads fits [] (avoids_nil _)
  rw [List.append_nil] at whole
  rw [read, wholeExpression, Reader.run_bind, whole]
  rfl

/-! ## Texts that are read -/

/-- A text that is read as an expression spells tokens that are read as it. -/
theorem spells_of_parse
    {text : List Char}
    (success : parse options text = .ok tree) :
    Spells text Breaks fun found => read options found = .ok tree := by
  cases tokenized : tokenize text with
  | error fault => simp [parse, tokenized] at success
  | ok tokens =>
      simp only [parse, tokenized] at success
      apply (spells_of_tokenize tokenized).imp
      rintro _ ⟨position, rfl⟩
      have moved : tokens.map (Token.shifted position) = tokens.map (Token.moved (· + position)) :=
        rfl
      rw [moved, read_moved, ofTokensUntil_eq_ok_iff.mp success]
      rfl

/-- A text that spells what is read as a tree is parsed as the tree. -/
theorem parse_of_spells
    {text : List Char}
    {fits : List Char → Prop}
    (spells : Spells text fits fun found => read options found = .ok tree)
    (ended : fits []) :
    parse options text = .ok tree := by
  obtain ⟨tokens, success, tokenized⟩ := spells.tokenize ended
  rw [parse, tokenized]
  exact ofTokensUntil_of_read_ok _ success

/-- A numeral is read as its number within any level. -/
theorem spells_numeral
    (text : List Char)
    (value : Number)
    (whole : Pattern.number.measure text = some text.length)
    (denoted : Number.ofText? text = some value)
    {depth : Nat}
    (entered : 0 < depth)
    (limit : Nat) :
    Spells text Breaks fun found =>
      Grammar.Reads limit depth found (.expression .closed (.number value)) := by
  apply (spells_number whole).imp
  rintro _ ⟨token, rfl, kind, lexeme⟩
  obtain ⟨below, rfl⟩ := Nat.exists_eq_add_one_of_ne_zero (Nat.ne_of_gt entered)
  have derived : Derives .greedy (below + 1) (.factor .closed (.number value)) [token] :=
    .number kind (by rw [lexeme, String.toList_ofList, denoted])
  exact (Derives.ofTerm (.ofFactor derived)).reads

/-- An expression that is compared with zero is read as a condition. -/
theorem spells_comparedWithZero
    {text : List Char}
    (success : parse options text = .ok tree)
    (operator : Comparison)
    {limit depth : Nat}
    (fits : options.maxDepth ≤ limit)
    (levels : options.maxDepth ≤ depth) :
    Spells (text ++ ' ' :: (operator.symbol.toList ++ [' ', '0'])) Breaks fun found =>
      Grammar.Reads limit (depth + 1) found
        (.condition (.compare operator tree (.number (.integer 0)))) := by
  have spells := spells_of_parse success
  obtain ⟨_, read, _⟩ := spells.tokenize breaks_nil
  have entered : 0 < depth := Nat.lt_of_lt_of_le (maxDepth_pos_of_read read) levels
  have zero := spells_numeral ['0'] (.integer 0) (by decide) (by decide) entered limit
  apply (spells_operation spells (spells_comparison operator) zero).imp
  rintro _ ⟨front, token, back, rfl, left, kind, symbol, right⟩
  have named : comparison? token = some operator := by
    simp [comparison?, kind, symbol]
  exact reads_ofOperand (reads_comparison (reads_of_read left fits levels) named right)

/-- A conditional whose condition is read on the last level but one is read. -/
theorem parse_chosen
    {condition : List Char}
    {chosen : Expr}
    {depth : Nat}
    (spells : Spells condition Breaks fun found =>
      Grammar.Reads (depth + 1) depth found (.condition chosen))
    (fits : chosen.height ≤ depth) :
    parse ⟨depth + 1⟩
        (['i', 'f', ' '] ++ condition ++ [' ', 't', 'h', 'e', 'n', ' '] ++ ['1'] ++
          [' ', 'e', 'l', 's', 'e', ' '] ++ ['0']) =
      .ok (.conditional chosen (.number (.integer 1)) (.number (.integer 0))) := by
  have entered : 0 < depth := Nat.lt_of_lt_of_le chosen.height_pos fits
  have one := spells_numeral ['1'] (.integer 1) (by decide) (by decide) entered (depth + 1)
  have zero := spells_numeral ['0'] (.integer 0) (by decide) (by decide) entered (depth + 1)
  refine parse_of_spells ((spells_branching spells one zero).imp ?_) breaks_nil
  rintro _ ⟨ifToken, conditionTokens, thenToken, trueTokens, elseToken, falseTokens, rfl, ifKind,
    conditionReads, thenKind, trueReads, elseKind, falseReads⟩
  have reads :=
    reads_conditional ifKind conditionReads thenKind trueReads elseKind falseReads
  refine read_of_reads (reads_ofTerm (reads_ofFactor reads)) ?_
  simp only [height]
  omega

/-- Under one more level an expression is read in parentheses. -/
theorem parse_group
    {limit : Nat}
    {text : List Char}
    (success : parse ⟨limit⟩ text = .ok tree) :
    parse ⟨limit + 1⟩ ('(' :: (text ++ [')'])) = .ok tree := by
  have spells := Spells.enclosed '(' ')' rfl rfl (by decide) (spells_of_parse success)
  refine parse_of_spells (spells.imp ?_) trivial
  rintro _ ⟨opening, inner, closing, rfl, opens, read, closes⟩
  have within := (run_expression_of_read_ok read).2
  have whole := reads_group opens
    (reads_of_read read (Nat.le_add_right limit 1) (Nat.le_refl limit)) closes
  exact read_of_reads (reads_ofTerm (reads_ofFactor (reads_ofPrimary whole)))
    (Nat.le_succ_of_le within)

/-- A comparison with zero is at most one level higher than what is compared. -/
theorem height_comparedWithZero_le
    {limit : Nat}
    {text : List Char}
    (success : parse ⟨limit⟩ text = .ok tree)
    (operator : Comparison) :
    (Expr.compare operator tree (.number (.integer 0))).height ≤ limit + 1 := by
  obtain ⟨_, read, _⟩ := (spells_of_parse success).tokenize breaks_nil
  have within : tree.height ≤ limit := (run_expression_of_read_ok read).2
  have positive := tree.height_pos
  simp only [height]
  omega

/-- Under two more levels an expression is read as the left side of a comparison. -/
theorem parse_compared
    {limit : Nat}
    {text : List Char}
    (success : parse ⟨limit⟩ text = .ok tree)
    (operator : Comparison) :
    parse ⟨limit + 2⟩
        ("if ".toList ++ text ++ " ".toList ++ operator.symbol.toList ++
          " 0 then 1 else 0".toList) =
      .ok (.conditional (.compare operator tree (.number (.integer 0)))
        (.number (.integer 1)) (.number (.integer 0))) := by
  have spells := spells_comparedWithZero success operator
    (Nat.le_add_right limit 2) (Nat.le_refl limit)
  rw [← parse_chosen spells (height_comparedWithZero_le success operator)]
  congr 1
  simp

/-- Under three more levels the comparison may stand in parentheses. -/
theorem parse_comparedGroup
    {limit : Nat}
    {text : List Char}
    (success : parse ⟨limit⟩ text = .ok tree)
    (operator : Comparison) :
    parse ⟨limit + 3⟩
        ("if (".toList ++ text ++ " ".toList ++ operator.symbol.toList ++
          " 0) then 1 else 0".toList) =
      .ok (.conditional (.compare operator tree (.number (.integer 0)))
        (.number (.integer 1)) (.number (.integer 0))) := by
  have spells := spells_comparedWithZero success operator
    (Nat.le_add_right limit 3) (Nat.le_refl limit)
  have group : Spells
      ('(' :: (text ++ ' ' :: (operator.symbol.toList ++ [' ', '0']) ++ [')'])) Breaks
      fun found => Grammar.Reads (limit + 3) (limit + 2) found
        (.condition (.compare operator tree (.number (.integer 0)))) := by
    apply (Spells.enclosed '(' ')' rfl rfl (by decide) spells).anywhere.imp
    rintro _ ⟨opening, inner, closing, rfl, opens, read, closes⟩
    exact reads_ofOperand (reads_conditionGroup opens read closes)
  have fits := Nat.le_succ_of_le (height_comparedWithZero_le success operator)
  rw [← parse_chosen group fits]
  congr 1
  simp

/-- An expression that is read under some limit is read as the same tree in parentheses under one
more level, and where it is the left side of a comparison in a condition: under two more levels as
it stands, and under three more with parentheses around it or around the comparison. -/
theorem parse_leading_parenthesis
    {limit : Nat}
    {text : List Char}
    (success : parse ⟨limit⟩ text = .ok tree) :
    parse ⟨limit + 1⟩ ("(".toList ++ text ++ ")".toList) = .ok tree ∧
      ∀ operator : Comparison,
        let symbol := operator.symbol.toList
        let whole : Expr :=
          .conditional (.compare operator tree (.number (.integer 0)))
            (.number (.integer 1)) (.number (.integer 0))
        parse ⟨limit + 2⟩
            ("if ".toList ++ text ++ " ".toList ++ symbol ++ " 0 then 1 else 0".toList) =
          .ok whole ∧
        parse ⟨limit + 3⟩
            ("if (".toList ++ text ++ ") ".toList ++ symbol ++ " 0 then 1 else 0".toList) =
          .ok whole ∧
        parse ⟨limit + 3⟩
            ("if (".toList ++ text ++ " ".toList ++ symbol ++ " 0) then 1 else 0".toList) =
          .ok whole := by
  refine ⟨by simpa using parse_group success, fun operator => ⟨?_, ?_, ?_⟩⟩
  · exact parse_compared success operator
  · rw [← parse_compared (parse_group success) operator]
    congr 1
    simp
  · exact parse_comparedGroup success operator

/-- The text `(a)(b) * 2` starts with a parenthesis of its own. -/
theorem parse_leading_parenthesis_of_call :
    let text := "(a)(b) * 2".toList
    let tree : Expr :=
      .binary .multiply (.call (.named "a") [.named "b"]) (.number (.integer 2))
    parse ⟨3⟩ text = .ok tree ∧
      parse ⟨4⟩ ("(".toList ++ text ++ ")".toList) = .ok tree ∧
      parse ⟨6⟩ ("if (".toList ++ text ++ ") ".toList ++ "<=".toList ++
          " 0 then 1 else 0".toList) =
        .ok (.conditional (.compare .lessEqual tree (.number (.integer 0)))
          (.number (.integer 1)) (.number (.integer 0))) := by
  intro text tree
  have read : parse ⟨3⟩ "(a)(b) * 2".toList = .ok tree := by
    with_unfolding_all rfl
  obtain ⟨group, compared⟩ := parse_leading_parenthesis read
  exact ⟨read, group, (compared .lessEqual).2.1⟩

end Expr
end ModelEquation
