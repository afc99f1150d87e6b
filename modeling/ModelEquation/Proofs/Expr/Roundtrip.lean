import ModelEquation.Proofs.Expr.Nesting
import ModelEquation.Proofs.Expr.Reals
import ModelEquation.Proofs.Expr.Spelling
import ModelEquation.Proofs.Grammar.Language
import ModelEquation.Proofs.Number.Whole

/-!
# Canonical texts are read back

Reading the canonical text of a parser-shaped expression gives the expression with its
bare members joined, within the levels of nesting that its text takes, and so within
twice as many levels as the expression is tall.
-/

namespace ModelEquation

/-- The text of the double denotes the double. -/
def Binary64.ReadsBack (value : Binary64) : Prop :=
  Number.ofText? (Number.real value).text = some (.real value)

section Shapes

open ModelEquation.Expr (EveryReal everyReal_cons everyReal_append SpelledOperand SpelledCondition
  SpelledMember)

/-- A number without a sign that reads back is spelled by its text. -/
theorem Expr.spelledOperand_of_literal
    {value : Number}
    (literal : value.isLiteral = true)
    (readBack : EveryReal Binary64.ReadsBack [.number value])
    (depth : Nat) :
    SpelledOperand depth (.number value) := by
  apply Expr.spelledOperand_number literal
  cases value with
  | integer value => exact Number.ofText?_text_integer value
  | real value => exact readBack value (List.mem_cons_self ..)

/-- Below a node fewer levels are left, by as many as the node takes. -/
theorem Expr.exists_lower
    {below levels : Nat}
    (taken : Nat)
    (positive : 0 < below)
    (within : below + taken ≤ levels + 1) :
    ∃ lower, levels = lower + taken ∧ below ≤ lower + 1 :=
  ⟨levels - taken, by omega, by omega⟩

/-- Two sides fit the levels that are left when their parent has taken its own. -/
theorem Expr.exists_lower_of_sides
    {left right : Expr}
    {levels : Nat}
    (taken : Nat)
    (within : max left.nesting right.nesting + taken ≤ levels + 1) :
    ∃ lower, levels = lower + taken ∧ left.nesting ≤ lower + 1 ∧ right.nesting ≤ lower + 1 := by
  have positive : 0 < max left.nesting right.nesting :=
    Nat.lt_of_lt_of_le left.nesting_pos (Nat.le_max_left ..)
  obtain ⟨lower, known, fits⟩ := Expr.exists_lower taken positive within
  exact ⟨lower, known, Nat.max_le.mp fits⟩

mutual

/-- A parser-shaped expression is spelled within the levels of nesting of its text. -/
theorem Expr.spelledOperand :
    (expression : Expr) → expression.isParserShaped = true →
      EveryReal Binary64.ReadsBack expression.walk →
      (levels : Nat) → expression.nesting ≤ levels + 1 → SpelledOperand levels expression
  | .number value, shaped, readBack, levels, _ =>
      Expr.spelledOperand_of_literal shaped readBack _
  | .string value, shaped, _, levels, _ => Expr.spelledOperand_string shaped
  | .variable reference, shaped, readBack, levels, within =>
      reference.spelledOperand shaped ((everyReal_cons rfl _).mp readBack) levels within
  | .unary operator operand, shaped, readBack, levels, within => by
      rw [Expr.walk, everyReal_cons rfl] at readBack
      obtain ⟨lower, rfl, fits⟩ := Expr.exists_lower 1 operand.nesting_pos within
      exact Expr.spelledOperand_unary (operand.spelledOperand shaped readBack lower fits)
  | .binary operator left right, shaped, readBack, levels, within => by
      simp only [Expr.isParserShaped, Bool.and_eq_true] at shaped
      rw [Expr.walk, everyReal_cons rfl, everyReal_append] at readBack
      obtain ⟨lower, rfl, fits⟩ := Expr.exists_lower_of_sides 1 within
      exact Expr.spelledOperand_binary (left.spelledOperand shaped.1 readBack.1 lower fits.1)
        (right.spelledOperand shaped.2 readBack.2 lower fits.2)
  | .compare _ _ _, shaped, _, _, _ => by simp [Expr.isParserShaped] at shaped
  | .logical _ _ _, shaped, _, _, _ => by simp [Expr.isParserShaped] at shaped
  | .call callee arguments, shaped, readBack, levels, within => by
      simp only [Expr.isParserShaped, Bool.and_eq_true] at shaped
      rw [Expr.walk, everyReal_cons rfl, everyReal_append] at readBack
      have positive : 0 < max callee.nesting (Expr.deepest arguments) :=
        Nat.lt_of_lt_of_le callee.nesting_pos (Nat.le_max_left ..)
      obtain ⟨lower, rfl, fits⟩ := Expr.exists_lower 1 positive within
      rw [Nat.max_le] at fits
      exact Expr.spelledOperand_call (callee.spelledOperand shaped.1 readBack.1 lower fits.1)
        (Expr.spelledItems arguments shaped.2 readBack.2 lower fits.2)
  | .index target indices members, shaped, readBack, levels, within => by
      simp only [Expr.isParserShaped, Bool.and_eq_true, Bool.not_eq_true',
        List.isEmpty_eq_false_iff] at shaped
      obtain ⟨⟨⟨⟨targetShaped, other⟩, nonempty⟩, indicesShaped⟩, membersShaped⟩ := shaped
      rw [Expr.walk, everyReal_cons rfl, everyReal_append, everyReal_append] at readBack
      obtain ⟨⟨targetReals, indexReals⟩, memberReals⟩ := readBack
      rw [Expr.nesting] at within
      have positive := target.nesting_pos
      obtain ⟨lower, rfl, fits⟩ := Expr.exists_lower 1 (by omega) within
      rw [Nat.max_le, Nat.max_le] at fits
      obtain ⟨⟨targetFits, indicesFit⟩, membersFit⟩ := fits
      exact Expr.spelledOperand_index
        (target.spelledOperand targetShaped targetReals lower targetFits) other nonempty
        (Expr.spelledItems indices indicesShaped indexReals lower indicesFit)
        (Variable.spelledMembers members membersShaped memberReals lower membersFit)
  | .conditional condition whenTrue whenFalse, shaped, readBack, levels, within => by
      simp only [Expr.isParserShaped, Bool.and_eq_true] at shaped
      obtain ⟨⟨conditionShaped, trueShaped⟩, falseShaped⟩ := shaped
      rw [Expr.walk, everyReal_cons rfl, everyReal_append, everyReal_append] at readBack
      obtain ⟨⟨conditionReals, trueReals⟩, falseReals⟩ := readBack
      rw [Expr.nesting] at within
      have positive := whenTrue.nesting_pos
      obtain ⟨lower, rfl, fits⟩ := Expr.exists_lower 2 (by omega) within
      rw [Nat.max_le, Nat.max_le] at fits
      obtain ⟨⟨conditionFits, trueFits⟩, falseFits⟩ := fits
      exact Expr.spelledOperand_conditional
        (condition.spelledCondition conditionShaped conditionReals lower conditionFits)
        (whenTrue.spelledOperand trueShaped trueReals lower trueFits)
        (whenFalse.spelledOperand falseShaped falseReals lower falseFits)

/-- A condition is spelled by its text within as many levels as it nests. -/
theorem Expr.spelledCondition :
    (condition : Expr) → condition.isShapedCondition = true →
      EveryReal Binary64.ReadsBack condition.walk →
      (levels : Nat) → condition.nesting ≤ levels + 1 → SpelledCondition levels condition
  | .compare operator left right, shaped, readBack, levels, within => by
      simp only [Expr.isShapedCondition, Bool.and_eq_true] at shaped
      rw [Expr.walk, everyReal_cons rfl, everyReal_append] at readBack
      obtain ⟨lower, rfl, fits⟩ := Expr.exists_lower_of_sides 2 within
      exact Expr.spelledCondition_compare (left.spelledOperand shaped.1 readBack.1 lower fits.1)
        (right.spelledOperand shaped.2 readBack.2 lower fits.2)
  | .logical operator left right, shaped, readBack, levels, within => by
      simp only [Expr.isShapedCondition, Bool.and_eq_true] at shaped
      rw [Expr.walk, everyReal_cons rfl, everyReal_append] at readBack
      obtain ⟨lower, rfl, fits⟩ := Expr.exists_lower_of_sides 1 within
      exact Expr.spelledCondition_logical (left.spelledCondition shaped.1 readBack.1 lower fits.1)
        (right.spelledCondition shaped.2 readBack.2 lower fits.2)
  | .number _, shaped, _, _, _ | .string _, shaped, _, _, _ | .variable _, shaped, _, _, _
  | .unary _ _, shaped, _, _, _ | .binary _ _ _, shaped, _, _, _ | .call _ _, shaped, _, _, _
  | .index _ _ _, shaped, _, _, _ | .conditional _ _ _, shaped, _, _, _ => by
      simp [Expr.isShapedCondition] at shaped

/-- A variable is spelled by its text within as many levels as it nests. -/
theorem Variable.spelledOperand :
    (reference : Variable) → reference.isParserShaped = true →
      EveryReal Binary64.ReadsBack reference.walkInside →
      (levels : Nat) → reference.nesting ≤ levels + 1 →
      SpelledOperand levels (.variable reference)
  | ⟨name, none, arguments, members⟩, shaped, _, levels, _ => by
      simp only [Variable.isParserShaped, Bool.and_eq_true, Option.isNone_iff_eq_none,
        Option.isSome_none, Bool.false_or, List.isEmpty_iff] at shaped
      obtain ⟨⟨⟨⟨known, rfl⟩, rfl⟩, _⟩, _⟩ := shaped
      exact Expr.spelledOperand_name known
  | ⟨name, some items, arguments, members⟩, shaped, readBack, levels, within => by
      simp only [Variable.isParserShaped, Expr.isShapedGroup, Bool.and_eq_true,
        Option.isNone_iff_eq_none, Bool.not_eq_true', List.isEmpty_eq_false_iff] at shaped
      obtain ⟨⟨⟨⟨known, rfl⟩, _⟩, nonempty, itemsShaped⟩, membersShaped⟩ := shaped
      rw [Variable.walkInside, everyReal_append, everyReal_append] at readBack
      obtain ⟨⟨itemReals, _⟩, memberReals⟩ := readBack
      rw [Variable.nesting] at within
      have positive : 0 < Expr.groupNesting (some items) := Expr.deepest_pos nonempty
      obtain ⟨lower, rfl, fits⟩ := Expr.exists_lower 1 (by omega) within
      rw [Nat.max_le, Nat.max_le] at fits
      obtain ⟨⟨itemsFit, _⟩, membersFit⟩ := fits
      exact Expr.spelledOperand_reference known nonempty
        (Expr.spelledItems items itemsShaped itemReals lower itemsFit)
        (Variable.spelledMembers members membersShaped memberReals lower membersFit)

theorem Expr.spelledItems :
    (items : List Expr) → Expr.areParserShaped items = true →
      EveryReal Binary64.ReadsBack (Expr.walkList items) →
      (levels : Nat) → Expr.deepest items ≤ levels + 1 →
      ∀ item ∈ items, SpelledOperand levels item
  | [], _, _, _, _ => by simp
  | first :: rest, shaped, readBack, levels, within => by
      simp only [Expr.areParserShaped, Bool.and_eq_true] at shaped
      rw [Expr.walkList, everyReal_append] at readBack
      rw [Expr.deepest, Nat.max_le] at within
      exact List.forall_mem_cons.mpr
        ⟨first.spelledOperand shaped.1 readBack.1 levels within.1,
          Expr.spelledItems rest shaped.2 readBack.2 levels within.2⟩

theorem Variable.spelledMembers :
    (members : List Variable) → Variable.areShapedMembers members = true →
      EveryReal Binary64.ReadsBack (Variable.walkMembers members) →
      (levels : Nat) → Variable.deepest members ≤ levels + 1 →
      ∀ member ∈ members, SpelledMember (levels + 1) member
  | [], _, _, _, _ => by simp
  | member :: rest, shaped, readBack, levels, within => by
      simp only [Variable.areShapedMembers, Bool.and_eq_true] at shaped
      rw [Variable.walkMembers, everyReal_append] at readBack
      rw [Variable.deepest, Nat.max_le] at within
      exact List.forall_mem_cons.mpr
        ⟨member.spelledMember shaped.1 readBack.1 levels within.1,
          Variable.spelledMembers rest shaped.2 readBack.2 levels within.2⟩

/-- A member is spelled by its text within as many levels as it nests. -/
theorem Variable.spelledMember :
    (member : Variable) → member.isShapedMember = true →
      EveryReal Binary64.ReadsBack member.walkInside →
      (levels : Nat) → member.nesting ≤ levels + 1 → SpelledMember (levels + 1) member
  | ⟨name, indices, none, members⟩, shaped, _, levels, _ => by
      simp only [Variable.isShapedMember, Bool.and_eq_true, Option.isNone_iff_eq_none,
        List.isEmpty_iff] at shaped
      obtain ⟨⟨⟨known, rfl⟩, rfl⟩, _⟩ := shaped
      exact ⟨known, rfl, rfl, by simp [Expr.SpellsGroup]⟩
  | ⟨name, indices, some items, members⟩, shaped, readBack, levels, within => by
      simp only [Variable.isShapedMember, Expr.isShapedGroup, Bool.and_eq_true,
        Option.isNone_iff_eq_none, List.isEmpty_iff, Bool.not_eq_true',
        List.isEmpty_eq_false_iff] at shaped
      obtain ⟨⟨⟨known, rfl⟩, rfl⟩, nonempty, itemsShaped⟩ := shaped
      rw [Variable.walkInside, everyReal_append, everyReal_append] at readBack
      simp only [Variable.nesting, Expr.groupNesting] at within
      have fits : Expr.deepest items ≤ levels + 1 := by omega
      have each := Expr.spelledItems items itemsShaped readBack.1.2 levels fits
      refine ⟨known, rfl, rfl, ?_⟩
      rintro _ ⟨⟩
      exact Expr.spells_items nonempty each

end

end Shapes

namespace Expr

open Grammar

/-- The canonical text of a parser-shaped expression is read as tokens that form the
expression with its bare members joined. -/
theorem tokenize_text
    {tree : Expr}
    (shaped : tree.isParserShaped = true)
    (readBack : ∀ value ∈ tree.reals, value.ReadsBack) :
    ∃ tokens ending, Token.tokenize tree.text = .ok tokens ∧
      Derives .greedy tree.nesting (.expression ending tree.fused) tokens := by
  have positive := tree.nesting_pos
  have spelled := tree.spelledOperand shaped readBack (tree.nesting - 1) (by omega)
  obtain ⟨tokens, forms, tokenized⟩ := spelled.factor.tokenize Token.breaks_nil
  obtain ⟨ending, derived⟩ := forms.expression
  exact ⟨tokens, ending, tokenized, derived.mono (by omega)⟩

/-- The canonical text of a parser-shaped expression is read back within the levels of
nesting that it takes. -/
theorem parse_text_of_nesting
    {options : Options}
    {tree : Expr}
    (shaped : tree.isParserShaped = true)
    (readBack : ∀ value ∈ tree.reals, value.ReadsBack)
    (enough : tree.nesting ≤ options.maxDepth) :
    parse options tree.text = .ok tree.fused := by
  obtain ⟨tokens, ending, tokenized, derived⟩ := tokenize_text shaped readBack
  have fits : tree.fused.height ≤ options.maxDepth := by
    rw [height_fused]
    exact Nat.le_trans tree.nesting_bounds.1 enough
  have read := run_wholeExpression_of_derives derived enough fits
  rw [parse, tokenized]
  apply ofTokensUntil_eq_ok_iff.mpr
  rw [Expr.read, read]
  rfl

/-- The canonical text of a parser-shaped expression is read back, with each bare member
of a chain joined with the next one, wherever two levels of nesting are left for each
level of the expression. -/
theorem parse_text
    (options : Options)
    (tree : Expr)
    (shaped : tree.isParserShaped = true)
    (readBack : ∀ value ∈ tree.reals, value.ReadsBack)
    (enough : 2 * tree.height ≤ options.maxDepth) :
    parse options tree.text = .ok tree.fused :=
  parse_text_of_nesting shaped readBack
    (Nat.le_trans (Nat.le_of_lt tree.nesting_bounds.2) enough)

/-- A conditional with all its parts in parentheses, where a call is indexed and the
bare member `h` becomes the beginning of the name of the member after it. -/
theorem parse_text_of_conditional :
    let half : Expr := .number (.real (.finite false 4503599627370496 (-53) (by decide)))
    let condition : Expr := .compare .less (.binary .add (.named "a") half) (.string "\"x\"")
    let target : Expr := .call (.named "f") [.unary .minus (.named "b")]
    let chain (members : List Variable) : Expr :=
      .conditional condition (.index target [.named "c"] members) (.number (.integer 1))
    let tree := chain [.named "h", ⟨"i", none, some [.named "d"], []⟩, .named "k"]
    let joined := chain [⟨"h.i", none, some [.named "d"], []⟩, .named "k"]
    tree.isParserShaped = true ∧ (∀ value ∈ tree.reals, value.ReadsBack) ∧
      2 * tree.height ≤ 10 ∧
      tree.text = "(if ((a + 0.5) < \"x\") then f(-b)[c].h.i[d].k else 1)".toList ∧
      parse { maxDepth := 10 } tree.text = .ok joined := by
  intro half condition target chain tree joined
  have shaped : tree.isParserShaped = true := by
    with_unfolding_all rfl
  have readBack : ∀ value ∈ tree.reals, value.ReadsBack := by
    intro value member
    have only : tree.reals = [.finite false 4503599627370496 (-53) (by decide)] := rfl
    rw [only, List.mem_singleton] at member
    subst member
    unfold Binary64.ReadsBack
    with_unfolding_all rfl
  have enough : 2 * tree.height ≤ 10 := by
    with_unfolding_all decide
  have text : tree.text = "(if ((a + 0.5) < \"x\") then f(-b)[c].h.i[d].k else 1)".toList := by
    with_unfolding_all rfl
  exact ⟨shaped, readBack, enough, text, parse_text { maxDepth := 10 } tree shaped readBack enough⟩

end Expr

end ModelEquation
