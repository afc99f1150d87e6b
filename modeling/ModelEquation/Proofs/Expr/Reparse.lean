import Mathlib.Data.List.Chain
import ModelEquation.Proofs.Expr.Roundtrip
import ModelEquation.Proofs.Expr.Shape
import ModelEquation.Proofs.Grammar.Threshold

/-!
# Canonical texts of what was read

The canonical text of an expression that was read from a text denotes the expression
again, unless a member without a group stands in front of another member, in which case
the two are joined. Its parentheses take levels of nesting that the first text may not
have taken, so the limit under which the first text was read need not suffice for it. It
does where no conditional occurs; otherwise less than twice as many levels do.
-/

namespace ModelEquation

namespace Expr

/-- The members after the index group of a node. -/
def memberList : Expr → List Variable
  | .variable reference => reference.members
  | .index _ _ members => members
  | _ => []

/-- In none of the nodes is a member without a group followed by another one. -/
def Separate (nodes : List Expr) : Prop :=
  ∀ node ∈ nodes, node.memberList.IsChain fun member _ => member.arguments.isSome = true

end Expr

/-! ## Members that stay apart -/

section Separate

open ModelEquation.Expr (Separate)

mutual

/-- Where no two members are joined, joining members changes nothing. -/
theorem Expr.fused_eq_self :
    (expression : Expr) → expression.isParserShaped = true → Separate expression.walk →
      expression.fused = expression
  | .number _, _, _ => rfl
  | .string _, _, _ => rfl
  | .variable reference, shaped, separate => by
      rw [Expr.walk, Separate, List.forall_mem_cons] at separate
      rw [Expr.fused, reference.fused_eq_self shaped separate.1 separate.2]
  | .unary _ operand, shaped, separate => by
      rw [Expr.fused, operand.fused_eq_self shaped (List.forall_mem_cons.mp separate).2]
  | .binary _ left right, shaped, separate => by
      simp only [Expr.isParserShaped, Bool.and_eq_true] at shaped
      simp only [Expr.walk, Separate, List.forall_mem_cons, List.forall_mem_append] at separate
      rw [Expr.fused, left.fused_eq_self shaped.1 separate.2.1,
        right.fused_eq_self shaped.2 separate.2.2]
  | .compare _ _ _, shaped, _ | .logical _ _ _, shaped, _ => by
      simp [Expr.isParserShaped] at shaped
  | .call callee arguments, shaped, separate => by
      simp only [Expr.isParserShaped, Bool.and_eq_true] at shaped
      simp only [Expr.walk, Separate, List.forall_mem_cons, List.forall_mem_append] at separate
      rw [Expr.fused, callee.fused_eq_self shaped.1 separate.2.1,
        Expr.fusedList_eq_self arguments shaped.2 separate.2.2]
  | .index target indices members, shaped, separate => by
      simp only [Expr.isParserShaped, Bool.and_eq_true] at shaped
      simp only [Expr.walk, Separate, List.forall_mem_cons, List.forall_mem_append] at separate
      obtain ⟨⟨⟨⟨applied, _⟩, _⟩, inside⟩, continued⟩ := shaped
      rw [Expr.fused, target.fused_eq_self applied separate.2.1.1,
        Expr.fusedList_eq_self indices inside separate.2.1.2,
        Variable.fusedMembers_eq_self members continued separate.1 separate.2.2]
  | .conditional condition whenTrue whenFalse, shaped, separate => by
      simp only [Expr.isParserShaped, Bool.and_eq_true] at shaped
      simp only [Expr.walk, Separate, List.forall_mem_cons, List.forall_mem_append] at separate
      rw [Expr.fused, condition.fused_eq_self_of_condition shaped.1.1 separate.2.1.1,
        whenTrue.fused_eq_self shaped.1.2 separate.2.1.2,
        whenFalse.fused_eq_self shaped.2 separate.2.2]

theorem Expr.fused_eq_self_of_condition :
    (condition : Expr) → condition.isShapedCondition = true → Separate condition.walk →
      condition.fused = condition
  | .compare _ left right, shaped, separate => by
      simp only [Expr.isShapedCondition, Bool.and_eq_true] at shaped
      simp only [Expr.walk, Separate, List.forall_mem_cons, List.forall_mem_append] at separate
      rw [Expr.fused, left.fused_eq_self shaped.1 separate.2.1,
        right.fused_eq_self shaped.2 separate.2.2]
  | .logical _ left right, shaped, separate => by
      simp only [Expr.isShapedCondition, Bool.and_eq_true] at shaped
      simp only [Expr.walk, Separate, List.forall_mem_cons, List.forall_mem_append] at separate
      rw [Expr.fused, left.fused_eq_self_of_condition shaped.1 separate.2.1,
        right.fused_eq_self_of_condition shaped.2 separate.2.2]
  | .number _, shaped, _ | .string _, shaped, _ | .variable _, shaped, _ | .unary _ _, shaped, _
  | .binary _ _ _, shaped, _ | .call _ _, shaped, _ | .index _ _ _, shaped, _
  | .conditional _ _ _, shaped, _ => by
      simp [Expr.isShapedCondition] at shaped

/-- No members are joined in a variable whose members are kept apart. -/
theorem Variable.fused_eq_self :
    (reference : Variable) → reference.isParserShaped = true →
      reference.members.IsChain (fun member _ => member.arguments.isSome = true) →
      Separate reference.walkInside → reference.fused = reference
  | ⟨_, indices, arguments, members⟩, shaped, chain, separate => by
      simp only [Variable.isParserShaped, Bool.and_eq_true, Option.isNone_iff_eq_none] at shaped
      obtain ⟨⟨⟨⟨_, rfl⟩, _⟩, inside⟩, continued⟩ := shaped
      simp only [Variable.walkInside, Separate, List.forall_mem_append] at separate
      rw [Variable.fused, Expr.fusedGroup_eq_self indices inside separate.1.1,
        Variable.fusedMembers_eq_self members continued chain separate.2]
      rfl

theorem Expr.fusedGroup_eq_self :
    (group : Option (List Expr)) → Expr.isShapedGroup group = true →
      Separate (Expr.walkGroup group) → Expr.fusedGroup group = group
  | none, _, _ => rfl
  | some items, shaped, separate => by
      rw [Expr.fusedGroup,
        Expr.fusedList_eq_self items (Bool.and_eq_true_iff.mp shaped).2 separate]

theorem Expr.fusedList_eq_self :
    (items : List Expr) → Expr.areParserShaped items = true → Separate (Expr.walkList items) →
      Expr.fusedList items = items
  | [], _, _ => rfl
  | item :: rest, shaped, separate => by
      simp only [Expr.areParserShaped, Bool.and_eq_true] at shaped
      simp only [Expr.walkList, Separate, List.forall_mem_append] at separate
      rw [Expr.fusedList, item.fused_eq_self shaped.1 separate.1,
        Expr.fusedList_eq_self rest shaped.2 separate.2]

theorem Variable.fusedMembers_eq_self :
    (members : List Variable) → Variable.areShapedMembers members = true →
      members.IsChain (fun member _ => member.arguments.isSome = true) →
      Separate (Variable.walkMembers members) → Variable.fusedMembers members = members
  | [], _, _, _ => rfl
  | ⟨name, indices, arguments, inner⟩ :: rest, shaped, chain, separate => by
      simp only [Variable.areShapedMembers, Variable.isShapedMember, Bool.and_eq_true,
        Option.isNone_iff_eq_none, List.isEmpty_iff] at shaped
      obtain ⟨⟨⟨⟨_, rfl⟩, rfl⟩, inside⟩, later⟩ := shaped
      simp only [Variable.walkMembers, Variable.walkInside, Separate,
        List.forall_mem_append] at separate
      have group := Expr.fusedGroup_eq_self arguments inside separate.1.1.2
      have others := Variable.fusedMembers_eq_self rest later chain.of_cons separate.2
      rw [Variable.fusedMembers, Variable.fused, group, others, Expr.fusedGroup,
        Variable.fusedMembers]
      cases rest with
      | nil => rfl
      | cons next more =>
          have grouped := (List.isChain_cons_cons.mp chain).1
          exact Variable.fuse_of_isBare_eq_false (by simp_all [Variable.isBare]) _

end

end Separate

namespace Expr

open Grammar

/-- The canonical text of an expression that was read denotes it again from some limit
on, and exceeds every smaller one. That limit is no less than the height of the
expression and less than twice it, and where no conditional occurs the limit under
which the expression was read suffices. -/
theorem parse_text_of_parse
    {options : Options}
    {text : List Char}
    {tree : Expr}
    (parsed : parse options text = .ok tree)
    (separate : Separate tree.walk)
    (readBack : ∀ value ∈ tree.reals, value.ReadsBack) :
    ∃ threshold, tree.height ≤ threshold ∧ threshold ≤ tree.nesting ∧
      tree.nesting < 2 * tree.height ∧
      (∀ other : Options, threshold ≤ other.maxDepth → parse other tree.text = .ok tree) ∧
      (∀ other : Options, other.maxDepth < threshold →
        ∃ position, parse other tree.text = .error (.tooDeep other.maxDepth position)) ∧
      (Plain tree.walk → parse options tree.text = .ok tree) := by
  obtain ⟨source, sourceRead, formed⟩ := exists_tokenize_of_parse parsed
  have shaped := isParserShaped_of_tokenize sourceRead formed
  have kept : tree.fused = tree := tree.fused_eq_self shaped separate
  obtain ⟨tokens, _, tokenized, _⟩ := tokenize_text shaped readBack
  have same (other : Options) :
      parse other tree.text = ofTokensUntil other (Text.byteLength tree.text) tokens := by
    rw [parse, tokenized]
  let ample : Options := ⟨tree.nesting⟩
  have accepted : parse ample tree.text = .ok tree := by
    rw [parse_text_of_nesting shaped readBack (Nat.le_refl _), kept]
  rw [same] at accepted
  obtain ⟨threshold, high, reached, exceeded⟩ := ofTokensUntil_threshold_of_ok accepted
  simp only [same]
  refine ⟨threshold, height_le_of_ofTokensUntil (reached ⟨threshold⟩ (Nat.le_refl _)), high,
    tree.nesting_bounds.2, reached, exceeded, fun plain => reached options ?_⟩
  calc threshold ≤ tree.nesting := high
    _ = tree.height := tree.nesting_eq_height shaped plain
    _ ≤ options.maxDepth := height_le_of_ofTokensUntil formed

/-- A conditional that is read within five levels, and its canonical text within seven. -/
theorem parse_text_of_parse_conditional :
    ∃ tree, parse { maxDepth := 5 } "if a > b[1].k[2].m then f(-c) else 1.5".toList = .ok tree ∧
      Separate tree.walk ∧ (∀ value ∈ tree.reals, value.ReadsBack) ∧ tree.nesting = 7 ∧
      parse { maxDepth := 7 } tree.text = .ok tree := by
  let bound : Expr :=
    .variable ⟨"b", some [.number (.integer 1)], none,
      [⟨"k", none, some [.number (.integer 2)], []⟩, .named "m"]⟩
  let tree : Expr :=
    .conditional (.compare .greater (.named "a") bound)
      (.call (.named "f") [.unary .minus (.named "c")])
      (.number (.real (.finite false 6755399441055744 (-52) (by decide))))
  have parsed : parse { maxDepth := 5 } "if a > b[1].k[2].m then f(-c) else 1.5".toList =
      .ok tree := by
    with_unfolding_all rfl
  have separate : Separate tree.walk := by
    unfold Separate
    with_unfolding_all decide
  have readBack : ∀ value ∈ tree.reals, value.ReadsBack := by
    intro value member
    have only : tree.reals = [.finite false 6755399441055744 (-52) (by decide)] := rfl
    rw [only, List.mem_singleton] at member
    subst member
    unfold Binary64.ReadsBack
    with_unfolding_all rfl
  have nesting : tree.nesting = 7 := by
    with_unfolding_all rfl
  obtain ⟨threshold, _, high, _, reached, _⟩ := parse_text_of_parse parsed separate readBack
  exact ⟨tree, parsed, separate, readBack, nesting, reached ⟨7⟩ (nesting ▸ high)⟩

/-- A conditional that is read within three levels, though its canonical text is not. -/
theorem parse_text_exceeds_limit :
    ∃ tree, parse { maxDepth := 3 } "if a > b then c else d".toList = .ok tree ∧
      Separate tree.walk ∧ (∀ value ∈ tree.reals, value.ReadsBack) ∧
      tree.text = "(if (a > b) then c else d)".toList ∧
      parse { maxDepth := 3 } tree.text = .error (.tooDeep 3 5) := by
  let tree : Expr :=
    .conditional (.compare .greater (.named "a") (.named "b")) (.named "c") (.named "d")
  have parsed : parse { maxDepth := 3 } "if a > b then c else d".toList = .ok tree := by
    with_unfolding_all rfl
  have separate : Separate tree.walk := by
    unfold Separate
    with_unfolding_all decide
  have noReals : tree.reals = [] := rfl
  have text : tree.text = "(if (a > b) then c else d)".toList := by
    with_unfolding_all rfl
  have exceeded : parse { maxDepth := 3 } "(if (a > b) then c else d)".toList =
      .error (.tooDeep 3 5) := by
    with_unfolding_all rfl
  exact ⟨tree, parsed, separate, by simp [noReals], text, text ▸ exceeded⟩

end Expr
end ModelEquation
