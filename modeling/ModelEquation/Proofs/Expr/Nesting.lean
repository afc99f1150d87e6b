import ModelEquation.Expr.Traversal
import ModelEquation.Proofs.Expr.Fusion

/-!
# Nesting of canonical texts

How many levels of nesting suffice for the canonical text of an expression. The
parentheses of a comparison and of a conditional take a level apart from the one inside
them, so both count twice; every other node takes one level, as it does in the height.
The nesting is therefore less than twice the height, and it is the height itself where
no conditional occurs.
-/

namespace ModelEquation

mutual

/-- Levels of nesting in which the canonical text of an expression can be read. -/
def Expr.nesting : Expr → Nat
  | .number _ => 1
  | .string _ => 1
  | .variable reference => reference.nesting
  | .unary _ operand => operand.nesting + 1
  | .binary _ left right => max left.nesting right.nesting + 1
  | .compare _ left right => max left.nesting right.nesting + 2
  | .logical _ left right => max left.nesting right.nesting + 1
  | .call callee arguments => max callee.nesting (Expr.deepest arguments) + 1
  | .index target indices members =>
      max (max target.nesting (Expr.deepest indices)) (Variable.deepest members) + 1
  | .conditional condition whenTrue whenFalse =>
      max (max condition.nesting whenTrue.nesting) whenFalse.nesting + 2

/-- Levels of nesting in the text of a variable. -/
def Variable.nesting : Variable → Nat
  | ⟨_, indices, arguments, members⟩ =>
      max (max (Expr.groupNesting indices) (Expr.groupNesting arguments))
        (Variable.deepest members) + 1

/-- Levels of nesting in the texts of an optional group. -/
def Expr.groupNesting : Option (List Expr) → Nat
  | none => 0
  | some items => Expr.deepest items

/-- The most levels of nesting in the texts of a list of expressions. -/
def Expr.deepest : List Expr → Nat
  | [] => 0
  | item :: rest => max item.nesting (Expr.deepest rest)

/-- The most levels of nesting in the texts of a chain of members. -/
def Variable.deepest : List Variable → Nat
  | [] => 0
  | member :: rest => max member.nesting (Variable.deepest rest)

end

/-! ## Nesting and height -/

mutual

/-- The nesting of an expression lies between its height and less than twice that. -/
theorem Expr.nesting_bounds :
    (expression : Expr) →
      expression.height ≤ expression.nesting ∧ expression.nesting < 2 * expression.height
  | .number _ => by simp [Expr.height, Expr.nesting]
  | .string _ => by simp [Expr.height, Expr.nesting]
  | .variable reference => reference.nesting_bounds
  | .unary _ operand => by
      have below := operand.nesting_bounds
      rw [Expr.height, Expr.nesting]
      omega
  | .binary _ left right | .compare _ left right | .logical _ left right => by
      have first := left.nesting_bounds
      have second := right.nesting_bounds
      rw [Expr.height, Expr.nesting]
      omega
  | .call callee arguments => by
      have applied := callee.nesting_bounds
      have inside := Expr.deepest_bounds arguments
      rw [Expr.height, Expr.nesting]
      omega
  | .index target indices members => by
      have applied := target.nesting_bounds
      have inside := Expr.deepest_bounds indices
      have continued := Variable.deepest_bounds members
      rw [Expr.height, Expr.nesting]
      omega
  | .conditional condition whenTrue whenFalse => by
      have chosen := condition.nesting_bounds
      have first := whenTrue.nesting_bounds
      have second := whenFalse.nesting_bounds
      rw [Expr.height, Expr.nesting]
      omega

/-- The nesting of a variable is at least its height and less than twice of it. -/
theorem Variable.nesting_bounds :
    (reference : Variable) →
      reference.height ≤ reference.nesting ∧ reference.nesting < 2 * reference.height
  | ⟨_, indices, arguments, members⟩ => by
      have first := Expr.groupNesting_bounds indices
      have second := Expr.groupNesting_bounds arguments
      have continued := Variable.deepest_bounds members
      rw [Variable.height, Variable.nesting]
      omega

theorem Expr.groupNesting_bounds :
    (group : Option (List Expr)) →
      Expr.groupHeight group ≤ Expr.groupNesting group ∧
        Expr.groupNesting group ≤ 2 * Expr.groupHeight group
  | none => by simp [Expr.groupHeight, Expr.groupNesting]
  | some items => Expr.deepest_bounds items

theorem Expr.deepest_bounds :
    (items : List Expr) →
      Expr.tallest items ≤ Expr.deepest items ∧ Expr.deepest items ≤ 2 * Expr.tallest items
  | [] => by simp [Expr.tallest, Expr.deepest]
  | item :: rest => by
      have first := item.nesting_bounds
      have later := Expr.deepest_bounds rest
      rw [Expr.tallest, Expr.deepest]
      omega

theorem Variable.deepest_bounds :
    (members : List Variable) →
      Variable.tallest members ≤ Variable.deepest members ∧
        Variable.deepest members ≤ 2 * Variable.tallest members
  | [] => by simp [Variable.tallest, Variable.deepest]
  | member :: rest => by
      have first := member.nesting_bounds
      have later := Variable.deepest_bounds rest
      rw [Variable.tallest, Variable.deepest]
      omega

end

namespace Expr

/-- Every expression nests. -/
theorem nesting_pos (expression : Expr) : 0 < expression.nesting :=
  Nat.lt_of_lt_of_le expression.height_pos expression.nesting_bounds.1

theorem deepest_pos
    {items : List Expr}
    (nonempty : items ≠ []) :
    0 < deepest items :=
  Nat.lt_of_lt_of_le (tallest_pos nonempty) (deepest_bounds items).1

/-- Whether a node is a conditional. -/
def isConditional : Expr → Bool
  | .conditional _ _ _ => true
  | _ => false

/-- None of the nodes is a conditional. -/
def Plain (nodes : List Expr) : Prop :=
  ∀ node ∈ nodes, node.isConditional = false

end Expr

section Plain

open ModelEquation.Expr (Plain)

mutual

/-- Without conditionals there are no comparisons either, and nothing counts twice. -/
theorem Expr.nesting_eq_height :
    (expression : Expr) → expression.isParserShaped = true → Plain expression.walk →
      expression.nesting = expression.height
  | .number _, _, _ => rfl
  | .string _, _, _ => rfl
  | .variable reference, shaped, plain =>
      reference.nesting_eq_height shaped (List.forall_mem_cons.mp plain).2
  | .unary _ operand, shaped, plain => by
      rw [Expr.nesting, Expr.height,
        operand.nesting_eq_height shaped (List.forall_mem_cons.mp plain).2]
  | .binary _ left right, shaped, plain => by
      simp only [Expr.isParserShaped, Bool.and_eq_true] at shaped
      simp only [Expr.walk, Plain, List.forall_mem_cons, List.forall_mem_append] at plain
      rw [Expr.nesting, Expr.height, left.nesting_eq_height shaped.1 plain.2.1,
        right.nesting_eq_height shaped.2 plain.2.2]
  | .compare _ _ _, shaped, _ | .logical _ _ _, shaped, _ => by
      simp [Expr.isParserShaped] at shaped
  | .call callee arguments, shaped, plain => by
      simp only [Expr.isParserShaped, Bool.and_eq_true] at shaped
      simp only [Expr.walk, Plain, List.forall_mem_cons, List.forall_mem_append] at plain
      rw [Expr.nesting, Expr.height, callee.nesting_eq_height shaped.1 plain.2.1,
        Expr.deepest_eq_tallest arguments shaped.2 plain.2.2]
  | .index target indices members, shaped, plain => by
      simp only [Expr.isParserShaped, Bool.and_eq_true] at shaped
      simp only [Expr.walk, Plain, List.forall_mem_cons, List.forall_mem_append] at plain
      obtain ⟨⟨⟨⟨applied, _⟩, _⟩, inside⟩, continued⟩ := shaped
      rw [Expr.nesting, Expr.height, target.nesting_eq_height applied plain.2.1.1,
        Expr.deepest_eq_tallest indices inside plain.2.1.2,
        Variable.deepest_eq_tallest members continued plain.2.2]
  | .conditional _ _ _, _, plain => by
      have other := plain _ (List.mem_cons_self ..)
      contradiction

/-- The nesting of a variable is its height where nothing compares or branches. -/
theorem Variable.nesting_eq_height :
    (reference : Variable) → reference.isParserShaped = true → Plain reference.walkInside →
      reference.nesting = reference.height
  | ⟨_, indices, arguments, members⟩, shaped, plain => by
      simp only [Variable.isParserShaped, Bool.and_eq_true, Option.isNone_iff_eq_none] at shaped
      obtain ⟨⟨⟨⟨_, rfl⟩, _⟩, inside⟩, continued⟩ := shaped
      simp only [Variable.walkInside, Plain, List.forall_mem_append] at plain
      rw [Variable.nesting, Variable.height, Expr.groupNesting_eq indices inside plain.1.1,
        Variable.deepest_eq_tallest members continued plain.2]
      rfl

theorem Expr.groupNesting_eq :
    (group : Option (List Expr)) → Expr.isShapedGroup group = true → Plain (Expr.walkGroup group) →
      Expr.groupNesting group = Expr.groupHeight group
  | none, _, _ => rfl
  | some items, shaped, plain =>
      Expr.deepest_eq_tallest items (Bool.and_eq_true_iff.mp shaped).2 plain

theorem Expr.deepest_eq_tallest :
    (items : List Expr) → Expr.areParserShaped items = true → Plain (Expr.walkList items) →
      Expr.deepest items = Expr.tallest items
  | [], _, _ => rfl
  | item :: rest, shaped, plain => by
      simp only [Expr.areParserShaped, Bool.and_eq_true] at shaped
      simp only [Expr.walkList, Plain, List.forall_mem_append] at plain
      rw [Expr.deepest, Expr.tallest, item.nesting_eq_height shaped.1 plain.1,
        Expr.deepest_eq_tallest rest shaped.2 plain.2]

theorem Variable.deepest_eq_tallest :
    (members : List Variable) → Variable.areShapedMembers members = true →
      Plain (Variable.walkMembers members) →
      Variable.deepest members = Variable.tallest members
  | [], _, _ => rfl
  | ⟨_, indices, arguments, inner⟩ :: rest, shaped, plain => by
      simp only [Variable.areShapedMembers, Variable.isShapedMember, Bool.and_eq_true,
        Option.isNone_iff_eq_none, List.isEmpty_iff] at shaped
      obtain ⟨⟨⟨⟨_, rfl⟩, rfl⟩, inside⟩, later⟩ := shaped
      simp only [Variable.walkMembers, Variable.walkInside, Plain, List.forall_mem_append] at plain
      rw [Variable.deepest, Variable.tallest, Variable.nesting, Variable.height,
        Expr.groupNesting_eq arguments inside plain.1.1.2,
        Variable.deepest_eq_tallest rest later plain.2]
      rfl

end

end Plain
end ModelEquation
