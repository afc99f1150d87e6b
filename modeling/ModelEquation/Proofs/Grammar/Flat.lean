import ModelEquation.Proofs.Grammar.Height
import ModelEquation.Proofs.Grammar.Threshold

/-!
# Flat arithmetic

A flat sequence has an operator between any two neighbouring atoms and no parentheses. It
stands for the tree that precedence gives: the sequence is split at `+` and `-`, each product
between them folds to the left, and so do the products. The tokens of the sequence derive
this tree on a single level, so that its height alone decides whether the limit is enough.
-/

namespace ModelEquation
namespace Expr
namespace Flat

open Grammar

/-! ## Sequences -/

/-- The tree of a token that is an operand by itself. -/
def operand? (token : Token) : Option Expr :=
  match token.kind with
  | .number => (Number.ofText? token.text.toList).map .number
  | .stringLiteral => some (.string token.text)
  | .identifier => some (.named token.text)
  | _ => none

/-- A finite number, a string or a name. -/
structure Atom where
  token : Token
  tree : Expr
  denoted : operand? token = some tree

/-- The token of an arithmetic operator. -/
structure Infix where
  token : Token
  operator : Arithmetic
  kind : token.kind = .operator
  named : Arithmetic.ofSymbol? token.text = some operator

/-- Operands with an operator between any two neighbours. -/
structure Sequence (α : Type) where
  first : α
  rest : List (Infix × α)

namespace Sequence

variable {α : Type}

/-- The tokens of the operands and of the operators between them. -/
def tokens (spelled : α → List Token) (sequence : Sequence α) : List Token :=
  spelled sequence.first ++
    sequence.rest.flatMap fun step => step.1.token :: spelled step.2

/-- The trees of the operands, folded to the left. -/
def tree (denoted : α → Expr) (sequence : Sequence α) : Expr :=
  sequence.rest.foldl
    (fun left step => .binary step.1.operator left (denoted step.2))
    (denoted sequence.first)

/-- One more operand in front. -/
def cons (first : α) (operation : Infix) (sequence : Sequence α) : Sequence α :=
  ⟨first, (operation, sequence.first) :: sequence.rest⟩

@[simp] theorem tokens_cons
    (spelled : α → List Token)
    (first : α)
    (operation : Infix)
    (sequence : Sequence α) :
    (sequence.cons first operation).tokens spelled =
      spelled first ++ operation.token :: sequence.tokens spelled := by
  simp [tokens, cons]

/-- The products between the additive operators of a first atom and what follows it. -/
def products (first : Atom) : List (Infix × Atom) → Sequence (Sequence Atom)
  | [] => ⟨⟨first, []⟩, []⟩
  | (operation, next) :: rest =>
      let others := products next rest
      if operation.operator.isAdditive then
        others.cons ⟨first, []⟩ operation
      else
        ⟨others.first.cons first operation, others.rest⟩

end Sequence

/-- The tokens of a flat sequence. -/
def tokens (flat : Sequence Atom) : List Token :=
  flat.tokens fun atom => [atom.token]

/-- The sequence split at the additive operators. -/
def split (flat : Sequence Atom) : Sequence (Sequence Atom) :=
  .products flat.first flat.rest

/-- The tree of a flat sequence by precedence: each product is folded to the left, and then
the sum of the products. -/
def reference (flat : Sequence Atom) : Expr :=
  (split flat).tree (Sequence.tree Atom.tree)

/-- The tokens of `a-b*c+d` stand for `(a-(b*c))+d`. -/
example :
    reference
      ⟨⟨⟨.identifier, "a", 0⟩, .named "a", rfl⟩,
        [(⟨⟨.operator, "-", 1⟩, .subtract, rfl, rfl⟩, ⟨⟨.identifier, "b", 2⟩, .named "b", rfl⟩),
          (⟨⟨.operator, "*", 3⟩, .multiply, rfl, rfl⟩, ⟨⟨.identifier, "c", 4⟩, .named "c", rfl⟩),
          (⟨⟨.operator, "+", 5⟩, .add, rfl, rfl⟩, ⟨⟨.identifier, "d", 6⟩, .named "d", rfl⟩)]⟩ =
      .binary .add (.binary .subtract (.named "a") (.binary .multiply (.named "b") (.named "c")))
        (.named "d") := by
  rfl

/-! ## The split -/

namespace Sequence

/-- All operators of the sequence are additive, or none is. -/
def Uniform {α : Type} (additive : Bool) (sequence : Sequence α) : Prop :=
  ∀ step ∈ sequence.rest, step.1.operator.isAdditive = additive

/-- Splitting loses no token. -/
theorem tokens_products
    (spelled : Atom → List Token)
    (first : Atom)
    (rest : List (Infix × Atom)) :
    (products first rest).tokens (tokens spelled) = tokens spelled ⟨first, rest⟩ := by
  induction rest generalizing first with
  | nil => simp [products, tokens]
  | cons step rest hypothesis =>
      obtain ⟨operation, next⟩ := step
      have whole : tokens spelled ⟨first, (operation, next) :: rest⟩ =
          spelled first ++ operation.token :: tokens spelled ⟨next, rest⟩ :=
        tokens_cons spelled first operation ⟨next, rest⟩
      rw [whole, ← hypothesis next, products]
      split
      · rw [tokens_cons]
        simp [tokens]
      · simp [tokens, cons]

/-- The operators between the products are additive. -/
theorem uniform_products
    (first : Atom)
    (rest : List (Infix × Atom)) :
    (products first rest).Uniform true := by
  induction rest generalizing first with
  | nil => simp [products, Uniform]
  | cons step rest hypothesis =>
      rw [products]
      split
      · next additive => exact List.forall_mem_cons.mpr ⟨additive, hypothesis step.2⟩
      · exact hypothesis step.2

/-- A product of the split, the first or a later one, has no additive operator. -/
theorem uniform_of_products
    (first : Atom)
    (rest : List (Infix × Atom)) :
    (products first rest).first.Uniform false ∧
      ∀ step ∈ (products first rest).rest, step.2.Uniform false := by
  induction rest generalizing first with
  | nil => simp [products, Uniform]
  | cons step rest hypothesis =>
      obtain ⟨product, others⟩ := hypothesis step.2
      have alone : Uniform false (⟨first, []⟩ : Sequence Atom) := by simp [Uniform]
      rw [products]
      split
      · exact ⟨alone, List.forall_mem_cons.mpr ⟨product, others⟩⟩
      · next multiplicative =>
          exact ⟨List.forall_mem_cons.mpr ⟨by simpa using multiplicative, product⟩, others⟩

end Sequence

/-! ## Derivations -/

/-- The token of an atom is a factor that is derived within one level. -/
theorem Atom.derives (atom : Atom) :
    Derives .greedy 1 (.factor .closed atom.tree) [atom.token] := by
  obtain ⟨token, tree, denoted⟩ := atom
  unfold operand? at denoted
  split at denoted
  · next kind =>
      obtain ⟨value, known, rfl⟩ := Option.map_eq_some_iff.mp denoted
      exact .number kind known
  · next kind =>
      cases denoted
      exact .string kind
  · next kind =>
      cases denoted
      exact .ofPrimary (.name kind)
  · contradiction

/-- The token of an operation is read as its operator, in the loop of its precedence only. -/
theorem Infix.arithmetic?_token
    (operation : Infix)
    {additive : Bool}
    (known : operation.operator.isAdditive = additive) :
    arithmetic? additive operation.token = some operation.operator := by
  simp [arithmetic?, operation.kind, operation.named, known]

/-- Where each operand of a sequence extends a derivation, they all do, one after the other. The
tree on the left grows with each operand, and so do the tokens in front. -/
theorem derives_tree
    {α : Type}
    {spelled : α → List Token}
    {denoted : α → Expr}
    (level : Expr → Phrase)
    (sequence : Sequence α)
    (start : Derives .greedy 1 (level (denoted sequence.first)) (spelled sequence.first))
    (grows : ∀ step ∈ sequence.rest, ∀ left front,
      Derives .greedy 1 (level left) front →
      Derives .greedy 1 (level (.binary step.1.operator left (denoted step.2)))
        (front ++ step.1.token :: spelled step.2)) :
    Derives .greedy 1 (level (sequence.tree denoted)) (sequence.tokens spelled) := by
  obtain ⟨first, rest⟩ := sequence
  simp only [Sequence.tree, Sequence.tokens] at start grows ⊢
  generalize denoted first = left at start ⊢
  generalize spelled first = front at start ⊢
  induction rest generalizing left front with
  | nil => simpa using start
  | cons step rest hypothesis =>
      obtain ⟨now, later⟩ := List.forall_mem_cons.mp grows
      have grown := hypothesis later _ _ (now left front start)
      rw [List.append_assoc] at grown
      exact grown

/-- Atoms with `*` and `/` between them form the product that is folded to the left. -/
theorem derives_product
    {product : Sequence Atom}
    (uniform : product.Uniform false) :
    Derives .greedy 1 (.term .closed (product.tree Atom.tree))
      (product.tokens fun atom => [atom.token]) := by
  refine derives_tree (.term .closed) product (.ofFactor product.first.derives) ?_
  intro step member left front derived
  exact .product derived rfl (step.1.arithmetic?_token (uniform step member)) step.2.derives

/-- A flat sequence forms its reference tree, without any nesting. -/
theorem derives_reference (flat : Sequence Atom) :
    Derives .greedy 1 (.expression .closed (reference flat)) (tokens flat) := by
  obtain ⟨first, rest⟩ := flat
  obtain ⟨uniform, uniformLater⟩ := Sequence.uniform_of_products first rest
  have additive := Sequence.uniform_products first rest
  rw [tokens, ← Sequence.tokens_products]
  refine derives_tree (.expression .closed) _ (.ofTerm (derives_product uniform)) ?_
  intro step member left front derived
  exact .sum derived rfl (step.1.arithmetic?_token (additive step member))
    (derives_product (uniformLater step member))

end Flat

open Flat Grammar in
/-- Flat arithmetic is read by precedence. Its reference tree is the result within every limit
that the height of this tree fits, and within every other limit the fault is the nesting. -/
theorem ofTokens_flat
    (options : Options)
    (flat : Sequence Atom) :
    ((reference flat).height ≤ options.maxDepth →
      ofTokens options (tokens flat) = .ok (reference flat)) ∧
    (options.maxDepth < (reference flat).height →
      ∃ position, ofTokens options (tokens flat) =
        .error (.tooDeep options.maxDepth position)) := by
  have derived := derives_reference flat
  constructor
  · intro fits
    have levels : 1 ≤ options.maxDepth := Nat.le_trans (reference flat).height_pos fits
    have ran := Grammar.run_wholeExpression_of_derives derived levels fits
    refine ofTokensUntil_of_read_ok _ ?_
    rw [Expr.read, ran]
    rfl
  · intro exceeds
    refine ofTokensUntil_of_givesUp (Classical.not_not.mp fun settled => ?_)
    let wider : Options := ⟨2 * (tokens flat).length + 1⟩
    have denotes : Denotes .greedy (tokens flat) (reference flat) := ⟨1, .closed, derived⟩
    have accepted : ofTokens wider (tokens flat) = .ok (reference flat) :=
      ofTokensUntil_of_read_ok _ ((read_eq_ok_iff (Nat.le_refl _)).mpr denotes)
    have same : ofTokens wider (tokens flat) = ofTokens options (tokens flat) :=
      ofTokensUntil_of_settled settled (not_givesUp_of_ok accepted)
    have bounded := height_le_of_ofTokensUntil (same.symm.trans accepted)
    omega

end Expr
end ModelEquation
