import ModelEquation.Number
import ModelEquation.Operator

/-!
# Expressions

The right-hand side of a model equation as a tree. A variable carries the index
group and the members that followed it in the text; an index group on anything
but a bare variable is a node of its own. Quotation marks belong to the value of
a string.
-/

namespace ModelEquation

mutual

/-- An expression tree. Comparisons and connectives are conditions of `if`. -/
inductive Expr
  | number (value : Number)
  | string (value : String)
  | variable (reference : Variable)
  | unary (operator : Sign) (operand : Expr)
  | binary (operator : Arithmetic) (left right : Expr)
  | compare (operator : Comparison) (left right : Expr)
  | logical (operator : Connective) (left right : Expr)
  | call (callee : Expr) (arguments : List Expr)
  | index (target : Expr) (indices : List Expr) (members : List Variable)
  | conditional (condition whenTrue whenFalse : Expr)

/-- A reference to a variable, or one member of a dotted chain. The index group
is that of a variable, the argument group that of a member. -/
structure Variable where
  name : String
  indices : Option (List Expr)
  arguments : Option (List Expr)
  members : List Variable

end

namespace Variable

/-- A variable of which only the name is known. -/
def named (name : String) : Variable :=
  ⟨name, none, none, []⟩

/-- Whether a variable is nothing but its name. -/
def isBare (reference : Variable) : Bool :=
  reference.indices.isNone && reference.arguments.isNone && reference.members.isEmpty

/-- The bare variables are those made from their name. -/
theorem isBare_iff (reference : Variable) :
    reference.isBare = true ↔ reference = named reference.name := by
  cases reference with
  | mk name indices arguments members =>
      cases indices <;> cases arguments <;> cases members <;> simp [isBare, named]

@[simp] theorem isBare_named (name : String) : (named name).isBare = true := rfl

end Variable

namespace Expr

/-- The bare variable of a name. -/
def named (name : String) : Expr :=
  .variable (.named name)

/-- Applies an index group and the members after it. A bare variable takes the
group as its own; anything else becomes the target of an index node. -/
def indexed (target : Expr) (indices : List Expr) (members : List Variable) : Expr :=
  match target with
  | .variable reference =>
      if reference.isBare then .variable ⟨reference.name, some indices, none, members⟩
      else .index target indices members
  | _ => .index target indices members

@[simp] theorem indexed_named
    (name : String)
    (indices : List Expr)
    (members : List Variable) :
    (named name).indexed indices members =
      .variable ⟨name, some indices, none, members⟩ := rfl

end Expr
end ModelEquation
