import ModelEquation.Expr.Basic

/-!
# Height of expressions

The number of levels on the longest path down from a node. A member of a chain
is a level of its own.
-/

namespace ModelEquation

mutual

/-- Levels of an expression, its own included. -/
def Expr.height : Expr → Nat
  | .number _ => 1
  | .string _ => 1
  | .variable reference => reference.height
  | .unary _ operand => operand.height + 1
  | .binary _ left right => max left.height right.height + 1
  | .compare _ left right => max left.height right.height + 1
  | .logical _ left right => max left.height right.height + 1
  | .call callee arguments => max callee.height (Expr.tallest arguments) + 1
  | .index target indices members =>
      max (max target.height (Expr.tallest indices)) (Variable.tallest members) + 1
  | .conditional condition whenTrue whenFalse =>
      max (max condition.height whenTrue.height) whenFalse.height + 1

/-- Levels of a variable, its own included. -/
def Variable.height : Variable → Nat
  | ⟨_, indices, arguments, members⟩ =>
      max (max (Expr.groupHeight indices) (Expr.groupHeight arguments))
        (Variable.tallest members) + 1

/-- Levels of the tallest expression in an optional group. -/
def Expr.groupHeight : Option (List Expr) → Nat
  | none => 0
  | some items => Expr.tallest items

/-- Levels of the tallest expression of a list. -/
def Expr.tallest : List Expr → Nat
  | [] => 0
  | item :: rest => max item.height (Expr.tallest rest)

/-- Levels of the tallest variable of a list. -/
def Variable.tallest : List Variable → Nat
  | [] => 0
  | member :: rest => max member.height (Variable.tallest rest)

end

@[simp] theorem Variable.height_named (name : String) : (Variable.named name).height = 1 := rfl

@[simp] theorem Expr.height_named (name : String) : (Expr.named name).height = 1 := rfl

@[simp] theorem Expr.tallest_nil : Expr.tallest [] = 0 := rfl

@[simp] theorem Expr.tallest_append (front back : List Expr) :
    Expr.tallest (front ++ back) = max (Expr.tallest front) (Expr.tallest back) := by
  induction front with
  | nil => simp
  | cons item rest hypothesis => simp [Expr.tallest, hypothesis, Nat.max_assoc]

@[simp] theorem Variable.tallest_nil : Variable.tallest [] = 0 := rfl

@[simp] theorem Variable.tallest_append (front back : List Variable) :
    Variable.tallest (front ++ back) =
      max (Variable.tallest front) (Variable.tallest back) := by
  induction front with
  | nil => simp
  | cons member rest hypothesis => simp [Variable.tallest, hypothesis, Nat.max_assoc]

end ModelEquation
