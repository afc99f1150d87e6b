import ModelEquation.Expr.Basic

/-!
# Traversals

`Expr.walk` lists a node and everything below it, parents first and from left to
right; the members of a chain are entered but are no nodes themselves.
`Expr.variableNames` collects names on its own way down, because a bare callee
names a function.
-/

namespace ModelEquation

mutual

/-- The node and all nodes below it, parents first and from left to right. -/
def Expr.walk : Expr → List Expr
  | .number value => [.number value]
  | .string value => [.string value]
  | .variable reference => .variable reference :: reference.walkInside
  | .unary operator operand => .unary operator operand :: operand.walk
  | .binary operator left right => .binary operator left right :: (left.walk ++ right.walk)
  | .compare operator left right => .compare operator left right :: (left.walk ++ right.walk)
  | .logical operator left right => .logical operator left right :: (left.walk ++ right.walk)
  | .call callee arguments =>
      .call callee arguments :: (callee.walk ++ Expr.walkList arguments)
  | .index target indices members =>
      .index target indices members ::
        (target.walk ++ Expr.walkList indices ++ Variable.walkMembers members)
  | .conditional condition whenTrue whenFalse =>
      .conditional condition whenTrue whenFalse ::
        (condition.walk ++ whenTrue.walk ++ whenFalse.walk)

/-- The nodes in the groups of a variable and of its members. -/
def Variable.walkInside : Variable → List Expr
  | ⟨_, indices, arguments, members⟩ =>
      Expr.walkGroup indices ++ Expr.walkGroup arguments ++ Variable.walkMembers members

/-- The nodes of an optional group. -/
def Expr.walkGroup : Option (List Expr) → List Expr
  | none => []
  | some items => Expr.walkList items

/-- The nodes of a list of expressions. -/
def Expr.walkList : List Expr → List Expr
  | [] => []
  | item :: rest => item.walk ++ Expr.walkList rest

/-- The nodes in the groups of the members of a chain. -/
def Variable.walkMembers : List Variable → List Expr
  | [] => []
  | member :: rest => member.walkInside ++ Variable.walkMembers rest

end

namespace Expr

/-- The string literals, quotation marks included, from left to right. -/
def stringLiterals (expression : Expr) : List String :=
  expression.walk.filterMap fun node =>
    match node with
    | .string value => some value
    | _ => none

/-- The numbers from left to right. -/
def numbers (expression : Expr) : List Number :=
  expression.walk.filterMap fun node =>
    match node with
    | .number value => some value
    | _ => none

/-- Adds a name to a list of names unless it is there. -/
def addName (names : List String) (name : String) : List String :=
  if names.contains name then names else names ++ [name]

end Expr

mutual

/-- Adds the names of the variables below a node to those met before it. -/
def Expr.collectNames (names : List String) : Expr → List String
  | .number _ => names
  | .string _ => names
  | .variable reference => reference.collectNames names
  | .unary _ operand => operand.collectNames names
  | .binary _ left right => right.collectNames (left.collectNames names)
  | .compare _ left right => right.collectNames (left.collectNames names)
  | .logical _ left right => right.collectNames (left.collectNames names)
  | .call (.variable callee) arguments =>
      Expr.collectListNames (if callee.isBare then names else callee.collectNames names) arguments
  | .call callee arguments => Expr.collectListNames (callee.collectNames names) arguments
  | .index target indices members =>
      Variable.collectMemberNames
        (Expr.collectListNames (target.collectNames names) indices) members
  | .conditional condition whenTrue whenFalse =>
      whenFalse.collectNames (whenTrue.collectNames (condition.collectNames names))

/-- Adds the name of a variable and those in its groups and members. -/
def Variable.collectNames (names : List String) : Variable → List String
  | ⟨name, indices, arguments, members⟩ =>
      Variable.collectMemberNames
        (Expr.collectGroupNames (Expr.collectGroupNames (Expr.addName names name) indices)
          arguments) members

/-- Adds the names in the groups and members of a variable, not its own. -/
def Variable.collectInnerNames (names : List String) : Variable → List String
  | ⟨_, indices, arguments, members⟩ =>
      Variable.collectMemberNames
        (Expr.collectGroupNames (Expr.collectGroupNames names indices) arguments) members

/-- Adds the names in an optional group. -/
def Expr.collectGroupNames (names : List String) : Option (List Expr) → List String
  | none => names
  | some items => Expr.collectListNames names items

/-- Adds the names in a list of expressions. -/
def Expr.collectListNames (names : List String) : List Expr → List String
  | [] => names
  | item :: rest => Expr.collectListNames (item.collectNames names) rest

/-- Adds the names in the groups of the members of a chain. -/
def Variable.collectMemberNames (names : List String) : List Variable → List String
  | [] => names
  | member :: rest => Variable.collectMemberNames (member.collectInnerNames names) rest

end

namespace Expr

/-- The names of the variables, each once, in the order of first appearance. A
bare variable that is called names a function and does not count. -/
def variableNames (expression : Expr) : List String :=
  expression.collectNames []

end Expr
end ModelEquation
