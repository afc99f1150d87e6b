import ModelEquation.Expr.Basic
import ModelEquation.Json.Value

/-!
# Expressions in structured output

A node is an object with its type first and its parts after it in a fixed order.
Absent groups and empty chains are left out. Every member of a chain is written
as a variable node.
-/

namespace ModelEquation
namespace Expr

/-- What a node is, apart from its parts. -/
inductive Shape
  | number
  | string
  | variable
  | unary
  | binary
  | compare
  | logical
  | call
  | index
  | conditional
  deriving DecidableEq, Repr

namespace Shape

/-- Every shape, in order of their indices. -/
def all : List Shape :=
  [.number, .string, .variable, .unary, .binary, .compare, .logical, .call, .index, .conditional]

/-- The name of a shape in structured output. -/
def name : Shape → String
  | .number => "number"
  | .string => "string"
  | .variable => "variable"
  | .unary => "unary_op"
  | .binary => "binary_op"
  | .compare => "compare"
  | .logical => "logical_op"
  | .call => "func_call"
  | .index => "index"
  | .conditional => "if_else"

/-- The shape of a name. -/
def ofName? (text : String) : Option Shape :=
  all.find? fun shape => shape.name == text

@[simp] theorem ofName?_name (shape : Shape) : ofName? shape.name = some shape := by
  cases shape <;> rfl

/-- The names of the parts of a node, in the order in which they are written. -/
def fields : Shape → List String
  | .number => ["value"]
  | .string => ["value"]
  | .variable => ["name", "indices", "args", "subnodes"]
  | .unary => ["operator", "operand"]
  | .binary => ["operator", "left", "right"]
  | .compare => ["operator", "left", "right"]
  | .logical => ["operator", "left", "right"]
  | .call => ["callee", "args"]
  | .index => ["target", "indices", "subnodes"]
  | .conditional => ["condition", "then_branch", "else_branch"]

end Shape

/-- The shape of a node. -/
def shape : Expr → Shape
  | .number _ => .number
  | .string _ => .string
  | .variable _ => .variable
  | .unary _ _ => .unary
  | .binary _ _ _ => .binary
  | .compare _ _ _ => .compare
  | .logical _ _ _ => .logical
  | .call _ _ => .call
  | .index _ _ _ => .index
  | .conditional _ _ _ => .conditional

/-- A node as an object: its type, then its parts. -/
def tagged (shape : Shape) (parts : List (String × Json.Value)) : Json.Value :=
  .object (("type", .string shape.name) :: parts)

end Expr

/-- A number in structured output; a double that is not finite has none. -/
def Number.toJson : Number → Json.Value
  | .integer value => .whole value.toInt
  | .real value => if value.isFinite then .double value else .null

mutual

/-- The structured form of an expression. -/
def Expr.toJson : Expr → Json.Value
  | .number value => Expr.tagged .number [("value", value.toJson)]
  | .string value => Expr.tagged .string [("value", .string value)]
  | .variable reference => Expr.tagged .variable reference.jsonMembers
  | .unary operator operand =>
      Expr.tagged .unary [("operator", .string operator.symbol), ("operand", operand.toJson)]
  | .binary operator left right =>
      Expr.tagged .binary
        [("operator", .string operator.symbol), ("left", left.toJson), ("right", right.toJson)]
  | .compare operator left right =>
      Expr.tagged .compare
        [("operator", .string operator.symbol), ("left", left.toJson), ("right", right.toJson)]
  | .logical operator left right =>
      Expr.tagged .logical
        [("operator", .string operator.symbol), ("left", left.toJson), ("right", right.toJson)]
  | .call callee arguments =>
      Expr.tagged .call
        [("callee", callee.toJson), ("args", .array (Expr.jsonItems arguments))]
  | .index target indices members =>
      Expr.tagged .index
        ([("target", target.toJson), ("indices", .array (Expr.jsonItems indices))] ++
          Variable.jsonChain members)
  | .conditional condition whenTrue whenFalse =>
      Expr.tagged .conditional
        [("condition", condition.toJson), ("then_branch", whenTrue.toJson),
          ("else_branch", whenFalse.toJson)]

/-- The parts of a variable. -/
def Variable.jsonMembers : Variable → List (String × Json.Value)
  | ⟨name, indices, arguments, members⟩ =>
      ("name", .string name) ::
        (Expr.jsonGroup "indices" indices ++ Expr.jsonGroup "args" arguments ++
          Variable.jsonChain members)

/-- An optional group under its name, or nothing. -/
def Expr.jsonGroup (field : String) : Option (List Expr) → List (String × Json.Value)
  | none => []
  | some items => [(field, .array (Expr.jsonItems items))]

/-- The structured forms of a list of expressions. -/
def Expr.jsonItems : List Expr → List Json.Value
  | [] => []
  | item :: rest => item.toJson :: Expr.jsonItems rest

/-- The members of a chain under their name, or nothing. -/
def Variable.jsonChain : List Variable → List (String × Json.Value)
  | [] => []
  | member :: rest =>
      [("subnodes", .array
        (Expr.tagged .variable member.jsonMembers :: Variable.jsonTagged rest))]

/-- The structured forms of members. -/
def Variable.jsonTagged : List Variable → List Json.Value
  | [] => []
  | member :: rest => Expr.tagged .variable member.jsonMembers :: Variable.jsonTagged rest

end

/-- The structured form of a variable that stands alone. -/
def Variable.toJson (reference : Variable) : Json.Value :=
  .object reference.jsonMembers

end ModelEquation
