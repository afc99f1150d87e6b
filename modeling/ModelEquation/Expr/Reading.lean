import ModelEquation.Expr.Json

/-!
# Expressions out of structured values

A JSON value is read from its leaves up. `Reading` holds what a value says in each
of the places where the structured form of an expression can put it; the reading
of an array or object is made from the readings of what it holds. A node is an
object, or an array of its type and then its parts in their order. Every known
part occurs at most once, unknown ones are passed over, and the type of a node
below another may also be given by its index.
-/

namespace ModelEquation

/-- The number that a value denotes. A whole number beyond 64 signed bits counts
as a double. -/
def Number.ofJson? : Json.Value → Option Number
  | .whole value =>
      if Number.fitsInteger value then some (.integer (.ofInt value))
      else some (.real (.ofInt value))
  | .double value => some (.real value)
  | _ => none

namespace Expr

/-- What a value says in each place: the value itself, and the expression, the
list of expressions, the member and the chain of members that it denotes. -/
structure Reading where
  value : Json.Value
  expression : Option Expr
  list : Option (List Expr)
  member : Option Variable
  chain : Option (List Variable)

/-- The parts of a node by name. -/
abbrev Parts := List (String × Reading)

namespace Parts

/-- The readings of the parts that have a name. -/
def named (parts : Parts) (name : String) : List Reading :=
  (parts.filter fun part => part.1 == name).map Prod.snd

/-- The part of a name, which must occur once. -/
def required? (parts : Parts) (name : String) : Option Reading :=
  match parts.named name with
  | [reading] => some reading
  | _ => none

/-- What the part of a name denotes, or a default where the part does not occur.
The part must not occur twice. -/
def optional? {α : Type} (parts : Parts) (name : String) (default : α)
    (form : Reading → Option α) : Option α :=
  match parts.named name with
  | [] => some default
  | [reading] => form reading
  | _ => none

/-- The text of a part. -/
def text? (parts : Parts) (name : String) : Option String := do
  match (← parts.required? name).value with
  | .string text => some text
  | _ => none

/-- The symbol of a part: a text, or an object whose only member has the symbol as
its name and holds nothing. -/
def symbol? (parts : Parts) (name : String) : Option String := do
  match (← parts.required? name).value with
  | .string symbol => some symbol
  | .object [(symbol, .null)] => some symbol
  | .object [(symbol, .object [])] => some symbol
  | _ => none

/-- The expression of a part. -/
def expression? (parts : Parts) (name : String) : Option Expr := do
  (← parts.required? name).expression

/-- The list of expressions of a part. -/
def list? (parts : Parts) (name : String) : Option (List Expr) := do
  (← parts.required? name).list

/-- The group of a part, where `null` stands for an absent one. -/
def group? (parts : Parts) (name : String) : Option (Option (List Expr)) :=
  parts.optional? name none fun reading =>
    match reading.value with
    | .null => some none
    | _ => reading.list.map some

/-- The chain of members of a part. -/
def chain? (parts : Parts) (name : String) : Option (List Variable) :=
  parts.optional? name [] Reading.chain

/-- The variable whose parts these are. -/
def reference? (parts : Parts) : Option Variable := do
  let name ← parts.text? "name"
  let indices ← parts.group? "indices"
  let arguments ← parts.group? "args"
  let members ← parts.chain? "subnodes"
  some ⟨name, indices, arguments, members⟩

/-- The parts of a node that is given as an array, by the order of its parts. -/
def ofItems? (shape : Shape) (items : List Reading) : Option Parts :=
  if items.length ≤ shape.fields.length then some (shape.fields.zip items) else none

end Parts

/-- The expression of a shape with the given parts. -/
def ofParts? (shape : Shape) (parts : Parts) : Option Expr :=
  match shape with
  | .number => do
      some (.number (← Number.ofJson? (← parts.required? "value").value))
  | .string => do
      some (.string (← parts.text? "value"))
  | .variable => do
      some (.variable (← parts.reference?))
  | .unary => do
      let operator ← Sign.ofSymbol? (← parts.symbol? "operator")
      some (.unary operator (← parts.expression? "operand"))
  | .binary => do
      let operator ← Arithmetic.ofSymbol? (← parts.symbol? "operator")
      some (.binary operator (← parts.expression? "left") (← parts.expression? "right"))
  | .compare => do
      let operator ← Comparison.ofSymbol? (← parts.symbol? "operator")
      some (.compare operator (← parts.expression? "left") (← parts.expression? "right"))
  | .logical => do
      let operator ← Connective.ofSymbol? (← parts.symbol? "operator")
      some (.logical operator (← parts.expression? "left") (← parts.expression? "right"))
  | .call => do
      some (.call (← parts.expression? "callee") (← parts.list? "args"))
  | .index => do
      some (.index (← parts.expression? "target") (← parts.list? "indices")
        (← parts.chain? "subnodes"))
  | .conditional => do
      some (.conditional (← parts.expression? "condition") (← parts.expression? "then_branch")
        (← parts.expression? "else_branch"))

/-- A shape given by its name. -/
def Shape.ofTag? : Json.Value → Option Shape
  | .string name => Shape.ofName? name
  | _ => none

/-- A shape given by its name or by its place among some shapes. -/
def Shape.ofTagOrIndex? (shapes : List Shape) : Json.Value → Option Shape
  | .string name => shapes.find? fun shape => shape.name == name
  | .whole place => if 0 ≤ place then shapes[place.toNat]? else none
  | _ => none

/-- The shape and the parts of an object, with a reader of its type. -/
def Parts.ofMembers?
    (tag : Json.Value → Option Shape)
    (members : Parts) :
    Option (Shape × Parts) := do
  let shape ← tag (← members.required? "type").value
  some (shape, members.filter fun part => part.1 != "type")

/-- The shape and the parts of an array, with a reader of its type. -/
def Parts.ofArray? (tag : Json.Value → Option Shape) : List Reading → Option (Shape × Parts)
  | [] => none
  | first :: others => do
      let shape ← tag first.value
      some (shape, ← Parts.ofItems? shape others)

namespace Reading

/-- The reading of a value that holds no others. -/
def ofScalar (value : Json.Value) : Reading :=
  ⟨value, none, none, none, none⟩

/-- The reading of a value from its shape and parts, as a node and as a member. -/
def ofNode
    (value : Json.Value)
    (split : (Json.Value → Option Shape) → Option (Shape × Parts))
    (list : Option (List Expr))
    (chain : Option (List Variable)) :
    Reading where
  value := value
  expression := do
    let (shape, parts) ← split (Shape.ofTagOrIndex? Shape.all)
    ofParts? shape parts
  list := list
  member := do
    let (_, parts) ← split (Shape.ofTagOrIndex? [.variable])
    parts.reference?
  chain := chain

end Reading
end Expr

namespace Json
namespace Value

mutual

/-- What a value says in each place of the structured form. -/
def reading : Value → Expr.Reading
  | .null => .ofScalar .null
  | .boolean value => .ofScalar (.boolean value)
  | .whole value => .ofScalar (.whole value)
  | .double value => .ofScalar (.double value)
  | .string text => .ofScalar (.string text)
  | .array items =>
      let readings := itemReadings items
      .ofNode (.array items) (fun tag => Expr.Parts.ofArray? tag readings)
        (readings.mapM Expr.Reading.expression) (readings.mapM Expr.Reading.member)
  | .object members =>
      let readings := memberReadings members
      .ofNode (.object members) (fun tag => Expr.Parts.ofMembers? tag readings) none none

/-- The readings of the items of an array. -/
def itemReadings : List Value → List Expr.Reading
  | [] => []
  | item :: rest => item.reading :: itemReadings rest

/-- The readings of the members of an object. -/
def memberReadings : List (String × Value) → Expr.Parts
  | [] => []
  | (name, value) :: rest => (name, value.reading) :: memberReadings rest

end

end Value
end Json

namespace Expr

/-- The expression of a shape and of the values of its parts. -/
def ofMembers? (shape : Shape) (members : List (String × Json.Value)) : Option Expr :=
  ofParts? shape (Json.Value.memberReadings members)

/-- The expression of a shape and of the values of its parts in their order. -/
def ofItems? (shape : Shape) (items : List Json.Value) : Option Expr := do
  ofParts? shape (← Parts.ofItems? shape (Json.Value.itemReadings items))

/-- The expression that a value denotes. The type of the topmost node is given by
its name. -/
def ofJson? : Json.Value → Option Expr
  | .object members => do
      let (shape, parts) ← Parts.ofMembers? Shape.ofTag? (Json.Value.memberReadings members)
      ofParts? shape parts
  | .array items => do
      let (shape, parts) ← Parts.ofArray? Shape.ofTag? (Json.Value.itemReadings items)
      ofParts? shape parts
  | _ => none

end Expr
end ModelEquation
