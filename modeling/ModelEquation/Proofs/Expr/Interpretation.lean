import ModelEquation.Expr.Reading
import ModelEquation.Proofs.Expr.Reals

/-!
# Expressions out of their structured form

The structured form of an expression, with its doubles changed, denotes the
expression with its doubles changed. The proof goes through all the places in
which a value is read: as a node, as a list of nodes, as a member and as a chain.
-/

namespace ModelEquation
namespace Expr

open Json.Value (mapDoubles mapItems mapMembers itemReadings memberReadings)

/-- The parts of the structured form of an expression, its type left out. -/
def jsonParts (expression : Expr) : List (String × Json.Value) :=
  match expression.toJson with
  | .object (_ :: parts) => parts
  | _ => []

/-- An expression is written as its parts under the tag of its shape. -/
theorem toJson_eq_tagged (expression : Expr) :
    expression.toJson = tagged expression.shape expression.jsonParts := by
  cases expression <;> rfl

/-- Readings of members are found under the names of the members. -/
theorem names_memberReadings
    (change : Binary64 → Binary64)
    (parts : List (String × Json.Value)) :
    (memberReadings (mapMembers change parts)).map Prod.fst = parts.map Prod.fst := by
  induction parts with
  | nil => rfl
  | cons part others hypothesis => simp [mapMembers, memberReadings, hypothesis]

/-- The type of a node is found first, and the parts are what is left. -/
theorem ofMembers?_of_type
    (shape : Shape)
    {parts : Parts}
    (untyped : "type" ∉ parts.map Prod.fst)
    (tag : Json.Value → Option Shape)
    (known : tag (.string shape.name) = some shape) :
    Parts.ofMembers? tag (("type", Json.Value.reading (.string shape.name)) :: parts) =
      some (shape, parts) := by
  have none : parts.filter (fun part => part.1 == "type") = [] := by
    rw [List.filter_eq_nil_iff]
    intro part present same
    exact untyped (List.mem_map.mpr ⟨part, present, eq_of_beq same⟩)
  have all : parts.filter (fun part => part.1 != "type") = parts := by
    rw [List.filter_eq_self]
    intro part present
    rw [bne_iff_ne]
    intro same
    exact untyped (List.mem_map.mpr ⟨part, present, same⟩)
  simp [Parts.ofMembers?, Parts.required?, Parts.named, none, all, Json.Value.reading,
    Reading.ofScalar, known]

/-- No name is written twice in the object of a variable, the tag included. -/
theorem nodup_jsonMembers (reference : Variable) :
    ("type" :: reference.jsonMembers.map Prod.fst).Nodup := by
  obtain ⟨name, indices, arguments, members⟩ := reference
  cases indices <;> cases arguments <;> cases members <;>
    simp [Variable.jsonMembers, jsonGroup, Variable.jsonChain]

/-- No two parts of a node have the same name, and none has that of the type. -/
theorem nodup_jsonParts : (expression : Expr) →
    ("type" :: expression.jsonParts.map Prod.fst).Nodup
  | .variable reference => nodup_jsonMembers reference
  | .index _ _ [] => by simp [jsonParts, toJson, tagged, Variable.jsonChain]
  | .index _ _ (_ :: _) => by simp [jsonParts, toJson, tagged, Variable.jsonChain]
  | .number _ | .string _ | .unary _ _ | .binary _ _ _ | .compare _ _ _ | .logical _ _ _
  | .call _ _ | .conditional _ _ _ => by simp [jsonParts, toJson, tagged]

/-- No part of a variable has the name under which the type is written. -/
theorem type_notMem_jsonMembers (reference : Variable) :
    "type" ∉ reference.jsonMembers.map Prod.fst :=
  (List.nodup_cons.mp (nodup_jsonMembers reference)).1

/-- No part of a node goes by the name of the tag. -/
theorem type_notMem_jsonParts (expression : Expr) :
    "type" ∉ expression.jsonParts.map Prod.fst :=
  (List.nodup_cons.mp (nodup_jsonParts expression)).1

/-- A node below another is read from its shape and parts. -/
theorem expression_reading
    {change : Binary64 → Binary64}
    {expression result : Expr}
    (denoted : ofParts? expression.shape
      (memberReadings (mapMembers change expression.jsonParts)) = some result) :
    (expression.toJson.mapDoubles change).reading.expression = some result := by
  have untyped := type_notMem_jsonParts expression
  rw [← names_memberReadings change] at untyped
  have split := ofMembers?_of_type expression.shape untyped (Shape.ofTagOrIndex? Shape.all)
    (Shape.ofName?_name expression.shape)
  rw [toJson_eq_tagged]
  simp only [tagged, mapDoubles, mapMembers, Json.Value.reading, memberReadings, Reading.ofNode]
    at split ⊢
  rw [split]
  exact denoted

/-- A member is read as a variable. -/
theorem member_reading
    {change : Binary64 → Binary64}
    {reference result : Variable}
    (denoted : (memberReadings (mapMembers change reference.jsonMembers)).reference? =
      some result) :
    ((tagged .variable reference.jsonMembers).mapDoubles change).reading.member =
      some result := by
  have untyped := type_notMem_jsonMembers reference
  rw [← names_memberReadings change] at untyped
  have split := ofMembers?_of_type .variable untyped (Shape.ofTagOrIndex? [.variable]) rfl
  simp only [tagged, mapDoubles, mapMembers, Json.Value.reading, memberReadings, Reading.ofNode]
    at split ⊢
  rw [split]
  exact denoted

end Expr

open ModelEquation.Expr (EveryReal everyReal_cons everyReal_append)
open Json.Value (mapDoubles mapItems mapMembers itemReadings memberReadings)

variable {change : Binary64 → Binary64}

/-- A number is read from its own text as the number that its double is replaced by. -/
theorem Number.ofJson?_mapDoubles
    {number : Number}
    (reread : EveryReal (Binary64.RereadsAs change) [.number number]) :
    Number.ofJson? (number.toJson.mapDoubles change) = some (number.mapReal change) := by
  cases number with
  | integer value =>
      simp [Number.toJson, mapDoubles, Number.ofJson?, Number.fitsInteger_toInt, Number.mapReal]
  | real value =>
      have known := reread value (List.mem_cons_self ..)
      simp [Number.toJson, Binary64.isFinite_of_reread? known, mapDoubles, Number.ofJson?,
        Number.mapReal]

namespace Expr

/-- What an array says: a list of nodes and a chain of members. -/
theorem list_reading_array (items : List Json.Value) :
    (Json.Value.array items).reading.list =
      (itemReadings items).mapM Reading.expression := rfl

theorem chain_reading_array (items : List Json.Value) :
    (Json.Value.array items).reading.chain = (itemReadings items).mapM Reading.member := rfl

theorem value_reading_array (items : List Json.Value) :
    (Json.Value.array items).reading.value = .array items := rfl

theorem value_reading_string (text : String) :
    (Json.Value.string text).reading.value = .string text := rfl

theorem jsonChain_nil : Variable.jsonChain [] = [] := rfl

theorem jsonChain_cons (member : Variable) (rest : List Variable) :
    Variable.jsonChain (member :: rest) =
      [("subnodes", .array (Variable.jsonTagged (member :: rest)))] := rfl

/-- The readings of the parts of a variable denote the variable. -/
theorem reference?_of_groups
    {name : String}
    {indices arguments : Option (List Expr)}
    {members : List Variable}
    (first : ∀ items ∈ indices,
      (itemReadings (mapItems change (jsonItems items))).mapM Reading.expression =
        some (mapRealsList change items))
    (second : ∀ items ∈ arguments,
      (itemReadings (mapItems change (jsonItems items))).mapM Reading.expression =
        some (mapRealsList change items))
    (third : (itemReadings (mapItems change (Variable.jsonTagged members))).mapM
        Reading.member = some (Variable.mapRealsList change members)) :
    (memberReadings (mapMembers change
      (Variable.jsonMembers ⟨name, indices, arguments, members⟩))).reference? =
      some (Variable.mapReals change ⟨name, indices, arguments, members⟩) := by
  cases indices <;> cases arguments <;> cases members <;>
    simp_all [Variable.jsonMembers, jsonGroup, jsonChain_nil, jsonChain_cons, mapMembers,
      memberReadings, mapDoubles, Parts.reference?, Parts.text?, Parts.group?, Parts.chain?,
      Parts.optional?, Parts.required?, Parts.named, list_reading_array, chain_reading_array,
      value_reading_array, value_reading_string, Variable.mapReals, mapRealsGroup,
      Variable.mapRealsList]

end Expr

namespace Expr

/-- The parts of a node with an operator between two sides. -/
theorem parts_of_sides
    (symbol : String)
    (left right : Json.Value) :
    let parts := memberReadings [("operator", .string symbol), ("left", left), ("right", right)]
    parts.symbol? "operator" = some symbol ∧
      parts.expression? "left" = left.reading.expression ∧
      parts.expression? "right" = right.reading.expression := by
  simp [memberReadings, Parts.symbol?, Parts.expression?, Parts.required?, Parts.named,
    value_reading_string]

theorem parts_of_unary
    (symbol : String)
    (operand : Json.Value) :
    let parts := memberReadings [("operator", .string symbol), ("operand", operand)]
    parts.symbol? "operator" = some symbol ∧
      parts.expression? "operand" = operand.reading.expression := by
  simp [memberReadings, Parts.symbol?, Parts.expression?, Parts.required?, Parts.named,
    value_reading_string]

/-- The fields of a call are found under their names. -/
theorem parts_of_call
    (callee : Json.Value)
    (arguments : List Json.Value) :
    let parts := memberReadings [("callee", callee), ("args", .array arguments)]
    parts.expression? "callee" = callee.reading.expression ∧
      parts.list? "args" = (itemReadings arguments).mapM Reading.expression := by
  simp [memberReadings, Parts.expression?, Parts.list?, Parts.required?, Parts.named,
    list_reading_array]

/-- The parts of an index node; its chain of members may be left out. -/
theorem parts_of_index
    {members : List Variable}
    (target : Json.Value)
    (indices : List Json.Value)
    (continued : (itemReadings (mapItems change (Variable.jsonTagged members))).mapM
      Reading.member = some (Variable.mapRealsList change members)) :
    let parts := memberReadings ([("target", target), ("indices", .array indices)] ++
      mapMembers change (Variable.jsonChain members))
    parts.expression? "target" = target.reading.expression ∧
      parts.list? "indices" = (itemReadings indices).mapM Reading.expression ∧
      parts.chain? "subnodes" = some (Variable.mapRealsList change members) := by
  cases members <;>
    simp_all [memberReadings, Parts.expression?, Parts.list?, Parts.chain?, Parts.required?,
      Parts.optional?, Parts.named, list_reading_array, chain_reading_array, jsonChain_nil,
      jsonChain_cons, mapMembers, mapDoubles, Variable.mapRealsList]

/-- The fields of a conditional are found under their names. -/
theorem parts_of_conditional
    (condition whenTrue whenFalse : Json.Value) :
    let parts := memberReadings
      [("condition", condition), ("then_branch", whenTrue), ("else_branch", whenFalse)]
    parts.expression? "condition" = condition.reading.expression ∧
      parts.expression? "then_branch" = whenTrue.reading.expression ∧
      parts.expression? "else_branch" = whenFalse.reading.expression := by
  simp [memberReadings, Parts.expression?, Parts.required?, Parts.named]

end Expr

mutual

/-- The parts of an expression with their doubles changed denote the expression
with its doubles changed. -/
theorem Expr.ofParts?_jsonParts :
    (expression : Expr) → EveryReal (Binary64.RereadsAs change) expression.walk →
      Expr.ofParts? expression.shape (memberReadings (mapMembers change expression.jsonParts)) =
        some (expression.mapReals change)
  | .number number, reread => by
      have known := Number.ofJson?_mapDoubles reread
      have value : ((number.toJson.mapDoubles change).reading).value =
          number.toJson.mapDoubles change := by
        cases number.toJson <;> rfl
      simp [Expr.jsonParts, Expr.toJson, Expr.tagged, Expr.shape, Expr.ofParts?, mapMembers,
        memberReadings, Expr.Parts.required?, Expr.Parts.named, value, known, Expr.mapReals]
  | .string text, _ => by
      simp [Expr.jsonParts, Expr.toJson, Expr.tagged, Expr.shape, Expr.ofParts?, mapMembers,
        memberReadings, mapDoubles, Expr.Parts.text?, Expr.Parts.required?, Expr.Parts.named,
        Expr.value_reading_string, Expr.mapReals]
  | .variable reference, reread => by
      have known := reference.reference?_jsonMembers ((everyReal_cons rfl _).mp reread)
      simp [Expr.jsonParts, Expr.toJson, Expr.tagged, Expr.shape, Expr.ofParts?, known,
        Expr.mapReals]
  | .unary operator operand, reread => by
      have known := Expr.expression_reading
        (operand.ofParts?_jsonParts ((everyReal_cons rfl _).mp reread))
      have parts := Expr.parts_of_unary operator.symbol (operand.toJson.mapDoubles change)
      simp only [known] at parts
      simp [Expr.jsonParts, Expr.toJson, Expr.tagged, Expr.shape, Expr.ofParts?, mapMembers,
        mapDoubles, parts, Expr.mapReals]
  | .binary operator left right, reread
  | .compare operator left right, reread
  | .logical operator left right, reread => by
      rw [Expr.walk, everyReal_cons rfl, everyReal_append] at reread
      have first := Expr.expression_reading (left.ofParts?_jsonParts reread.1)
      have second := Expr.expression_reading (right.ofParts?_jsonParts reread.2)
      have parts := Expr.parts_of_sides operator.symbol (left.toJson.mapDoubles change)
        (right.toJson.mapDoubles change)
      simp only [first, second] at parts
      simp [Expr.jsonParts, Expr.toJson, Expr.tagged, Expr.shape, Expr.ofParts?, mapMembers,
        mapDoubles, parts, Expr.mapReals]
  | .call callee arguments, reread => by
      rw [Expr.walk, everyReal_cons rfl, everyReal_append] at reread
      have first := Expr.expression_reading (callee.ofParts?_jsonParts reread.1)
      have second := Expr.mapM_jsonItems arguments reread.2
      have parts := Expr.parts_of_call (callee.toJson.mapDoubles change)
        (mapItems change (Expr.jsonItems arguments))
      simp only [first, second] at parts
      simp [Expr.jsonParts, Expr.toJson, Expr.tagged, Expr.shape, Expr.ofParts?, mapMembers,
        mapDoubles, parts, Expr.mapReals]
  | .index target indices members, reread => by
      rw [Expr.walk, everyReal_cons rfl, everyReal_append, everyReal_append] at reread
      obtain ⟨⟨targetReread, indicesReread⟩, membersReread⟩ := reread
      have first := Expr.expression_reading (target.ofParts?_jsonParts targetReread)
      have second := Expr.mapM_jsonItems indices indicesReread
      have third := Variable.mapM_jsonTagged members membersReread
      have parts := Expr.parts_of_index (target.toJson.mapDoubles change)
        (mapItems change (Expr.jsonItems indices)) third
      simp only [first, second] at parts
      simp only [Expr.jsonParts, Expr.toJson, Expr.tagged, Expr.shape, Expr.ofParts?,
        List.cons_append, List.nil_append, mapMembers, mapDoubles] at parts ⊢
      simp [parts, Expr.mapReals]
  | .conditional condition whenTrue whenFalse, reread => by
      rw [Expr.walk, everyReal_cons rfl, everyReal_append, everyReal_append] at reread
      obtain ⟨⟨conditionReread, trueReread⟩, falseReread⟩ := reread
      have first := Expr.expression_reading (condition.ofParts?_jsonParts conditionReread)
      have second := Expr.expression_reading (whenTrue.ofParts?_jsonParts trueReread)
      have third := Expr.expression_reading (whenFalse.ofParts?_jsonParts falseReread)
      have parts := Expr.parts_of_conditional (condition.toJson.mapDoubles change)
        (whenTrue.toJson.mapDoubles change) (whenFalse.toJson.mapDoubles change)
      simp only [first, second, third] at parts
      simp [Expr.jsonParts, Expr.toJson, Expr.tagged, Expr.shape, Expr.ofParts?, mapMembers,
        parts, Expr.mapReals]

/-- The members that are written of a variable are read as the variable, with each double
replaced. -/
theorem Variable.reference?_jsonMembers :
    (reference : Variable) → EveryReal (Binary64.RereadsAs change) reference.walkInside →
      (memberReadings (mapMembers change reference.jsonMembers)).reference? =
        some (reference.mapReals change)
  | ⟨_, indices, arguments, members⟩, reread => by
      rw [Variable.walkInside, everyReal_append, everyReal_append] at reread
      obtain ⟨⟨first, second⟩, third⟩ := reread
      apply Expr.reference?_of_groups
      · exact Expr.mapM_jsonGroup indices first
      · exact Expr.mapM_jsonGroup arguments second
      · exact Variable.mapM_jsonTagged members third

theorem Expr.mapM_jsonGroup :
    (group : Option (List Expr)) → EveryReal (Binary64.RereadsAs change) (Expr.walkGroup group) →
      ∀ items ∈ group,
        (itemReadings (mapItems change (Expr.jsonItems items))).mapM Expr.Reading.expression =
          some (Expr.mapRealsList change items)
  | none, _ => by
      intro items present
      cases present
  | some items, reread => by
      intro other present
      cases present
      exact Expr.mapM_jsonItems items reread

theorem Expr.mapM_jsonItems :
    (items : List Expr) → EveryReal (Binary64.RereadsAs change) (Expr.walkList items) →
      (itemReadings (mapItems change (Expr.jsonItems items))).mapM Expr.Reading.expression =
        some (Expr.mapRealsList change items)
  | [], _ => rfl
  | item :: rest, reread => by
      rw [Expr.walkList, everyReal_append] at reread
      have first := Expr.expression_reading (item.ofParts?_jsonParts reread.1)
      have later := Expr.mapM_jsonItems rest reread.2
      simp [Expr.jsonItems, mapItems, itemReadings, first, later, Expr.mapRealsList]

theorem Variable.mapM_jsonTagged :
    (members : List Variable) →
      EveryReal (Binary64.RereadsAs change) (Variable.walkMembers members) →
      (itemReadings (mapItems change (Variable.jsonTagged members))).mapM Expr.Reading.member =
        some (Variable.mapRealsList change members)
  | [], _ => rfl
  | member :: rest, reread => by
      rw [Variable.walkMembers, everyReal_append] at reread
      have first := Expr.member_reading (member.reference?_jsonMembers reread.1)
      have later := Variable.mapM_jsonTagged rest reread.2
      simp [Variable.jsonTagged, mapItems, itemReadings, first, later, Variable.mapRealsList]

end

end ModelEquation
