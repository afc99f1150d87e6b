import ModelEquation.Equation.JsonReader
import ModelEquation.Proofs.Expr.Denotation
import ModelEquation.Proofs.Expr.Interpretation

/-!
# Values of expressions

The structured form of an expression as a plain value has its members ordered by name, so that
the type of a node need not come first. The expression is read from it if all of its doubles
are finite, and nothing is read from it otherwise. The same holds for equations.
-/

namespace ModelEquation
namespace Expr

open Json.Value (canonicalItems canonicalMembers itemReadings memberReadings valuesOf)

/-- Whether all doubles among some nodes are finite. -/
def areFinite (nodes : List Expr) : Bool :=
  (realsOf nodes).all Binary64.isFinite

@[simp] theorem areFinite_append (front back : List Expr) :
    areFinite (front ++ back) = (areFinite front && areFinite back) := by
  simp [areFinite]

/-- A node that is no double counts by the nodes below it. -/
theorem areFinite_cons
    {node : Expr}
    (other : node.real? = none)
    (nodes : List Expr) :
    areFinite (node :: nodes) = areFinite nodes := by
  simp [areFinite, realsOf, other]

/-- Parts with each value in canonical form. -/
def canonicalParts (parts : List (String × Json.Value)) : List (String × Json.Value) :=
  parts.map fun part => (part.1, part.2.canonical)

/-- A name has the same values in canonical parts, in canonical form. -/
theorem valuesOf_canonicalParts
    (parts : List (String × Json.Value))
    (name : String) :
    valuesOf (canonicalParts parts) name = (valuesOf parts name).map Json.Value.canonical := by
  induction parts with
  | nil => rfl
  | cons part others hypothesis =>
      obtain ⟨first, value⟩ := part
      rw [canonicalParts, List.map_cons, Json.Value.valuesOf_cons, Json.Value.valuesOf_cons]
      split
      · exact congrArg (value.canonical :: ·) hypothesis
      · exact hypothesis

/-- Ordering the parts of a node by name changes no reading. -/
theorem named_canonicalMembers
    {parts : List (String × Json.Value)}
    (distinct : (parts.map Prod.fst).Nodup)
    (name : String) :
    Parts.named (memberReadings (canonicalMembers parts [])) name =
      Parts.named (memberReadings (canonicalParts parts)) name := by
  rw [Parts.named_memberReadings, Parts.named_memberReadings,
    Json.Value.valuesOf_canonicalMembers_of_nodup distinct, valuesOf_canonicalParts]

/-- The type and the parts of a node are found wherever its type stands. -/
theorem ofMembers?_canonicalMembers
    (shape : Shape)
    {parts : List (String × Json.Value)}
    (distinct : ("type" :: parts.map Prod.fst).Nodup)
    (tag : Json.Value → Option Shape)
    (known : tag (.string shape.name) = some shape) :
    ∃ kept, Parts.ofMembers? tag
        (memberReadings (canonicalMembers (("type", .string shape.name) :: parts) [])) =
          some (shape, kept) ∧
      ∀ name, Parts.named kept name = Parts.named (memberReadings (canonicalParts parts)) name := by
  have same : ∀ name,
      Parts.named (memberReadings (canonicalMembers (("type", .string shape.name) :: parts) []))
        name =
        Parts.named (memberReadings (canonicalParts (("type", .string shape.name) :: parts)))
          name :=
    named_canonicalMembers distinct
  generalize memberReadings (canonicalMembers (("type", .string shape.name) :: parts) []) = whole
    at same ⊢
  have absent : valuesOf parts "type" = [] := by
    apply Json.Value.valuesOf_eq_nil
    intro part present equal
    exact (List.nodup_cons.mp distinct).1 (List.mem_map.mpr ⟨part, present, equal⟩)
  have type : Parts.required? whole "type" = some (.ofScalar (.string shape.name)) := by
    rw [Parts.required?_eq_some_iff, same, Parts.named_memberReadings, valuesOf_canonicalParts,
      Json.Value.valuesOf_cons, if_pos rfl, absent]
    rfl
  refine ⟨whole.filter fun part => part.1 != "type", ?_, fun name => ?_⟩
  · rw [Parts.ofMembers?, type]
    simp only [Option.bind_eq_bind, Option.bind_some, Reading.ofScalar, known]
  · rw [Parts.named_filter_ne, same, Parts.named_memberReadings, Parts.named_memberReadings,
      valuesOf_canonicalParts, valuesOf_canonicalParts, Json.Value.valuesOf_cons]
    by_cases typed : name = "type"
    · rw [if_pos typed, typed, absent]
      rfl
    · rw [if_neg typed, if_neg (Ne.symm typed)]

/-! ## The places of a value -/

/-- A node below another is read from its parts in canonical form. -/
theorem expression_reading_canonical
    (expression : Expr) :
    expression.toJson.canonical.reading.expression =
      ofParts? expression.shape (memberReadings (canonicalParts expression.jsonParts)) := by
  obtain ⟨kept, split, same⟩ := ofMembers?_canonicalMembers expression.shape
    (nodup_jsonParts expression) (Shape.ofTagOrIndex? Shape.all)
    (Shape.ofName?_name expression.shape)
  rw [toJson_eq_tagged, ← ofParts?_congr same]
  simp only [tagged, Json.Value.canonical, Json.Value.reading, Reading.ofNode, split]
  rfl

/-- The topmost node is read as one below another. -/
theorem ofJson?_canonical
    (expression : Expr) :
    ofJson? expression.toJson.canonical =
      ofParts? expression.shape (memberReadings (canonicalParts expression.jsonParts)) := by
  obtain ⟨kept, split, same⟩ := ofMembers?_canonicalMembers expression.shape
    (nodup_jsonParts expression) Shape.ofTag? (Shape.ofName?_name expression.shape)
  rw [toJson_eq_tagged, ← ofParts?_congr same]
  simp only [tagged, Json.Value.canonical, ofJson?, split]
  rfl

/-- A member is read as a variable. -/
theorem member_reading_canonical
    (reference : Variable) :
    (tagged .variable reference.jsonMembers).canonical.reading.member =
      Parts.reference? (memberReadings (canonicalParts reference.jsonMembers)) := by
  obtain ⟨kept, split, same⟩ := ofMembers?_canonicalMembers .variable
    (nodup_jsonMembers reference) (Shape.ofTagOrIndex? [.variable]) rfl
  rw [← Parts.reference?_congr same]
  simp only [tagged, Json.Value.canonical, Json.Value.reading, Reading.ofNode, split]
  rfl

/-- An optional group is read if all of its doubles are finite. -/
theorem group?_of_named
    {parts : Parts}
    {field : String}
    (group : Option (List Expr))
    (named : parts.named field = (group.map fun items =>
      (Json.Value.array (canonicalItems (jsonItems items))).reading).toList)
    (read : ∀ items ∈ group,
      (itemReadings (canonicalItems (jsonItems items))).mapM Reading.expression =
        if areFinite (walkList items) then some items else none) :
    parts.group? field = if areFinite (walkGroup group) then some group else none := by
  rw [Parts.group?, Parts.optional?, named]
  cases group with
  | none => rfl
  | some items =>
      simp only [Option.map_some, Option.toList_some, value_reading_array, list_reading_array,
        read items rfl, walkGroup]
      by_cases finite : areFinite (walkList items) <;> simp [finite]

/-- A chain of members is read if all of its doubles are finite. -/
theorem chain?_of_named
    {parts : Parts}
    {field : String}
    (members : List Variable)
    (named : parts.named field =
      Parts.named (memberReadings (canonicalParts (Variable.jsonChain members))) "subnodes")
    (read : (itemReadings (canonicalItems (Variable.jsonTagged members))).mapM Reading.member =
      if areFinite (Variable.walkMembers members) then some members else none) :
    parts.chain? field =
      if areFinite (Variable.walkMembers members) then some members else none := by
  rw [Parts.chain?, Parts.optional?, named]
  cases members with
  | nil => rfl
  | cons member others =>
      rw [← read]
      rfl

/-- The parts of an index node; its chain of members may be left out. -/
theorem parts_of_index_canonical
    {members : List Variable}
    (target : Json.Value)
    (indices : List Json.Value)
    (read : (itemReadings (canonicalItems (Variable.jsonTagged members))).mapM Reading.member =
      if areFinite (Variable.walkMembers members) then some members else none) :
    let parts := memberReadings ([("target", target), ("indices", .array indices)] ++
      canonicalParts (Variable.jsonChain members))
    parts.expression? "target" = target.reading.expression ∧
      parts.list? "indices" = (itemReadings indices).mapM Reading.expression ∧
      parts.chain? "subnodes" =
        if areFinite (Variable.walkMembers members) then some members else none := by
  refine ⟨?_, ?_, chain?_of_named members ?_ read⟩ <;>
    cases members <;>
    simp [memberReadings, canonicalParts, Parts.expression?, Parts.list?, Parts.required?,
      Parts.named, list_reading_array, jsonChain_nil, jsonChain_cons]

/-- The readings of the parts of a variable, by their names. -/
theorem named_jsonMembers (reference : Variable) :
    let parts := memberReadings (canonicalParts reference.jsonMembers)
    parts.text? "name" = some reference.name ∧
      Parts.named parts "indices" = (reference.indices.map fun items =>
        (Json.Value.array (canonicalItems (jsonItems items))).reading).toList ∧
      Parts.named parts "args" = (reference.arguments.map fun items =>
        (Json.Value.array (canonicalItems (jsonItems items))).reading).toList ∧
      Parts.named parts "subnodes" =
        Parts.named (memberReadings (canonicalParts (Variable.jsonChain reference.members)))
          "subnodes" := by
  obtain ⟨name, indices, arguments, members⟩ := reference
  cases indices <;> cases arguments <;> cases members <;>
    simp [Variable.jsonMembers, jsonGroup, jsonChain_nil, jsonChain_cons, canonicalParts,
      memberReadings, Json.Value.canonical, Parts.text?, Parts.required?, Parts.named,
      value_reading_string]

end Expr

open ModelEquation.Expr (areFinite areFinite_append areFinite_cons canonicalParts)
open Json.Value (canonicalItems itemReadings memberReadings)

mutual

/-- The parts of an expression in canonical form denote it if its doubles are finite, and
denote nothing otherwise. -/
theorem Expr.ofParts?_canonicalParts :
    (expression : Expr) →
      Expr.ofParts? expression.shape (memberReadings (canonicalParts expression.jsonParts)) =
        if areFinite expression.walk then some expression else none
  | .number (.integer value) => by
      simp [Expr.jsonParts, Expr.toJson, Expr.tagged, Expr.shape, canonicalParts, memberReadings,
        Number.toJson, Json.Value.canonical, Json.Value.reading, Expr.Reading.ofScalar,
        Expr.ofParts?, Expr.Parts.required?, Expr.Parts.named, Number.ofJson?,
        Number.fitsInteger_toInt, Expr.walk, areFinite, Expr.realsOf, Expr.real?]
  | .number (.real value) => by
      cases finite : value.isFinite <;>
        simp [Expr.jsonParts, Expr.toJson, Expr.tagged, Expr.shape, canonicalParts,
          memberReadings, Number.toJson, finite, Json.Value.canonical, Json.Value.reading,
          Expr.Reading.ofScalar, Expr.ofParts?, Expr.Parts.required?, Expr.Parts.named,
          Number.ofJson?, Expr.walk, areFinite, Expr.realsOf, Expr.real?]
  | .string text => by
      simp [Expr.jsonParts, Expr.toJson, Expr.tagged, Expr.shape, canonicalParts, memberReadings,
        Json.Value.canonical, Json.Value.reading, Expr.Reading.ofScalar, Expr.ofParts?,
        Expr.Parts.text?, Expr.Parts.required?, Expr.Parts.named, Expr.walk, areFinite,
        Expr.realsOf, Expr.real?]
  | .variable reference => by
      have known := reference.reference?_canonicalParts
      rw [Expr.walk, areFinite_cons rfl]
      simp only [Expr.jsonParts, Expr.toJson, Expr.tagged, Expr.shape, Expr.ofParts?, known]
      cases areFinite reference.walkInside <;> rfl
  | .unary operator operand => by
      have parts := Expr.parts_of_unary operator.symbol operand.toJson.canonical
      simp only [operand.expression_reading_canonical, operand.ofParts?_canonicalParts] at parts
      rw [Expr.walk, areFinite_cons rfl]
      simp only [Expr.jsonParts, Expr.toJson, Expr.tagged, Expr.shape, Expr.ofParts?,
        canonicalParts, List.map_cons, List.map_nil, Json.Value.canonical, parts]
      cases areFinite operand.walk <;> simp
  | .binary operator left right
  | .compare operator left right
  | .logical operator left right => by
      have parts := Expr.parts_of_sides operator.symbol left.toJson.canonical
        right.toJson.canonical
      simp only [Expr.expression_reading_canonical, left.ofParts?_canonicalParts,
        right.ofParts?_canonicalParts] at parts
      rw [Expr.walk, areFinite_cons rfl, areFinite_append]
      simp only [Expr.jsonParts, Expr.toJson, Expr.tagged, Expr.shape, Expr.ofParts?,
        canonicalParts, List.map_cons, List.map_nil, Json.Value.canonical, parts]
      cases areFinite left.walk <;> cases areFinite right.walk <;> simp
  | .call callee arguments => by
      have parts := Expr.parts_of_call callee.toJson.canonical
        (canonicalItems (Expr.jsonItems arguments))
      simp only [Expr.expression_reading_canonical, callee.ofParts?_canonicalParts,
        Expr.mapM_canonicalItems arguments] at parts
      rw [Expr.walk, areFinite_cons rfl, areFinite_append]
      simp only [Expr.jsonParts, Expr.toJson, Expr.tagged, Expr.shape, Expr.ofParts?,
        canonicalParts, List.map_cons, List.map_nil, Json.Value.canonical, parts]
      cases areFinite callee.walk <;> cases areFinite (Expr.walkList arguments) <;> simp
  | .index target indices members => by
      have parts := Expr.parts_of_index_canonical target.toJson.canonical
        (canonicalItems (Expr.jsonItems indices)) (Variable.mapM_canonicalTagged members)
      simp only [Expr.expression_reading_canonical, target.ofParts?_canonicalParts,
        Expr.mapM_canonicalItems indices] at parts
      rw [Expr.walk, areFinite_cons rfl, areFinite_append, areFinite_append]
      simp only [Expr.jsonParts, Expr.toJson, Expr.tagged, Expr.shape, Expr.ofParts?,
        canonicalParts, List.cons_append, List.nil_append, List.map_cons, Json.Value.canonical]
        at parts ⊢
      simp only [parts]
      cases areFinite target.walk <;> cases areFinite (Expr.walkList indices) <;>
        cases areFinite (Variable.walkMembers members) <;> simp
  | .conditional condition whenTrue whenFalse => by
      have parts := Expr.parts_of_conditional condition.toJson.canonical
        whenTrue.toJson.canonical whenFalse.toJson.canonical
      simp only [Expr.expression_reading_canonical, condition.ofParts?_canonicalParts,
        whenTrue.ofParts?_canonicalParts, whenFalse.ofParts?_canonicalParts] at parts
      rw [Expr.walk, areFinite_cons rfl, areFinite_append, areFinite_append]
      simp only [Expr.jsonParts, Expr.toJson, Expr.tagged, Expr.shape, Expr.ofParts?,
        canonicalParts, List.map_cons, List.map_nil, parts]
      cases areFinite condition.walk <;> cases areFinite whenTrue.walk <;>
        cases areFinite whenFalse.walk <;> simp

/-- The canonical members of a variable are read as the variable if all of its doubles are
finite. -/
theorem Variable.reference?_canonicalParts :
    (reference : Variable) →
      (memberReadings (canonicalParts reference.jsonMembers)).reference? =
        if areFinite reference.walkInside then some reference else none
  | ⟨name, indices, arguments, members⟩ => by
      have named := Expr.named_jsonMembers ⟨name, indices, arguments, members⟩
      have first := Expr.group?_of_named indices named.2.1 (Expr.mapM_canonicalGroup indices)
      have second := Expr.group?_of_named arguments named.2.2.1
        (Expr.mapM_canonicalGroup arguments)
      have third := Expr.chain?_of_named members named.2.2.2
        (Variable.mapM_canonicalTagged members)
      rw [Expr.Parts.reference?, named.1, first, second, third, Variable.walkInside,
        areFinite_append, areFinite_append]
      cases areFinite (Expr.walkGroup indices) <;> cases areFinite (Expr.walkGroup arguments) <;>
        cases areFinite (Variable.walkMembers members) <;> rfl

theorem Expr.mapM_canonicalGroup :
    (group : Option (List Expr)) → ∀ items ∈ group,
      (itemReadings (canonicalItems (Expr.jsonItems items))).mapM Expr.Reading.expression =
        if areFinite (Expr.walkList items) then some items else none
  | none => by
      intro items present
      cases present
  | some items => by
      intro other present
      cases present
      exact Expr.mapM_canonicalItems items

/-- The canonical items of a list are read as the list if all of its doubles are finite. -/
theorem Expr.mapM_canonicalItems :
    (items : List Expr) →
      (itemReadings (canonicalItems (Expr.jsonItems items))).mapM Expr.Reading.expression =
        if areFinite (Expr.walkList items) then some items else none
  | [] => rfl
  | item :: rest => by
      have first := item.ofParts?_canonicalParts
      have later := Expr.mapM_canonicalItems rest
      simp only [Expr.jsonItems, canonicalItems, itemReadings, List.mapM_cons, Expr.walkList,
        Expr.expression_reading_canonical, first, later, areFinite_append]
      cases areFinite item.walk <;> cases areFinite (Expr.walkList rest) <;> rfl

theorem Variable.mapM_canonicalTagged :
    (members : List Variable) →
      (itemReadings (canonicalItems (Variable.jsonTagged members))).mapM Expr.Reading.member =
        if areFinite (Variable.walkMembers members) then some members else none
  | [] => rfl
  | member :: rest => by
      have first := member.reference?_canonicalParts
      have later := Variable.mapM_canonicalTagged rest
      simp only [Variable.jsonTagged, canonicalItems, itemReadings, List.mapM_cons,
        Variable.walkMembers, Expr.member_reading_canonical, first, later, areFinite_append]
      cases areFinite member.walkInside <;> cases areFinite (Variable.walkMembers rest) <;> rfl

end

namespace Equation

/-- Ordered by name, the members of an equation change places. -/
theorem canonical_toJson (equation : Equation) :
    equation.toJson.canonical = .object
      [("expression", equation.expression.toJson.canonical),
        ("output", .string equation.output)] := by
  have before : "expression" < "output" := by decide
  simp [toJson, Json.Value.canonical, Json.Value.canonicalMembers, Json.Value.insertMember, before]

/-- The plain value of an equation is read through that of its expression. -/
theorem ofJson?_canonical (equation : Equation) :
    ofJson? equation.toJson.canonical =
      (Expr.ofJson? equation.expression.toJson.canonical).map fun expression =>
        ⟨equation.output, expression⟩ := by
  rw [canonical_toJson, ofJson?]
  simp only [onlyMember?, List.filter]
  cases read : Expr.ofJson? equation.expression.toJson.canonical <;> simp [textOf?, read]

end Equation

/-- The plain value of an expression, of any height and with any texts in it, is read as the
expression if all of its doubles are finite, and is refused otherwise. So is the plain value of
an equation. -/
theorem ofJson?_canonical_toJson (expression : Expr) :
    let finite := expression.reals.all Binary64.isFinite
    Expr.ofJson? expression.toJson.canonical = (if finite then some expression else none) ∧
      ∀ output, Equation.ofJson? (Equation.toJson ⟨output, expression⟩).canonical =
        if finite then some ⟨output, expression⟩ else none := by
  have whole : Expr.ofJson? expression.toJson.canonical =
      if areFinite expression.walk then some expression else none := by
    rw [expression.ofJson?_canonical, expression.ofParts?_canonicalParts]
  refine ⟨whole, fun output => ?_⟩
  rw [Equation.ofJson?_canonical, whole]
  exact apply_ite (Option.map fun expression => Equation.mk output expression) ..

end ModelEquation
