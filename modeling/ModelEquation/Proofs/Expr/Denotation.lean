import ModelEquation.Expr.Reading
import ModelEquation.Proofs.Json.Canonical

/-!
# What the parts of a node denote

The parts of a node denote an expression if each of them says what the expression has in its
place. Parts of a shape are read as an expression exactly if it has the shape and they denote
it. All of this depends on the readings of each name alone.
-/

namespace ModelEquation
namespace Expr
namespace Parts

variable {parts others : Parts}

/-- A part is required to be present exactly once. -/
theorem required?_eq_some_iff
    {name : String}
    {reading : Reading} :
    parts.required? name = some reading ↔ parts.named name = [reading] := by
  rw [required?]
  split
  · next only named => rw [named, Option.some.injEq, List.cons.injEq, and_iff_left rfl]
  · next other =>
      constructor
      · intro none
        contradiction
      · exact fun named => absurd named (other reading)

/-- The parts are those of the expression, each in its form. -/
def Denotes (parts : Parts) : Expr → Prop
  | .number value => (parts.required? "value").bind (Number.ofJson? ·.value) = some value
  | .string text => parts.text? "value" = some text
  | .variable reference => parts.reference? = some reference
  | .unary operator operand =>
      (parts.symbol? "operator").bind Sign.ofSymbol? = some operator ∧
        parts.expression? "operand" = some operand
  | .binary operator left right =>
      (parts.symbol? "operator").bind Arithmetic.ofSymbol? = some operator ∧
        parts.expression? "left" = some left ∧ parts.expression? "right" = some right
  | .compare operator left right =>
      (parts.symbol? "operator").bind Comparison.ofSymbol? = some operator ∧
        parts.expression? "left" = some left ∧ parts.expression? "right" = some right
  | .logical operator left right =>
      (parts.symbol? "operator").bind Connective.ofSymbol? = some operator ∧
        parts.expression? "left" = some left ∧ parts.expression? "right" = some right
  | .call callee arguments =>
      parts.expression? "callee" = some callee ∧ parts.list? "args" = some arguments
  | .index target indices members =>
      parts.expression? "target" = some target ∧ parts.list? "indices" = some indices ∧
        parts.chain? "subnodes" = some members
  | .conditional condition whenTrue whenFalse =>
      parts.expression? "condition" = some condition ∧
        parts.expression? "then_branch" = some whenTrue ∧
        parts.expression? "else_branch" = some whenFalse

/-- A variable is formed field by field, and by nothing else than its four fields. -/
theorem reference?_eq_some_iff {reference : Variable} :
    parts.reference? = some reference ↔
      parts.text? "name" = some reference.name ∧
        parts.group? "indices" = some reference.indices ∧
        parts.group? "args" = some reference.arguments ∧
        parts.chain? "subnodes" = some reference.members := by
  obtain ⟨name, indices, arguments, members⟩ := reference
  simp only [reference?, Option.bind_eq_bind, Option.bind_eq_some_iff, Option.some.injEq]
  constructor
  · rintro ⟨_, named, _, first, _, second, _, third, same⟩
    cases same
    exact ⟨named, first, second, third⟩
  · rintro ⟨named, first, second, third⟩
    exact ⟨_, named, _, first, _, second, _, third, rfl⟩

theorem named_cons
    (first name : String)
    (reading : Reading)
    (parts : Parts) :
    named ((first, reading) :: parts) name =
      if first = name then reading :: parts.named name else parts.named name := by
  by_cases same : first = name <;> simp [named, same]

/-- Readings that are left out under one name are those of the other names. -/
theorem named_filter_ne
    (parts : Parts)
    (other name : String) :
    named (parts.filter fun part => part.1 != other) name =
      if name = other then [] else parts.named name := by
  rw [named, named, List.filter_filter]
  split
  · next same =>
      rw [List.map_eq_nil_iff, List.filter_eq_nil_iff]
      intro part _
      simp [same]
  · next different =>
      congr 1
      apply List.filter_congr
      intro part _
      by_cases found : part.1 = name
      · simp [found, different]
      · simp [found]

/-- The readings of a name are those of its values. -/
theorem named_memberReadings
    (members : List (String × Json.Value))
    (name : String) :
    named (Json.Value.memberReadings members) name =
      (Json.Value.valuesOf members name).map Json.Value.reading := by
  induction members with
  | nil => rfl
  | cons member others hypothesis =>
      obtain ⟨first, value⟩ := member
      rw [Json.Value.memberReadings, Json.Value.valuesOf_cons, named_cons, hypothesis]
      split <;> rfl

/-- The variable depends on nothing but what the names stand for. -/
theorem reference?_congr
    (same : ∀ name, parts.named name = others.named name) :
    parts.reference? = others.reference? := by
  simp only [reference?, text?, group?, chain?, required?, optional?, same]

end Parts

/-- Parts are read as an expression exactly if it has the shape and they denote it. -/
theorem ofParts?_eq_some_iff
    {shape : Shape}
    {parts : Parts}
    {expression : Expr} :
    ofParts? shape parts = some expression ↔
      expression.shape = shape ∧ parts.Denotes expression := by
  constructor
  · intro read
    cases shape <;>
      · simp only [ofParts?, Option.bind_eq_bind, Option.bind_eq_some_iff, Option.some.injEq]
          at read
        grind [Parts.Denotes, Expr.shape]
  · rintro ⟨rfl, denotes⟩
    cases expression <;>
      · simp only [Parts.Denotes, Option.bind_eq_some_iff] at denotes
        simp [ofParts?, Expr.shape, Option.bind_eq_some_iff, denotes]

/-- Parts are read by the readings of each name alone. -/
theorem ofParts?_congr
    {parts others : Parts}
    (same : ∀ name, parts.named name = others.named name)
    (shape : Shape) :
    ofParts? shape parts = ofParts? shape others := by
  cases shape <;>
    simp only [ofParts?, Parts.reference?_congr same, Parts.text?, Parts.symbol?,
      Parts.expression?, Parts.list?, Parts.chain?, Parts.required?, Parts.optional?, same]

end Expr
end ModelEquation
