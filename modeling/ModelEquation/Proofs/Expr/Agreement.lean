import ModelEquation.Proofs.Expr.Canonical
import ModelEquation.Proofs.Expr.Reread
import ModelEquation.Proofs.Expr.Streaming
import ModelEquation.Proofs.Json.Budget

/-!
# The two ways to read an expression

An expression can be read from a text directly, or from the plain value that the text denotes,
with the last member of each repeated name. Where the first way gives an expression, the second
one gives the same, provided that the text does not nest beyond what a plain value may. The
texts of expressions can nest deeper than that.
-/

namespace ModelEquation
namespace Expr

/-- A text that is read directly denotes a plain value when enough may be opened, and the
canonical form of the value denotes the same expression. -/
theorem parseWithin_of_ofJsonText
    {options : Options}
    {text : List Char}
    {expression : Expr}
    (read : ofJsonText options text = .ok expression) :
    ∃ value, Json.parseWithin text.length text = .ok value ∧
      ofJson? value.canonical = some expression := by
  have ran := Json.TextReader.document_eq_ok_iff.mp (Json.read_eq_ok_iff.mp read).2
  obtain ⟨value, mirrored, denoted⟩ := mirrors_jsonReader text.length ran
  exact ⟨value, Json.TextReader.document_eq_ok_iff.mpr mirrored, ofJson?_canonical_of_some denoted⟩

/-- A text that is read as an expression denotes a plain value that is read as the same
expression. The value is returned within exactly those limits that the text does not nest
beyond, and otherwise the text is refused as malformed. -/
theorem parse_of_ofJsonText
    {options : Options}
    {text : List Char}
    {expression : Expr}
    (read : ofJsonText options text = .ok expression) :
    ∃ value,
      ofJson? value.canonical = some expression ∧
      Json.parse text =
        (if Json.nesting text ≤ Json.containerLimit then .ok value else .error .malformed) ∧
      ∀ containers, Json.parseWithin containers text =
        if Json.nesting text ≤ containers then .ok value else .error .malformed := by
  obtain ⟨value, parsed, denoted⟩ := parseWithin_of_ofJsonText read
  exact ⟨value, denoted, Json.parseWithin_of_ok parsed _, Json.parseWithin_of_ok parsed⟩

/-- Whether what is read is the bare variable of a name. -/
def isNamed (name : String) : Except Json.Fault Expr → Bool
  | .ok (.variable reference) => reference.isBare && reference.name == name
  | _ => false

theorem eq_of_isNamed
    {name : String}
    {outcome : Except Json.Fault Expr}
    (known : isNamed name outcome = true) :
    outcome = .ok (named name) := by
  unfold isNamed at known
  split at known
  · next reference =>
      obtain ⟨bare, same⟩ := Bool.and_eq_true_iff.mp known
      rw [(Variable.isBare_iff reference).mp bare, beq_iff_eq.mp same]
      rfl
  · contradiction

/-- A node of repeated unknown members, one of which nests, whose name is written with an
escape. -/
theorem parse_of_ofJsonText_at_repeated :
    let text := "\x7b\"x\":[[]],\"name\":\"\\u0061\",\"type\":\"variable\",\"x\":1\x7d".toList
    let expression : Expr := .variable ⟨"a", none, none, []⟩
    ofJsonText {} text = .ok expression ∧
      ∃ value,
        ofJson? value.canonical = some expression ∧
        Json.parse text =
          (if Json.nesting text ≤ Json.containerLimit then .ok value else .error .malformed) ∧
        ∀ containers, Json.parseWithin containers text =
          if Json.nesting text ≤ containers then .ok value else .error .malformed := by
  intro text expression
  have seen : isNamed "a" (ofJsonText {} text) = true := by decide +kernel
  have read : ofJsonText {} text = .ok expression := eq_of_isNamed seen
  exact ⟨read, parse_of_ofJsonText read⟩

/-- As many negations of a variable. -/
def negations : Nat → Expr
  | 0 => .variable ⟨"a", none, none, []⟩
  | count + 1 => .unary .minus (negations count)

/-- Each negation is one more object around the variable. -/
theorem containers_negations (count : Nat) : (negations count).toJson.containers = count + 1 := by
  induction count with
  | zero => rfl
  | succ count hypothesis =>
      rw [negations, toJson, tagged]
      simp only [Json.Value.containers, Json.Value.memberContainers, hypothesis]
      omega

theorem realsOf_walk_negations (count : Nat) : realsOf (negations count).walk = [] := by
  induction count with
  | zero => rfl
  | succ count hypothesis =>
      rw [negations, walk]
      exact hypothesis

/-- The text of an expression within the default limit is read directly, and it nests too
deeply for a plain value. -/
theorem parse_negations_malformed :
    let expression := negations 127
    let text := expression.toJson.compact.toList
    expression.height ≤ Options.maxDepth {} ∧
      ofJsonText {} text = .ok expression ∧
      Json.parse text = .error .malformed := by
  intro expression text
  have containers : expression.toJson.containers = 128 := containers_negations 127
  have plain : EveryReal (Binary64.RereadsAs id) expression.walk := by
    rw [EveryReal, realsOf_walk_negations]
    exact List.forall_mem_nil _
  have deep : Json.nesting text = 128 := by
    rw [expression.toJson.nesting_compact, containers]
  have outcome := Json.read_of_accepts (expression.toJson_rereads plain)
    (fun _ enough => accepts_jsonReader plain enough 0) {}
  rw [if_neg (by rw [deep]; decide), expression.mapReals_id] at outcome
  obtain ⟨value, parsed, _⟩ := parseWithin_of_ofJsonText outcome
  refine ⟨?_, outcome, ?_⟩
  · have bound := expression.containers_toJson_bounds.1
    rwa [containers] at bound
  · rw [Json.parse, Json.parseWithin_of_ok parsed, deep]
    rfl

end Expr
end ModelEquation
