import ModelEquation.Equation.JsonReader
import ModelEquation.Proofs.Expr.Interpretation

/-!
# Reading structured text back

The compact text of an expression within the limit is not refused for its nesting
while a word holds the limit on nesting, and it is read as the expression with each
double replaced by what its own text is read as. The same holds for equations. The
limit on nesting is exact: an index group that is empty at the bottom of a chain of
index groups in an equation reaches it. Where it wraps around, text that nests beyond
what is left of it is refused, and nested calls as high as the options allow have such
text.
-/

namespace ModelEquation

open Json (Follows Value)
open Json.TextReader
open Json.Value (mapDoubles mapMembers)

variable {change : Binary64 → Binary64}

namespace Json
namespace TextReader

/-- A quoted text of a given form is read as what it is the form of. -/
theorem run_scalarAs_string
    {α : Type}
    {form : Value → Option α}
    {text : String}
    {result : α}
    (formed : form (.string text) = some result)
    {rest : List Char}
    (follows : Follows rest) :
    (scalarAs form).run (quote text.toList ++ rest) = .ok (result, rest) := by
  have plain : seesContainer.run (quote text.toList ++ rest) =
      .ok (false, quote text.toList ++ rest) := by
    simp [run_seesContainer, quote]
  rw [scalarAs, Reader.run_bind, plain]
  simp [run_scalar_string follows text, formed, fitting]

/-- A text that fills a whole document. -/
theorem document_of_accepts
    {α : Type}
    {reader : TextReader α}
    {text : List Char}
    {result : α}
    (starts : Value.Starts text)
    (accepts : Accepts reader text result) :
    document reader text = .ok result := by
  have read := accepts [] Json.follows_nil
  have blank := run_blanks (starts.append [])
  rw [List.append_nil] at read blank
  simp [document, blank, read, Except.map]

end TextReader
end Json

namespace Expr

/-- The parts of the topmost node are read as plain values, its type apart. -/
theorem steps_pendingMember
    {inner : Json.TextReader Value}
    {depth : Nat}
    (shape : Shape)
    (parts : List (String × Value))
    (untyped : "type" ∉ parts.map Prod.fst)
    (rereads : Value.membersReread change parts)
    (accepts : ∀ part ∈ parts, part.2.Rereads change →
      Accepts inner (part.2.write .compact depth) (part.2.mapDoubles change))
    (reversed : List (String × Value)) :
    Steps (namedMember .strict (pendingMember inner)) ⟨some shape, reversed⟩
      (Value.writeMembers .compact depth parts)
      ⟨some shape, (mapMembers change parts).reverse ++ reversed⟩ := by
  induction parts generalizing reversed with
  | nil => exact .done
  | cons part others hypothesis =>
      obtain ⟨name, value⟩ := part
      obtain ⟨first, later⟩ := rereads
      simp only [List.map_cons, List.mem_cons, not_or] at untyped
      have steps := hypothesis untyped.2 later
        (fun other present => accepts other (List.mem_cons_of_mem _ present))
        ((name, value.mapDoubles change) :: reversed)
      have other : name ≠ "type" := fun same => untyped.1 same.symm
      rw [Value.mapMembers, List.reverse_cons, List.append_assoc]
      refine step_member (fun rest follows => ?_) steps
      have read := accepts (name, value) (List.mem_cons_self ..) first rest follows
      rw [pendingMember, if_neg other, run_colon_bind (Value.starts_of_rereads first depth),
        Reader.run_bind, read]
      rfl

/-- The text of an expression starts with a brace. -/
theorem starts_toJson
    (expression : Expr)
    (depth : Nat) :
    Value.Starts (expression.toJson.write .compact depth) ∧
      ∀ rest, (expression.toJson.write .compact depth ++ rest).head? = some '{' := by
  rw [toJson_eq_tagged, tagged, Value.write]
  exact ⟨⟨_, _, Value.enclose_cons .., by decide⟩, fun rest => rfl⟩

/-- The type of the topmost node is read first. -/
theorem steps_type
    {inner : Json.TextReader Value}
    {depth : Nat}
    {shape : Shape}
    {parts : List (String × Value)}
    {final : Pending}
    (later : Steps (namedMember .strict (pendingMember inner)) ⟨some shape, []⟩
      (Value.writeMembers .compact depth parts) final) :
    Steps (namedMember .strict (pendingMember inner)) ⟨none, []⟩
      (Value.writeMembers .compact depth (("type", .string shape.name) :: parts)) final := by
  refine step_member (fun rest follows => ?_) later
  have tag : Shape.ofTag? (.string shape.name) = some shape := Shape.ofName?_name shape
  have starts : Value.Starts ((Value.string shape.name).write .compact depth) :=
    ⟨_, _, rfl, by decide⟩
  rw [pendingMember, if_pos rfl]
  simp only [Option.isSome_none, Bool.false_eq_true, if_false]
  rw [run_colon_bind starts, Value.write, Reader.run_bind, run_scalarAs_string tag follows]
  rfl

/-- An expression is read from its text, when enough arrays and objects may be
opened. -/
theorem accepts_jsonReader
    {expression : Expr}
    {budget : Nat}
    (reread : EveryReal (Binary64.RereadsAs change) expression.walk)
    (opens : expression.toJson.containers ≤ budget)
    (depth : Nat) :
    Accepts (jsonReader budget) (expression.toJson.write .compact depth)
      (expression.mapReals change) := by
  have rereads := expression.toJson_rereads reread
  have denoted := expression.ofParts?_jsonParts reread
  have starts := (starts_toJson expression depth).2
  rw [toJson_eq_tagged, tagged] at opens starts rereads ⊢
  obtain ⟨below, rfl⟩ := Nat.exists_eq_add_one.mpr (Nat.lt_of_lt_of_le (Nat.succ_pos _) opens)
  have enough : Value.memberContainers expression.jsonParts ≤ below :=
    Nat.le_trans (Nat.le_max_right _ _) (Nat.le_of_succ_le_succ opens)
  have parts := steps_pendingMember expression.shape expression.jsonParts
    (type_notMem_jsonParts expression) rereads.2
    (fun part present known => accepts_value known
      (Nat.le_trans (Value.containers_le_of_mem_members present) enough) (depth + 1)) []
  intro rest follows
  have read := run_members (steps_type parts) depth rest follows
  rw [List.append_nil] at read
  have finished : Pending.finished?
      ⟨some expression.shape, (mapMembers change expression.jsonParts).reverse⟩ =
        some (expression.mapReals change) := by
    rw [Pending.finished?, List.reverse_reverse]
    exact denoted
  rw [jsonReader, Reader.run_bind, run_sees, decide_eq_true (starts rest)]
  rw [Value.write]
  simp only [if_true, within, readObject, Reader.run_bind, read, finished, fitting,
    Reader.run_pure]

end Expr

namespace Equation

/-- An equation nests one level deeper than its expression. -/
theorem containers_toJson (equation : Equation) :
    equation.toJson.containers = equation.expression.toJson.containers + 1 := by
  simp [toJson, Value.containers, Value.memberContainers]

/-- The text of an equation is read back if the doubles of its expression are. -/
theorem toJson_rereads
    {equation : Equation}
    (reread : Expr.EveryReal (Binary64.RereadsAs change) equation.expression.walk) :
    equation.toJson.Rereads change :=
  ⟨trivial, equation.expression.toJson_rereads reread, trivial⟩

/-- An equation is read from its text, when enough arrays and objects may be
opened. -/
theorem accepts_jsonReader
    {equation : Equation}
    {budget : Nat}
    (reread : Expr.EveryReal (Binary64.RereadsAs change) equation.expression.walk)
    (opens : equation.toJson.containers ≤ budget)
    (depth : Nat) :
    Accepts (jsonReader budget) (equation.toJson.write .compact depth)
      ⟨equation.output, equation.expression.mapReals change⟩ := by
  obtain ⟨output, expression⟩ := equation
  rw [containers_toJson] at opens
  obtain ⟨below, rfl⟩ := Nat.exists_eq_add_one.mpr (Nat.lt_of_lt_of_le (Nat.succ_pos _) opens)
  have enough := Nat.le_of_succ_le_succ opens
  have second : Steps (namedMember .strict (pendingMember below)) ⟨some output, none⟩
      (Value.writeMembers .compact (depth + 1) [("expression", expression.toJson)])
      ⟨some output, some (expression.mapReals change)⟩ := by
    refine step_member (fun rest follows => ?_) .done
    have read := Expr.accepts_jsonReader reread enough (depth + 1) rest follows
    rw [pendingMember, if_neg (by decide), if_pos rfl]
    simp only [Option.isSome_none, Bool.false_eq_true, if_false]
    rw [run_colon_bind (Expr.starts_toJson expression (depth + 1)).1, Reader.run_bind, read]
    rfl
  have first : Steps (namedMember .strict (pendingMember below)) ⟨none, none⟩
      (Value.writeMembers .compact (depth + 1)
        [("output", .string output), ("expression", expression.toJson)])
      ⟨some output, some (expression.mapReals change)⟩ := by
    refine step_member (fun rest follows => ?_) second
    have starts : Value.Starts ((Value.string output).write .compact (depth + 1)) :=
      ⟨_, _, rfl, by decide⟩
    have formed : textOf? (.string output) = some output := rfl
    rw [pendingMember, if_pos rfl]
    simp only [Option.isSome_none, Bool.false_eq_true, if_false]
    rw [run_colon_bind starts, Value.write, Reader.run_bind, run_scalarAs_string formed follows]
    rfl
  intro rest follows
  have read := run_members first depth rest follows
  have starts : ((Equation.toJson ⟨output, expression⟩).write .compact depth ++ rest).head? =
      some '{' := rfl
  rw [jsonReader, Reader.run_bind, run_sees, decide_eq_true starts]
  rw [toJson, Value.write]
  simp [within, readObject, read, Pending.finished?, fitting]

end Equation

/-! ## Whole texts -/

/-- A value whose text is accepted is read from it, unless the text nests beyond the
limit. -/
theorem Json.read_of_accepts
    {α : Type}
    {reader : Nat → Json.TextReader α}
    {value : Value}
    {result : α}
    (rereads : value.Rereads change)
    (accepts : ∀ budget, value.containers ≤ budget →
      Accepts (reader budget) (value.write .compact 0) result)
    (options : Options) :
    Json.read reader options value.compact.toList =
      if Json.nestingLimit options < Json.nesting value.compact.toList then
        .error (.tooNested (Json.nestingLimit options))
      else
        .ok result := by
  have whole := document_of_accepts (Value.starts_of_rereads rereads 0)
    (accepts _ (Value.containers_le_length_write 0 value))
  rw [Value.compact, String.toList_ofList, Json.read, whole]
  rfl

namespace Expr

/-- An expression is read from its own text with each double replaced, unless the text nests
beyond the limit. -/
theorem ofJsonText_compact
    {expression : Expr}
    (reread : EveryReal (Binary64.RereadsAs change) expression.walk)
    (options : Options) :
    ofJsonText options expression.toJson.compact.toList =
      if Json.nestingLimit options < Json.nesting expression.toJson.compact.toList then
        .error (.tooNested (Json.nestingLimit options))
      else
        .ok (expression.mapReals change) :=
  Json.read_of_accepts (expression.toJson_rereads reread)
    (fun _ enough => accepts_jsonReader reread enough 0) options

/-- The text of an expression within the limit does not nest too deeply while a word holds the
limit on nesting. -/
theorem nesting_compact_lt
    {options : Options}
    {expression : Expr}
    (fits : expression.height ≤ options.maxDepth)
    (word : 2 * options.maxDepth + 1 < UInt64.size) :
    Json.nesting expression.toJson.compact.toList < Json.nestingLimit options := by
  have containers := expression.containers_toJson_bounds.2
  rw [Value.nesting_compact, Json.nestingLimit_of_lt_size word]
  omega

end Expr

namespace Equation

/-- An equation is read from its own text in the same way. -/
theorem ofJsonText_compact
    (equation : Equation)
    (reread : Expr.EveryReal (Binary64.RereadsAs change) equation.expression.walk)
    (options : Options) :
    ofJsonText options equation.toJson.compact.toList =
      if Json.nestingLimit options < Json.nesting equation.toJson.compact.toList then
        .error (.tooNested (Json.nestingLimit options))
      else
        .ok ⟨equation.output, equation.expression.mapReals change⟩ :=
  Json.read_of_accepts (toJson_rereads reread)
    (fun _ enough => accepts_jsonReader reread enough 0) options

/-- The object around an expression takes no more than the level that is left for it. -/
theorem nesting_compact_le
    {options : Options}
    (equation : Equation)
    (fits : equation.expression.height ≤ options.maxDepth)
    (word : 2 * options.maxDepth + 1 < UInt64.size) :
    Json.nesting equation.toJson.compact.toList ≤ Json.nestingLimit options := by
  have inside := Expr.nesting_compact_lt fits word
  rw [Value.nesting_compact] at inside ⊢
  rw [containers_toJson]
  omega

end Equation

/-- The compact texts of an expression within the limit, and of an equation that assigns it, do
not nest too deeply as long as a word holds the limit on nesting. Whatever the limit, they are
refused exactly where they nest beyond it. Otherwise they are read as the expression and the
equation with each double replaced by what its own text is read as, which changes nothing if
every double is read as itself, or if there is none. -/
theorem ofJsonText_compact_toJson
    (options : Options)
    (expression : Expr)
    (fits : expression.height ≤ options.maxDepth)
    (accepted : ∀ value ∈ expression.reals, value.reread?.isSome = true) :
    let back := expression.mapReals Binary64.reread
    let text := expression.toJson.compact.toList
    let equationText (output : String) := (Equation.toJson ⟨output, expression⟩).compact.toList
    (2 * options.maxDepth + 1 < UInt64.size →
      (Json.nesting text ≤ Json.nestingLimit options ∧
        Expr.ofJsonText options text = .ok back) ∧
      ∀ output,
        Json.nesting (equationText output) ≤ Json.nestingLimit options ∧
          Equation.ofJsonText options (equationText output) = .ok ⟨output, back⟩) ∧
    (Expr.ofJsonText options text =
      if Json.nestingLimit options < Json.nesting text then
        .error (.tooNested (Json.nestingLimit options))
      else
        .ok back) ∧
    (∀ output, Equation.ofJsonText options (equationText output) =
      if Json.nestingLimit options < Json.nesting (equationText output) then
        .error (.tooNested (Json.nestingLimit options))
      else
        .ok ⟨output, back⟩) ∧
    ((∀ value ∈ expression.reals, value.reread = value) → back = expression) ∧
    (expression.reals = [] → back = expression) := by
  intro back text equationText
  have reread : Expr.EveryReal (Binary64.RereadsAs Binary64.reread) expression.walk := by
    intro value present
    exact Binary64.rereadsAs_of_isSome (accepted value present)
  have outcome := Expr.ofJsonText_compact reread options
  have equationOutcome (output : String) :=
    Equation.ofJsonText_compact ⟨output, expression⟩ reread options
  refine ⟨fun word => ⟨?_, fun output => ?_⟩, outcome, equationOutcome,
    expression.mapReals_eq_self, fun none => ?_⟩
  · have nests := (Expr.nesting_compact_lt fits word).le
    exact ⟨nests, by rw [outcome, if_neg (Nat.not_lt.mpr nests)]⟩
  · have nests := Equation.nesting_compact_le ⟨output, expression⟩ fits word
    exact ⟨nests, by rw [equationOutcome, if_neg (Nat.not_lt.mpr nests)]⟩
  · apply expression.mapReals_eq_self
    intro value present
    rw [Expr.reals] at none
    rw [none] at present
    cases present

/-- An expression of two levels with an empty index group at its bottom, in an
equation whose text nests as deep as the limit of two levels allows. Its double
`2 ^ 1000` is read as the one below it. -/
theorem ofJsonText_compact_toJson_at_limit :
    let power : Binary64 := .finite false (Nat.pow 2 52) 948 (by decide)
    let below : Binary64 := .finite false (Nat.pow 2 53 - 1) 947 (by decide)
    let indexed (value : Binary64) : Expr :=
      .variable ⟨"x", some [.variable ⟨"a", some [], none, []⟩, .number (.real value)], none, []⟩
    let text := (Equation.toJson ⟨"y", indexed power⟩).compact.toList
    (indexed power).height ≤ 2 ∧
      (∀ value ∈ (indexed power).reals, value.reread?.isSome = true) ∧
      Json.nesting text = 5 ∧
      Equation.ofJsonText { maxDepth := 2 } text = .ok ⟨"y", indexed below⟩ := by
  intro power below indexed text
  have fits : (indexed power).height ≤ 2 := by decide
  have known : power.reread? = some below := by decide +kernel
  have accepted : ∀ value ∈ (indexed power).reals, value.reread?.isSome = true := by
    intro value present
    have same : value = power := List.mem_singleton.mp present
    rw [same, known]
    rfl
  have back : (indexed power).mapReals Binary64.reread = indexed below := by
    have changed : power.reread = below := by
      rw [Binary64.reread, known]
      rfl
    change indexed power.reread = indexed below
    rw [changed]
  have rereads := ofJsonText_compact_toJson { maxDepth := 2 } (indexed power) fits accepted
  refine ⟨fits, accepted, by decide +kernel, ?_⟩
  rw [← back]
  exact ((rereads.1 (by decide)).2 "y").2

/-! ## Limits that a word does not hold -/

namespace Expr

/-- A name that is called with a call of itself, as often as counted. -/
def nestedCalls : Nat → Expr
  | 0 => named "f"
  | count + 1 => .call (named "f") [nestedCalls count]

/-- Each call is one level. -/
theorem height_nestedCalls (count : Nat) : (nestedCalls count).height = count + 1 := by
  induction count with
  | zero => rfl
  | succ count hypothesis =>
      rw [nestedCalls, height, tallest, tallest, hypothesis, height_named]
      omega

/-- Each call takes an object and the array of its arguments. -/
theorem containers_nestedCalls (count : Nat) :
    (nestedCalls count).toJson.containers = 2 * count + 1 := by
  induction count with
  | zero => rfl
  | succ count hypothesis =>
      have name : (named "f").toJson.containers = 1 := rfl
      rw [nestedCalls, toJson, tagged]
      simp only [Value.containers, Value.memberContainers, jsonItems, Value.itemContainers,
        hypothesis, name]
      omega

/-- Nested calls hold no double. -/
theorem reals_nestedCalls (count : Nat) : (nestedCalls count).reals = [] := by
  induction count with
  | zero => rfl
  | succ count hypothesis =>
      rw [reals, nestedCalls, walk, walkList, walkList, List.append_nil]
      exact hypothesis

/-- Among the limits that a word holds, those on whose nesting it wraps around are exactly those
under which some expression within the limit is not read back. -/
theorem ofJsonText_compact_iff_lt_size
    {options : Options}
    (held : options.maxDepth < UInt64.size) :
    (∀ expression : Expr, expression.height ≤ options.maxDepth → expression.reals = [] →
      ofJsonText options expression.toJson.compact.toList = .ok expression) ↔
    2 * options.maxDepth + 1 < UInt64.size := by
  have plain {expression : Expr} (none : expression.reals = []) :
      EveryReal (Binary64.RereadsAs id) expression.walk := by
    intro value present
    rw [reals] at none
    rw [none] at present
    cases present
  constructor
  · intro reads
    by_contra wraps
    obtain ⟨count, known⟩ : ∃ count, options.maxDepth = count + 1 :=
      Nat.exists_eq_succ_of_ne_zero fun none => wraps (by rw [none]; decide)
    have refused := ofJsonText_compact (plain (reals_nestedCalls count)) options
    rw [Value.nesting_compact, containers_nestedCalls, if_pos] at refused
    · have read := reads _ (by rw [height_nestedCalls, known]) (reals_nestedCalls count)
      rw [refused] at read
      contradiction
    · have size : UInt64.size = 18446744073709551616 := rfl
      rw [size] at held wraps
      rw [Json.nestingLimit_eq_mod, size]
      omega
  · intro word expression fits none
    rw [ofJsonText_compact (plain none), mapReals_id,
      if_neg (Nat.not_lt.mpr (nesting_compact_lt fits word).le)]

end Expr

/-- A word does not hold the limit on nesting of `2 ^ 63` levels. It wraps around to one level,
and the text of a negation, which takes two, is refused. -/
theorem ofJsonText_compact_toJson_wraps :
    let options : Options := { maxDepth := Nat.pow 2 63 }
    let negation : Expr := .unary .minus (.variable ⟨"a", none, none, []⟩)
    negation.height ≤ options.maxDepth ∧
      negation.reals = [] ∧
      Expr.ofJsonText options negation.toJson.compact.toList = .error (.tooNested 1) := by
  intro options negation
  have limit : Json.nestingLimit options = 1 := by decide
  have nests : Json.nesting negation.toJson.compact.toList = 2 := by decide +kernel
  refine ⟨by decide, rfl, ?_⟩
  rw [Expr.ofJsonText, Json.read, limit, if_pos (by rw [nests]; decide)]

end ModelEquation
