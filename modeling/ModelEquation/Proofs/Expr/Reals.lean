import ModelEquation.Expr.Height
import ModelEquation.Expr.Json
import ModelEquation.Expr.Traversal
import ModelEquation.Proofs.Json.Depth

/-!
# Doubles in expressions

The doubles of an expression, and the expression with each of them changed. The
structured form of an expression is read back as far as its doubles are, and it
holds one or two arrays and objects for each level of the expression.
-/

namespace ModelEquation

/-- The number with a double changed. -/
def Number.mapReal (change : Binary64 → Binary64) : Number → Number
  | .integer value => .integer value
  | .real value => .real (change value)

mutual

/-- The expression with every double changed. -/
def Expr.mapReals (change : Binary64 → Binary64) : Expr → Expr
  | .number value => .number (value.mapReal change)
  | .string value => .string value
  | .variable reference => .variable (reference.mapReals change)
  | .unary operator operand => .unary operator (operand.mapReals change)
  | .binary operator left right =>
      .binary operator (left.mapReals change) (right.mapReals change)
  | .compare operator left right =>
      .compare operator (left.mapReals change) (right.mapReals change)
  | .logical operator left right =>
      .logical operator (left.mapReals change) (right.mapReals change)
  | .call callee arguments =>
      .call (callee.mapReals change) (Expr.mapRealsList change arguments)
  | .index target indices members =>
      .index (target.mapReals change) (Expr.mapRealsList change indices)
        (Variable.mapRealsList change members)
  | .conditional condition whenTrue whenFalse =>
      .conditional (condition.mapReals change) (whenTrue.mapReals change)
        (whenFalse.mapReals change)

/-- The variable with every double in its groups and members changed. -/
def Variable.mapReals (change : Binary64 → Binary64) : Variable → Variable
  | ⟨name, indices, arguments, members⟩ =>
      ⟨name, Expr.mapRealsGroup change indices, Expr.mapRealsGroup change arguments,
        Variable.mapRealsList change members⟩

/-- The optional group with every double changed. -/
def Expr.mapRealsGroup (change : Binary64 → Binary64) : Option (List Expr) → Option (List Expr)
  | none => none
  | some items => some (Expr.mapRealsList change items)

/-- The expressions of a list with every double changed. -/
def Expr.mapRealsList (change : Binary64 → Binary64) : List Expr → List Expr
  | [] => []
  | item :: rest => item.mapReals change :: Expr.mapRealsList change rest

/-- The members of a chain with every double changed. -/
def Variable.mapRealsList (change : Binary64 → Binary64) : List Variable → List Variable
  | [] => []
  | member :: rest => member.mapReals change :: Variable.mapRealsList change rest

end

namespace Expr

/-- The double that a node is, if it is one. -/
def real? : Expr → Option Binary64
  | .number (.real value) => some value
  | _ => none

/-- The doubles among some nodes. -/
def realsOf (nodes : List Expr) : List Binary64 :=
  nodes.filterMap real?

/-- The doubles of an expression from left to right. -/
def reals (expression : Expr) : List Binary64 :=
  realsOf expression.walk

@[simp] theorem realsOf_append (front back : List Expr) :
    realsOf (front ++ back) = realsOf front ++ realsOf back :=
  List.filterMap_append

/-- Every double among the nodes has the property. -/
def EveryReal (property : Binary64 → Prop) (nodes : List Expr) : Prop :=
  ∀ value ∈ realsOf nodes, property value

section

variable {property : Binary64 → Prop}

theorem everyReal_append (front back : List Expr) :
    EveryReal property (front ++ back) ↔ EveryReal property front ∧ EveryReal property back := by
  simp [EveryReal, or_imp, forall_and]

/-- A node that is no double counts by the nodes below it. -/
theorem everyReal_cons
    {node : Expr}
    (other : node.real? = none)
    (nodes : List Expr) :
    EveryReal property (node :: nodes) ↔ EveryReal property nodes := by
  simp [EveryReal, realsOf, other]

end

end Expr

/-- The change of the double is what its text is read as. -/
def Binary64.RereadsAs (change : Binary64 → Binary64) (value : Binary64) : Prop :=
  value.reread? = some (change value)

/-- Only a finite double has a number for its text. -/
theorem Binary64.isFinite_of_reread?
    {value other : Binary64}
    (reread : value.reread? = some other) :
    value.isFinite = true := by
  cases finite : value.isFinite with
  | true => rfl
  | false =>
      have ran := Binary64.run_number_of_reread? reread
      simp only [Json.doubleText, finite, Bool.false_eq_true, if_false] at ran
      contradiction

/-- What the text of a double is read as, or the double itself if it is refused. -/
def Binary64.reread (value : Binary64) : Binary64 :=
  value.reread?.getD value

/-- A double whose text is accepted is replaced by what the text is read as. -/
theorem Binary64.rereadsAs_of_isSome
    {value : Binary64}
    (accepted : value.reread?.isSome = true) :
    RereadsAs reread value := by
  obtain ⟨other, known⟩ := Option.isSome_iff_exists.mp accepted
  rw [RereadsAs, reread, known]
  rfl

section Kept

variable {change : Binary64 → Binary64}

namespace Expr

mutual

/-- A change that keeps every double of an expression keeps the expression. -/
theorem mapReals_eq_self :
    (expression : Expr) → EveryReal (fun value => change value = value) expression.walk →
      expression.mapReals change = expression
  | .number (.integer _), _ => rfl
  | .number (.real value), kept => by
      rw [mapReals, Number.mapReal, kept value (List.mem_cons_self ..)]
  | .string _, _ => rfl
  | .variable reference, kept => by
      rw [mapReals, mapReals_reference_eq_self reference ((everyReal_cons rfl _).mp kept)]
  | .unary _ operand, kept => by
      rw [mapReals, operand.mapReals_eq_self ((everyReal_cons rfl _).mp kept)]
  | .binary _ left right, kept
  | .compare _ left right, kept
  | .logical _ left right, kept => by
      rw [walk, everyReal_cons rfl, everyReal_append] at kept
      rw [mapReals, left.mapReals_eq_self kept.1, right.mapReals_eq_self kept.2]
  | .call callee arguments, kept => by
      rw [walk, everyReal_cons rfl, everyReal_append] at kept
      rw [mapReals, callee.mapReals_eq_self kept.1, mapRealsList_eq_self arguments kept.2]
  | .index target indices members, kept => by
      rw [walk, everyReal_cons rfl, everyReal_append, everyReal_append] at kept
      rw [mapReals, target.mapReals_eq_self kept.1.1, mapRealsList_eq_self indices kept.1.2,
        mapRealsMembers_eq_self members kept.2]
  | .conditional condition whenTrue whenFalse, kept => by
      rw [walk, everyReal_cons rfl, everyReal_append, everyReal_append] at kept
      rw [mapReals, condition.mapReals_eq_self kept.1.1, whenTrue.mapReals_eq_self kept.1.2,
        whenFalse.mapReals_eq_self kept.2]

/-- Nothing changes in a variable none of whose doubles changes. -/
theorem mapReals_reference_eq_self :
    (reference : Variable) →
      EveryReal (fun value => change value = value) reference.walkInside →
      reference.mapReals change = reference
  | ⟨_, indices, arguments, members⟩, kept => by
      rw [Variable.walkInside, everyReal_append, everyReal_append] at kept
      rw [Variable.mapReals, mapRealsGroup_eq_self indices kept.1.1,
        mapRealsGroup_eq_self arguments kept.1.2, mapRealsMembers_eq_self members kept.2]

theorem mapRealsGroup_eq_self :
    (group : Option (List Expr)) →
      EveryReal (fun value => change value = value) (walkGroup group) →
      mapRealsGroup change group = group
  | none, _ => rfl
  | some items, kept => by rw [mapRealsGroup, mapRealsList_eq_self items kept]

theorem mapRealsList_eq_self :
    (items : List Expr) → EveryReal (fun value => change value = value) (walkList items) →
      mapRealsList change items = items
  | [], _ => rfl
  | item :: rest, kept => by
      rw [walkList, everyReal_append] at kept
      rw [mapRealsList, item.mapReals_eq_self kept.1, mapRealsList_eq_self rest kept.2]

theorem mapRealsMembers_eq_self :
    (members : List Variable) →
      EveryReal (fun value => change value = value) (Variable.walkMembers members) →
      Variable.mapRealsList change members = members
  | [], _ => rfl
  | member :: rest, kept => by
      rw [Variable.walkMembers, everyReal_append] at kept
      rw [Variable.mapRealsList, mapReals_reference_eq_self member kept.1,
        mapRealsMembers_eq_self rest kept.2]

end

end Expr

end Kept

@[simp] theorem Expr.mapReals_id (expression : Expr) : expression.mapReals id = expression :=
  expression.mapReals_eq_self fun _ _ => rfl

/-! ## The structured form -/

namespace Json
namespace Value

/-- Members are read back one by one. -/
theorem membersReread_append
    {change : Binary64 → Binary64}
    {front back : List (String × Value)} :
    membersReread change (front ++ back) ↔
      membersReread change front ∧ membersReread change back := by
  induction front with
  | nil => simp [membersReread]
  | cons part others hypothesis =>
      simp only [List.cons_append, membersReread, hypothesis, and_assoc]

end Value
end Json

section Rereads

open ModelEquation.Expr (EveryReal everyReal_cons everyReal_append)

variable {change : Binary64 → Binary64}

/-- The text of a number is read back if its double is. -/
theorem Number.toJson_rereads
    (number : Number)
    (reread : EveryReal (Binary64.RereadsAs change) [.number number]) :
    number.toJson.Rereads change := by
  cases number with
  | integer value => exact Number.fitsInteger_toInt value
  | real value =>
      have known := reread value (List.mem_cons_self ..)
      rw [Number.toJson, if_pos (Binary64.isFinite_of_reread? known)]
      exact known

mutual

/-- The structured form of an expression is read back if its doubles are. -/
theorem Expr.toJson_rereads :
    (expression : Expr) → EveryReal (Binary64.RereadsAs change) expression.walk →
      expression.toJson.Rereads change
  | .number number, reread => ⟨trivial, Number.toJson_rereads number reread, trivial⟩
  | .string _, _ => ⟨trivial, trivial, trivial⟩
  | .variable reference, reread =>
      ⟨trivial, reference.jsonMembers_reread ((everyReal_cons rfl _).mp reread)⟩
  | .unary _ operand, reread =>
      ⟨trivial, trivial, operand.toJson_rereads ((everyReal_cons rfl _).mp reread), trivial⟩
  | .binary _ left right, reread
  | .compare _ left right, reread
  | .logical _ left right, reread => by
      rw [Expr.walk, everyReal_cons rfl, everyReal_append] at reread
      exact ⟨trivial, trivial, left.toJson_rereads reread.1, right.toJson_rereads reread.2, trivial⟩
  | .call callee arguments, reread => by
      rw [Expr.walk, everyReal_cons rfl, everyReal_append] at reread
      exact ⟨trivial, callee.toJson_rereads reread.1,
        Expr.jsonItems_reread arguments reread.2, trivial⟩
  | .index target indices members, reread => by
      rw [Expr.walk, everyReal_cons rfl, everyReal_append, everyReal_append] at reread
      obtain ⟨⟨first, second⟩, third⟩ := reread
      exact ⟨trivial, target.toJson_rereads first, Expr.jsonItems_reread indices second,
        Variable.jsonChain_reread members third⟩
  | .conditional condition whenTrue whenFalse, reread => by
      rw [Expr.walk, everyReal_cons rfl, everyReal_append, everyReal_append] at reread
      obtain ⟨⟨first, second⟩, third⟩ := reread
      exact ⟨trivial, condition.toJson_rereads first, whenTrue.toJson_rereads second,
        whenFalse.toJson_rereads third, trivial⟩

/-- The texts of the members of a variable are read back if its doubles are. -/
theorem Variable.jsonMembers_reread :
    (reference : Variable) → EveryReal (Binary64.RereadsAs change) reference.walkInside →
      Json.Value.membersReread change reference.jsonMembers
  | ⟨_, indices, arguments, members⟩, reread => by
      rw [Variable.walkInside, everyReal_append, everyReal_append] at reread
      obtain ⟨⟨first, second⟩, third⟩ := reread
      refine ⟨trivial, Json.Value.membersReread_append.mpr
        ⟨Json.Value.membersReread_append.mpr ⟨?_, ?_⟩, ?_⟩⟩
      · exact Expr.jsonGroup_reread "indices" indices first
      · exact Expr.jsonGroup_reread "args" arguments second
      · exact Variable.jsonChain_reread members third

theorem Expr.jsonGroup_reread (field : String) :
    (group : Option (List Expr)) → EveryReal (Binary64.RereadsAs change) (Expr.walkGroup group) →
      Json.Value.membersReread change (Expr.jsonGroup field group)
  | none, _ => trivial
  | some items, reread => ⟨Expr.jsonItems_reread items reread, trivial⟩

theorem Expr.jsonItems_reread :
    (items : List Expr) → EveryReal (Binary64.RereadsAs change) (Expr.walkList items) →
      Json.Value.itemsReread change (Expr.jsonItems items)
  | [], _ => trivial
  | item :: rest, reread => by
      rw [Expr.walkList, everyReal_append] at reread
      exact ⟨item.toJson_rereads reread.1, Expr.jsonItems_reread rest reread.2⟩

theorem Variable.jsonChain_reread :
    (members : List Variable) →
      EveryReal (Binary64.RereadsAs change) (Variable.walkMembers members) →
      Json.Value.membersReread change (Variable.jsonChain members)
  | [], _ => trivial
  | member :: rest, reread => by
      rw [Variable.walkMembers, everyReal_append] at reread
      exact ⟨⟨⟨trivial, member.jsonMembers_reread reread.1⟩,
        Variable.jsonTagged_reread rest reread.2⟩, trivial⟩

theorem Variable.jsonTagged_reread :
    (members : List Variable) →
      EveryReal (Binary64.RereadsAs change) (Variable.walkMembers members) →
      Json.Value.itemsReread change (Variable.jsonTagged members)
  | [], _ => trivial
  | member :: rest, reread => by
      rw [Variable.walkMembers, everyReal_append] at reread
      exact ⟨⟨trivial, member.jsonMembers_reread reread.1⟩,
        Variable.jsonTagged_reread rest reread.2⟩

end

end Rereads

/-! ## Arrays and objects for each level -/

section Containers

open Json.Value (containers itemContainers memberContainers memberContainers_append)

/-- A number nests nothing. -/
theorem Number.containers_toJson (number : Number) : number.toJson.containers = 0 := by
  cases number with
  | integer value => rfl
  | real value =>
      rw [toJson]
      split <;> rfl

mutual

/-- Each level of an expression is an object, with an array around what is listed
in it. -/
theorem Expr.containers_toJson_bounds :
    (expression : Expr) → expression.height ≤ expression.toJson.containers ∧
      expression.toJson.containers ≤ 2 * expression.height
  | .number number => by
      simp [Expr.toJson, Expr.tagged, containers, memberContainers, Number.containers_toJson,
        Expr.height]
  | .string _ => by simp [Expr.toJson, Expr.tagged, containers, memberContainers, Expr.height]
  | .variable reference => by
      have inside := reference.memberContainers_jsonMembers_bounds
      simp only [Expr.toJson, Expr.tagged, containers, memberContainers, Expr.height]
      omega
  | .unary _ operand => by
      have inside := operand.containers_toJson_bounds
      simp only [Expr.toJson, Expr.tagged, containers, memberContainers, Expr.height]
      omega
  | .binary _ left right
  | .compare _ left right
  | .logical _ left right => by
      have first := left.containers_toJson_bounds
      have second := right.containers_toJson_bounds
      simp only [Expr.toJson, Expr.tagged, containers, memberContainers, Expr.height]
      omega
  | .call callee arguments => by
      have first := callee.containers_toJson_bounds
      have second := Expr.itemContainers_jsonItems_bounds arguments
      simp only [Expr.toJson, Expr.tagged, containers, memberContainers, Expr.height]
      omega
  | .index target indices members => by
      have first := target.containers_toJson_bounds
      have second := Expr.itemContainers_jsonItems_bounds indices
      have third := Variable.memberContainers_jsonChain_bounds members
      simp only [Expr.toJson, Expr.tagged, containers, memberContainers, List.cons_append,
        List.nil_append, Expr.height]
      omega
  | .conditional condition whenTrue whenFalse => by
      have first := condition.containers_toJson_bounds
      have second := whenTrue.containers_toJson_bounds
      have third := whenFalse.containers_toJson_bounds
      simp only [Expr.toJson, Expr.tagged, containers, memberContainers, Expr.height]
      omega

/-- The members of a variable nest less than twice as deep as it is high, and no less than its
inside is. -/
theorem Variable.memberContainers_jsonMembers_bounds :
    (reference : Variable) → reference.height ≤ memberContainers reference.jsonMembers + 1 ∧
      memberContainers reference.jsonMembers < 2 * reference.height
  | ⟨_, indices, arguments, members⟩ => by
      have first := Expr.memberContainers_jsonGroup_bounds "indices" indices
      have second := Expr.memberContainers_jsonGroup_bounds "args" arguments
      have third := Variable.memberContainers_jsonChain_bounds members
      simp only [Variable.jsonMembers, memberContainers, memberContainers_append, containers,
        Variable.height]
      omega

/-- A group nests its array and what its items nest. -/
theorem Expr.memberContainers_jsonGroup_bounds (field : String) :
    (group : Option (List Expr)) →
      Expr.groupHeight group ≤ memberContainers (Expr.jsonGroup field group) ∧
        memberContainers (Expr.jsonGroup field group) ≤ 2 * Expr.groupHeight group + 1
  | none => ⟨Nat.zero_le _, Nat.zero_le _⟩
  | some items => by
      have inside := Expr.itemContainers_jsonItems_bounds items
      simp only [Expr.jsonGroup, memberContainers, containers, Expr.groupHeight]
      omega

/-- Items nest at most two levels for each level of height. -/
theorem Expr.itemContainers_jsonItems_bounds :
    (items : List Expr) → Expr.tallest items ≤ itemContainers (Expr.jsonItems items) ∧
      itemContainers (Expr.jsonItems items) ≤ 2 * Expr.tallest items
  | [] => ⟨Nat.zero_le _, Nat.zero_le _⟩
  | item :: rest => by
      have first := item.containers_toJson_bounds
      have later := Expr.itemContainers_jsonItems_bounds rest
      simp only [Expr.jsonItems, itemContainers, Expr.tallest]
      omega

theorem Variable.memberContainers_jsonChain_bounds :
    (members : List Variable) →
      Variable.tallest members ≤ memberContainers (Variable.jsonChain members) ∧
        memberContainers (Variable.jsonChain members) ≤ 2 * Variable.tallest members + 1
  | [] => ⟨Nat.zero_le _, Nat.zero_le _⟩
  | member :: rest => by
      have first := member.memberContainers_jsonMembers_bounds
      have later := Variable.itemContainers_jsonTagged_bounds rest
      simp only [Variable.jsonChain, memberContainers, containers, itemContainers, Expr.tagged,
        Variable.tallest]
      omega

theorem Variable.itemContainers_jsonTagged_bounds :
    (members : List Variable) →
      Variable.tallest members ≤ itemContainers (Variable.jsonTagged members) ∧
        itemContainers (Variable.jsonTagged members) ≤ 2 * Variable.tallest members
  | [] => ⟨Nat.zero_le _, Nat.zero_le _⟩
  | member :: rest => by
      have first := member.memberContainers_jsonMembers_bounds
      have later := Variable.itemContainers_jsonTagged_bounds rest
      simp only [Variable.jsonTagged, itemContainers, containers, memberContainers, Expr.tagged,
        Variable.tallest]
      omega

end

end Containers

end ModelEquation
