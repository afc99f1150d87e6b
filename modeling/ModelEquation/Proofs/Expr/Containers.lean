import ModelEquation.Proofs.Expr.Denotation
import ModelEquation.Proofs.Expr.Reals

/-!
# Containers of what is read

A value may say more than the expression that is read from it: it may have members that are
passed over, and chains that are empty and will not be written. It never says less. An
expression is written with no more arrays and objects in one another than the value holds that
it was read from.
-/

namespace ModelEquation
namespace Expr

open Json.Value (containers itemContainers itemReadings memberContainers memberContainers_append
  memberReadings)

theorem jsonItems_eq_map (items : List Expr) : jsonItems items = items.map toJson := by
  induction items with
  | nil => rfl
  | cons item rest hypothesis => rw [jsonItems, hypothesis, List.map_cons]

theorem jsonTagged_eq_map (members : List Variable) :
    Variable.jsonTagged members =
      members.map fun member => tagged .variable member.jsonMembers := by
  induction members with
  | nil => rfl
  | cons member rest hypothesis => rw [Variable.jsonTagged, hypothesis, List.map_cons]

/-- Whatever the reading says in any place is written within the bound. -/
structure Reading.Within (bound : Nat) (reading : Reading) : Prop where
  expression : ∀ result, reading.expression = some result → result.toJson.containers ≤ bound
  list : ∀ result, reading.list = some result → itemContainers (jsonItems result) < bound
  member : ∀ result, reading.member = some result →
    memberContainers result.jsonMembers < bound
  chain : ∀ result, reading.chain = some result →
    itemContainers (Variable.jsonTagged result) < bound

theorem Reading.Within.mono
    {reading : Reading}
    {bound larger : Nat}
    (within : reading.Within bound)
    (le : bound ≤ larger) :
    reading.Within larger where
  expression result read := Nat.le_trans (within.expression result read) le
  list result read := Nat.lt_of_lt_of_le (within.list result read) le
  member result read := Nat.lt_of_lt_of_le (within.member result read) le
  chain result read := Nat.lt_of_lt_of_le (within.chain result read) le

/-- A value that holds no others says nothing of that kind. -/
theorem Reading.within_ofScalar (value : Json.Value) (bound : Nat) :
    (Reading.ofScalar value).Within bound where
  expression _ read := nomatch read
  list _ read := nomatch read
  member _ read := nomatch read
  chain _ read := nomatch read

/-- Every part says what is written within the bound. -/
def Parts.Within (bound : Nat) (parts : Parts) : Prop :=
  ∀ part ∈ parts, part.2.Within bound

namespace Parts.Within

variable {bound : Nat} {parts : Parts} {name : String}

theorem of_named
    (within : parts.Within bound)
    {reading : Reading}
    (present : reading ∈ parts.named name) :
    reading.Within bound := by
  obtain ⟨part, known, rfl⟩ := List.mem_map.mp present
  exact within part (List.mem_of_mem_filter known)

theorem of_required?
    (within : parts.Within bound)
    {reading : Reading}
    (found : parts.required? name = some reading) :
    reading.Within bound := by
  apply within.of_named
  rw [required?_eq_some_iff.mp found]
  exact List.mem_singleton_self reading

/-- A part is within the bound where it occurs, and otherwise it is the default. -/
theorem of_optional?
    {α : Type}
    (within : parts.Within bound)
    {default result : α}
    {form : Reading → Option α}
    (found : parts.optional? name default form = some result) :
    result = default ∨ ∃ reading : Reading, reading.Within bound ∧ form reading = some result := by
  unfold optional? at found
  split at found
  · exact .inl (Option.some.inj found).symm
  · next reading only =>
      refine .inr ⟨reading, ?_, found⟩
      apply within.of_named
      rw [only]
      exact List.mem_singleton_self reading
  · contradiction

theorem expression?
    (within : parts.Within bound)
    {expression : Expr}
    (found : parts.expression? name = some expression) :
    expression.toJson.containers ≤ bound := by
  obtain ⟨reading, required, known⟩ := Option.bind_eq_some_iff.mp found
  exact (within.of_required? required).expression expression known

/-- A list that is formed of bounded parts is written within the bound, its own array included.
-/
theorem list?
    (within : parts.Within bound)
    {items : List Expr}
    (found : parts.list? name = some items) :
    itemContainers (jsonItems items) < bound := by
  obtain ⟨reading, required, known⟩ := Option.bind_eq_some_iff.mp found
  exact (within.of_required? required).list items known

theorem group?
    (within : parts.Within bound)
    (field : String)
    {group : Option (List Expr)}
    (found : parts.group? name = some group) :
    memberContainers (jsonGroup field group) ≤ bound := by
  rcases within.of_optional? found with rfl | ⟨reading, inside, known⟩
  · exact Nat.zero_le bound
  · split at known
    · cases known
      exact Nat.zero_le bound
    · obtain ⟨items, listed, rfl⟩ := Option.map_eq_some_iff.mp known
      have below := inside.list items listed
      simp only [jsonGroup, memberContainers, containers]
      omega

/-- A chain of members that is formed of bounded parts is written within the bound. -/
theorem chain?
    (within : parts.Within bound)
    {members : List Variable}
    (found : parts.chain? name = some members) :
    memberContainers (Variable.jsonChain members) ≤ bound := by
  rcases within.of_optional? found with rfl | ⟨reading, inside, known⟩
  · exact Nat.zero_le bound
  · have below := inside.chain members known
    cases members with
    | nil => exact Nat.zero_le bound
    | cons member others =>
        rw [Variable.jsonTagged] at below
        rw [Variable.jsonChain]
        simp only [memberContainers, containers]
        omega

/-- A variable that is formed of bounded parts has members that are written within the bound. -/
theorem reference?
    (within : parts.Within bound)
    {reference : Variable}
    (found : parts.reference? = some reference) :
    memberContainers reference.jsonMembers ≤ bound := by
  obtain ⟨name, indices, arguments, members⟩ := reference
  obtain ⟨_, first, second, third⟩ := reference?_eq_some_iff.mp found
  have one : memberContainers (jsonGroup "indices" indices) ≤ bound :=
    within.group? "indices" first
  have two : memberContainers (jsonGroup "args" arguments) ≤ bound := within.group? "args" second
  have three : memberContainers (Variable.jsonChain members) ≤ bound := within.chain? third
  simp only [Variable.jsonMembers, memberContainers, memberContainers_append, containers]
  omega

/-- A node holds its parts in one more object than the bound of the parts that denote it. -/
theorem containers_toJson
    (within : parts.Within bound) :
    (expression : Expr) → parts.Denotes expression →
      expression.toJson.containers ≤ bound + 1
  | .number _, _ => by
      rw [toJson, tagged]
      simp only [containers, memberContainers, Number.containers_toJson]
      omega
  | .string _, _ => by
      rw [toJson, tagged]
      simp only [containers, memberContainers]
      omega
  | .variable _, known => by
      have inside := within.reference? known
      rw [toJson, tagged]
      simp only [containers, memberContainers]
      omega
  | .unary _ _, ⟨_, operand⟩ => by
      have only := within.expression? operand
      rw [toJson, tagged]
      simp only [containers, memberContainers]
      omega
  | .binary _ _ _, ⟨_, left, right⟩
  | .compare _ _ _, ⟨_, left, right⟩
  | .logical _ _ _, ⟨_, left, right⟩ => by
      have first := within.expression? left
      have second := within.expression? right
      rw [toJson, tagged]
      simp only [containers, memberContainers]
      omega
  | .call _ _, ⟨callee, arguments⟩ => by
      have first := within.expression? callee
      have second := within.list? arguments
      rw [toJson, tagged]
      simp only [containers, memberContainers]
      omega
  | .index _ _ _, ⟨target, indices, members⟩ => by
      have first := within.expression? target
      have second := within.list? indices
      have third := within.chain? members
      rw [toJson, tagged]
      simp only [containers, memberContainers, memberContainers_append]
      omega
  | .conditional _ _ _, ⟨condition, whenTrue, whenFalse⟩ => by
      have first := within.expression? condition
      have second := within.expression? whenTrue
      have third := within.expression? whenFalse
      rw [toJson, tagged]
      simp only [containers, memberContainers]
      omega

/-- Parts form an expression whose text nests one level deeper than they do at most. -/
theorem ofParts?
    (within : parts.Within bound)
    {shape : Shape}
    {expression : Expr}
    (read : ofParts? shape parts = some expression) :
    expression.toJson.containers ≤ bound + 1 :=
  within.containers_toJson expression (ofParts?_eq_some_iff.mp read).2

/-! ## Nodes -/

/-- Without the tag the members are as bounded as with it. -/
theorem ofMembers?
    (within : parts.Within bound)
    {tag : Json.Value → Option Shape}
    {shape : Shape}
    {others : Parts}
    (split : Parts.ofMembers? tag parts = some (shape, others)) :
    others.Within bound := by
  obtain ⟨_, _, known⟩ := Option.bind_eq_some_iff.mp split
  obtain ⟨_, _, same⟩ := Option.bind_eq_some_iff.mp known
  cases same
  exact fun part present => within part (List.mem_of_mem_filter present)

end Parts.Within

/-- Items that become parts by their places are as bounded as before. -/
theorem within_ofArray?
    {bound : Nat}
    {items : List Reading}
    (within : ∀ item ∈ items, item.Within bound)
    {tag : Json.Value → Option Shape}
    {shape : Shape}
    {parts : Parts}
    (split : Parts.ofArray? tag items = some (shape, parts)) :
    parts.Within bound := by
  cases items with
  | nil => contradiction
  | cons first others =>
      obtain ⟨_, _, known⟩ := Option.bind_eq_some_iff.mp split
      obtain ⟨zipped, placed, same⟩ := Option.bind_eq_some_iff.mp known
      cases same
      unfold Parts.ofItems? at placed
      split at placed
      · cases placed
        intro part present
        exact within part.2 (List.mem_cons_of_mem _ (List.of_mem_zip present).2)
      · contradiction

/-- What a node says is written within one more than the bound of its parts. -/
theorem within_ofNode
    {bound : Nat}
    {value : Json.Value}
    {split : (Json.Value → Option Shape) → Option (Shape × Parts)}
    {list : Option (List Expr)}
    {chain : Option (List Variable)}
    (within : ∀ tag shape parts, split tag = some (shape, parts) → parts.Within bound)
    (listed : ∀ items, list = some items → itemContainers (jsonItems items) ≤ bound)
    (chained : ∀ members, chain = some members →
      itemContainers (Variable.jsonTagged members) ≤ bound) :
    (Reading.ofNode value split list chain).Within (bound + 1) where
  expression := by
    intro result read
    obtain ⟨⟨shape, parts⟩, found, denoted⟩ := Option.bind_eq_some_iff.mp read
    exact (within _ shape parts found).ofParts? denoted
  list items read := Nat.lt_succ_of_le (listed items read)
  member := by
    intro result read
    obtain ⟨⟨shape, parts⟩, found, denoted⟩ := Option.bind_eq_some_iff.mp read
    exact Nat.lt_succ_of_le ((within _ shape parts found).reference? denoted)
  chain members read := Nat.lt_succ_of_le (chained members read)

/-- Items that are read one by one are written within the bound of each of them. -/
theorem itemContainers_of_mapM
    {α : Type}
    {bound : Nat}
    {form : Reading → Option α}
    {write : α → Json.Value}
    {readings : List Reading}
    (within : ∀ reading ∈ readings, ∀ result, form reading = some result →
      (write result).containers ≤ bound)
    {results : List α}
    (read : readings.mapM form = some results) :
    itemContainers (results.map write) ≤ bound := by
  induction readings generalizing results with
  | nil =>
      cases read
      exact Nat.zero_le bound
  | cons first others hypothesis =>
      rw [List.mapM_cons] at read
      obtain ⟨result, known, more⟩ := Option.bind_eq_some_iff.mp read
      obtain ⟨rest, later, whole⟩ := Option.bind_eq_some_iff.mp more
      cases whole
      obtain ⟨here, behind⟩ := List.forall_mem_cons.mp within
      exact Nat.max_le.mpr ⟨here result known, hypothesis behind later⟩

/-! ## Values -/

mutual

/-- What a value says in any place is written within the containers of the value. -/
theorem within_containers : (value : Json.Value) → value.reading.Within value.containers
  | .null => Reading.within_ofScalar ..
  | .boolean _ => Reading.within_ofScalar ..
  | .whole _ => Reading.within_ofScalar ..
  | .double _ => Reading.within_ofScalar ..
  | .string _ => Reading.within_ofScalar ..
  | .array items => by
      have each := within_itemContainers items
      rw [containers, Json.Value.reading]
      apply within_ofNode
      · exact fun _ _ _ => within_ofArray? each
      · intro expressions read
        rw [jsonItems_eq_map]
        exact itemContainers_of_mapM (fun reading present => (each reading present).expression) read
      · intro references read
        rw [jsonTagged_eq_map]
        apply itemContainers_of_mapM _ read
        intro reading present reference known
        have inside := (each reading present).member reference known
        simp only [tagged, containers, memberContainers]
        omega
  | .object members => by
      have each := within_memberContainers members
      rw [containers, Json.Value.reading]
      apply within_ofNode
      · exact fun _ _ _ => each.ofMembers?
      · exact fun _ read => nomatch read
      · exact fun _ read => nomatch read

theorem within_itemContainers :
    (items : List Json.Value) →
      ∀ reading ∈ itemReadings items, reading.Within (itemContainers items)
  | [] => List.forall_mem_nil _
  | item :: rest => by
      rw [itemReadings, itemContainers]
      refine List.forall_mem_cons.mpr ⟨?_, fun reading present => ?_⟩
      · exact (within_containers item).mono (Nat.le_max_left ..)
      · exact (within_itemContainers rest reading present).mono (Nat.le_max_right ..)

theorem within_memberContainers :
    (members : List (String × Json.Value)) →
      Parts.Within (memberContainers members) (memberReadings members)
  | [] => List.forall_mem_nil _
  | (_, value) :: rest => by
      rw [memberReadings, memberContainers]
      refine List.forall_mem_cons.mpr ⟨?_, fun part present => ?_⟩
      · exact (within_containers value).mono (Nat.le_max_left ..)
      · exact (within_memberContainers rest part present).mono (Nat.le_max_right ..)

end

/-- An expression is written with no more arrays and objects in one another than the value that
it is read from. -/
theorem containers_of_ofJson?
    {value : Json.Value}
    {expression : Expr}
    (read : ofJson? value = some expression) :
    expression.toJson.containers ≤ value.containers := by
  cases value with
  | array items =>
      obtain ⟨⟨shape, parts⟩, found, denoted⟩ := Option.bind_eq_some_iff.mp read
      exact (within_ofArray? (within_itemContainers items) found).ofParts? denoted
  | object members =>
      obtain ⟨⟨shape, parts⟩, found, denoted⟩ := Option.bind_eq_some_iff.mp read
      exact ((within_memberContainers members).ofMembers? found).ofParts? denoted
  | _ => contradiction

end Expr
end ModelEquation
