import Mathlib.Data.List.Forall2
import ModelEquation.Proofs.Expr.Denotation

/-!
# Readings of values in canonical form

A value may be replaced by one that says the same wherever it says something. The canonical
form of a value does: it forgets which names were repeated, but a node is not read from
repeated parts at all. Whatever is read from a value is therefore read from its canonical form.
-/

namespace ModelEquation

namespace Json
namespace Value

/-- The value without what an array or object holds. -/
def outline : Value → Value
  | .null => .null
  | .boolean value => .boolean value
  | .whole value => .whole value
  | .double value => .double value
  | .string text => .string text
  | .array _ => .array []
  | .object _ => .object []

/-- The outline of a value shows whether it is a string, and which one. -/
theorem outline_eq_string_iff
    {value : Value}
    {text : String} :
    value.outline = .string text ↔ value = .string text := by
  cases value <;> simp [outline]

theorem outline_eq_null_iff {value : Value} : value.outline = .null ↔ value = .null := by
  cases value <;> simp [outline]

end Value
end Json

namespace Expr

open Json.Value (canonicalItems canonicalMembers itemReadings memberReadings outline valuesOf)

/-- The type is looked at without what an array or object holds. -/
theorem ofTag?_outline (value : Json.Value) :
    Shape.ofTag? value.outline = Shape.ofTag? value := by
  cases value <;> rfl

/-- The outline is enough to tell a tag or an index. -/
theorem ofTagOrIndex?_outline
    (shapes : List Shape)
    (value : Json.Value) :
    Shape.ofTagOrIndex? shapes value.outline = Shape.ofTagOrIndex? shapes value := by
  cases value <;> rfl

/-- The outline is enough to tell a number. -/
theorem ofJson?_outline (value : Json.Value) :
    Number.ofJson? value.outline = Number.ofJson? value := by
  cases value <;> rfl

/-- The symbol that a value is, or that is the name of its only member. -/
def symbolOf? : Json.Value → Option String
  | .string symbol => some symbol
  | .object [(symbol, .null)] => some symbol
  | .object [(symbol, .object [])] => some symbol
  | _ => none

/-- A symbol stays one in canonical form: its only member cannot be repeated. -/
theorem symbolOf?_canonical
    {value : Json.Value}
    {symbol : String}
    (found : symbolOf? value = some symbol) :
    symbolOf? value.canonical = some symbol := by
  unfold symbolOf? at found
  split at found
  · exact found
  · exact found
  · exact found
  · contradiction

/-- Whatever the first reading says in any place, the second one says as well. -/
structure Reading.Keeps (earlier later : Reading) : Prop where
  outline : later.value.outline = earlier.value.outline
  symbol : ∀ text, symbolOf? earlier.value = some text → symbolOf? later.value = some text
  expression : ∀ result, earlier.expression = some result → later.expression = some result
  list : ∀ result, earlier.list = some result → later.list = some result
  member : ∀ result, earlier.member = some result → later.member = some result
  chain : ∀ result, earlier.chain = some result → later.chain = some result

theorem Reading.Keeps.refl (reading : Reading) : reading.Keeps reading :=
  ⟨rfl, fun _ => id, fun _ => id, fun _ => id, fun _ => id, fun _ => id⟩

/-- A part that occurs once still occurs once and says the same, and no part is added. -/
structure Parts.Keeps (earlier later : Parts) : Prop where
  absent : ∀ name, earlier.named name = [] → later.named name = []
  only : ∀ name reading, earlier.named name = [reading] →
    ∃ kept, later.named name = [kept] ∧ reading.Keeps kept

namespace Parts.Keeps

variable {earlier later : Parts} {name : String} {α : Type} {result : α}

/-- Parts of the same names in the same order. -/
theorem of_forall₂
    (related : List.Forall₂ (fun part kept => part.1 = kept.1 ∧ part.2.Keeps kept.2)
      earlier later) :
    earlier.Keeps later := by
  have named (name : String) : List.Forall₂ Reading.Keeps (earlier.named name)
      (later.named name) := by
    induction related with
    | nil => exact .nil
    | @cons part kept parts others same related hypothesis =>
        obtain ⟨first, reading⟩ := part
        obtain ⟨_, other⟩ := kept
        obtain ⟨rfl, keeps⟩ := same
        rw [named_cons, named_cons]
        split
        · exact .cons keeps hypothesis
        · exact hypothesis
  constructor
  · intro name absent
    have same := named name
    rw [absent] at same
    exact List.forall₂_nil_left_iff.mp same
  · intro name reading only
    have same := named name
    rw [only] at same
    obtain ⟨kept, rest, keeps, none, whole⟩ := List.forall₂_cons_left_iff.mp same
    rw [List.forall₂_nil_left_iff.mp none] at whole
    exact ⟨kept, whole, keeps⟩

/-- A part that is required is found in the later parts as well. -/
theorem required?
    (keeps : earlier.Keeps later)
    {reading : Reading}
    (found : earlier.required? name = some reading) :
    ∃ kept, later.required? name = some kept ∧ reading.Keeps kept := by
  obtain ⟨kept, named, same⟩ := keeps.only name reading (required?_eq_some_iff.mp found)
  exact ⟨kept, required?_eq_some_iff.mpr named, same⟩

/-- A required part says in the later parts what it says in the earlier ones, if what it is read
as says the same. -/
theorem bind_required?
    (keeps : earlier.Keeps later)
    {form : Reading → Option α}
    (formed : ∀ reading kept, reading.Keeps kept → form reading = some result →
      form kept = some result)
    (found : (earlier.required? name).bind form = some result) :
    (later.required? name).bind form = some result := by
  obtain ⟨reading, required, known⟩ := Option.bind_eq_some_iff.mp found
  obtain ⟨kept, still, same⟩ := keeps.required? required
  exact Option.bind_eq_some_iff.mpr ⟨kept, still, formed reading kept same known⟩

/-- An optional part that may be missing says the same in both, too. -/
theorem optional?
    (keeps : earlier.Keeps later)
    {default : α}
    {form : Reading → Option α}
    (formed : ∀ reading kept, reading.Keeps kept → form reading = some result →
      form kept = some result)
    (found : earlier.optional? name default form = some result) :
    later.optional? name default form = some result := by
  unfold Parts.optional? at found
  split at found
  · next absent =>
      rw [Parts.optional?, keeps.absent name absent]
      exact found
  · next reading only =>
      obtain ⟨kept, named, same⟩ := keeps.only name reading only
      rw [Parts.optional?, named]
      exact formed reading kept same found
  · contradiction

theorem text?
    (keeps : earlier.Keeps later)
    {text : String}
    (found : earlier.text? name = some text) :
    later.text? name = some text := by
  apply keeps.bind_required? _ found
  intro reading kept same known
  split at known
  · next content =>
      have still := Json.Value.outline_eq_string_iff.mp
        (same.outline.trans (Json.Value.outline_eq_string_iff.mpr content))
      rw [still]
      exact known
  · contradiction

theorem symbol?
    (keeps : earlier.Keeps later)
    {symbol : String}
    (found : earlier.symbol? name = some symbol) :
    later.symbol? name = some symbol :=
  keeps.bind_required? (fun _ _ same => same.symbol symbol) found

theorem expression?
    (keeps : earlier.Keeps later)
    {expression : Expr}
    (found : earlier.expression? name = some expression) :
    later.expression? name = some expression :=
  keeps.bind_required? (fun _ _ same => same.expression expression) found

theorem list?
    (keeps : earlier.Keeps later)
    {items : List Expr}
    (found : earlier.list? name = some items) :
    later.list? name = some items :=
  keeps.bind_required? (fun _ _ same => same.list items) found

theorem group?
    (keeps : earlier.Keeps later)
    {group : Option (List Expr)}
    (found : earlier.group? name = some group) :
    later.group? name = some group := by
  apply keeps.optional? _ found
  intro reading kept same known
  split at known
  · next content =>
      have still := Json.Value.outline_eq_null_iff.mp
        (same.outline.trans (Json.Value.outline_eq_null_iff.mpr content))
      rw [still]
      exact known
  · next filled =>
      obtain ⟨items, read, rfl⟩ := Option.map_eq_some_iff.mp known
      have other : kept.value ≠ .null := fun content => filled <|
        Json.Value.outline_eq_null_iff.mp
          (same.outline.symm.trans (Json.Value.outline_eq_null_iff.mpr content))
      split
      · next content => exact absurd content other
      · rw [same.list items read, Option.map_some]

theorem chain?
    (keeps : earlier.Keeps later)
    {members : List Variable}
    (found : earlier.chain? name = some members) :
    later.chain? name = some members :=
  keeps.optional? (fun _ _ same => same.chain members) found

/-- The later parts form the variable that the earlier ones form. -/
theorem reference?
    (keeps : earlier.Keeps later)
    {reference : Variable}
    (found : earlier.reference? = some reference) :
    later.reference? = some reference := by
  obtain ⟨named, first, second, third⟩ := reference?_eq_some_iff.mp found
  exact reference?_eq_some_iff.mpr
    ⟨keeps.text? named, keeps.group? first, keeps.group? second, keeps.chain? third⟩

/-- The operator of a symbol that is kept. -/
theorem operator
    (keeps : earlier.Keeps later)
    {operator : α}
    {ofSymbol? : String → Option α}
    (found : (earlier.symbol? name).bind ofSymbol? = some operator) :
    (later.symbol? name).bind ofSymbol? = some operator := by
  obtain ⟨symbol, present, known⟩ := Option.bind_eq_some_iff.mp found
  exact Option.bind_eq_some_iff.mpr ⟨symbol, keeps.symbol? present, known⟩

/-- An expression that the earlier parts denote is denoted by the later ones. -/
theorem denotes (keeps : earlier.Keeps later) :
    (expression : Expr) → earlier.Denotes expression → later.Denotes expression
  | .number _, known =>
      keeps.bind_required? (fun reading kept same found => by
        rwa [← ofJson?_outline, same.outline, ofJson?_outline]) known
  | .string _, known => keeps.text? known
  | .variable _, known => keeps.reference? known
  | .unary _ _, ⟨symbol, operand⟩ => ⟨keeps.operator symbol, keeps.expression? operand⟩
  | .binary _ _ _, ⟨symbol, left, right⟩
  | .compare _ _ _, ⟨symbol, left, right⟩
  | .logical _ _ _, ⟨symbol, left, right⟩ =>
      ⟨keeps.operator symbol, keeps.expression? left, keeps.expression? right⟩
  | .call _ _, ⟨callee, arguments⟩ => ⟨keeps.expression? callee, keeps.list? arguments⟩
  | .index _ _ _, ⟨target, indices, members⟩ =>
      ⟨keeps.expression? target, keeps.list? indices, keeps.chain? members⟩
  | .conditional _ _ _, ⟨condition, whenTrue, whenFalse⟩ =>
      ⟨keeps.expression? condition, keeps.expression? whenTrue, keeps.expression? whenFalse⟩

/-- The later parts form the expression that the earlier ones form. -/
theorem ofParts?
    (keeps : earlier.Keeps later)
    {shape : Shape}
    {expression : Expr}
    (read : ofParts? shape earlier = some expression) :
    Expr.ofParts? shape later = some expression := by
  obtain ⟨same, denoted⟩ := ofParts?_eq_some_iff.mp read
  exact ofParts?_eq_some_iff.mpr ⟨same, keeps.denotes expression denoted⟩

/-- Leaving out the parts of one name keeps the others. -/
theorem filter_ne
    (keeps : earlier.Keeps later)
    (other : String) :
    Parts.Keeps (earlier.filter fun part => part.1 != other)
      (later.filter fun part => part.1 != other) := by
  constructor
  · intro name absent
    rw [named_filter_ne] at absent ⊢
    split at absent
    · exact if_pos ‹_›
    · rw [if_neg ‹_›]
      exact keeps.absent name absent
  · intro name reading only
    rw [named_filter_ne] at only ⊢
    split at only
    · contradiction
    · rw [if_neg ‹_›]
      exact keeps.only name reading only

end Parts.Keeps

/-! ## Nodes -/

/-- A way to find the shape and the parts of a node, and one that finds the same. -/
def KeepsSplit
    (split later : (Json.Value → Option Shape) → Option (Shape × Parts)) : Prop :=
  ∀ tag, (∀ value : Json.Value, tag value.outline = tag value) →
    ∀ shape parts, split tag = some (shape, parts) →
      ∃ kept, later tag = some (shape, kept) ∧ parts.Keeps kept

/-- Splitting the tag off the members of a node leaves parts that say the same. -/
theorem keepsSplit_ofMembers?
    {earlier later : Parts}
    (keeps : earlier.Keeps later) :
    KeepsSplit (fun tag => Parts.ofMembers? tag earlier)
      (fun tag => Parts.ofMembers? tag later) := by
  intro tag outlined shape parts split
  obtain ⟨reading, required, known⟩ := Option.bind_eq_some_iff.mp split
  obtain ⟨found, tagged, same⟩ := Option.bind_eq_some_iff.mp known
  cases same
  obtain ⟨kept, still, kind⟩ := keeps.required? required
  have again : tag kept.value = some shape := by
    rw [← outlined, kind.outline, outlined, tagged]
  refine ⟨_, ?_, keeps.filter_ne "type"⟩
  simp only [Parts.ofMembers?, still, again, Option.bind_eq_bind, Option.bind_some]

/-- Parts that are given by their order, each of them kept. -/
theorem keeps_ofItems?
    {items later : List Reading}
    (keeps : List.Forall₂ Reading.Keeps items later)
    {shape : Shape}
    {parts : Parts}
    (placed : Parts.ofItems? shape items = some parts) :
    ∃ kept, Parts.ofItems? shape later = some kept ∧ parts.Keeps kept := by
  have zipped (fields : List String) :
      List.Forall₂ (fun part kept => part.1 = kept.1 ∧ part.2.Keeps kept.2)
        (fields.zip items) (fields.zip later) := by
    clear placed
    induction keeps generalizing fields with
    | nil => simp
    | cons same related hypothesis =>
        cases fields with
        | nil => exact .nil
        | cons field others => exact .cons ⟨rfl, same⟩ (hypothesis others)
  unfold Parts.ofItems? at placed ⊢
  rw [← keeps.length_eq]
  split at placed
  · next fits =>
      cases placed
      exact ⟨_, if_pos fits, .of_forall₂ (zipped shape.fields)⟩
  · contradiction

/-- Splitting the tag off the items of a node leaves parts that say the same. -/
theorem keepsSplit_ofArray?
    {items later : List Reading}
    (keeps : List.Forall₂ Reading.Keeps items later) :
    KeepsSplit (fun tag => Parts.ofArray? tag items) (fun tag => Parts.ofArray? tag later) := by
  intro tag outlined shape parts split
  cases keeps with
  | nil => contradiction
  | @cons first kept others rest kind related =>
      obtain ⟨found, tagged, known⟩ := Option.bind_eq_some_iff.mp split
      obtain ⟨zipped, placed, same⟩ := Option.bind_eq_some_iff.mp known
      cases same
      have again : tag kept.value = some shape := by
        rw [← outlined, kind.outline, outlined, tagged]
      obtain ⟨later, still, same⟩ := keeps_ofItems? related placed
      refine ⟨later, ?_, same⟩
      simp only [Parts.ofArray?, again, still, Option.bind_eq_bind, Option.bind_some]

/-- A node that is kept is read as before, as an expression and as a member. -/
theorem keeps_ofNode
    {value other : Json.Value}
    {split later : (Json.Value → Option Shape) → Option (Shape × Parts)}
    {list otherList : Option (List Expr)}
    {chain otherChain : Option (List Variable)}
    (outline : other.outline = value.outline)
    (symbol : ∀ text, symbolOf? value = some text → symbolOf? other = some text)
    (keeps : KeepsSplit split later)
    (keepsList : ∀ result, list = some result → otherList = some result)
    (keepsChain : ∀ result, chain = some result → otherChain = some result) :
    (Reading.ofNode value split list chain).Keeps
      (Reading.ofNode other later otherList otherChain) where
  outline := outline
  symbol := symbol
  expression := by
    intro result read
    obtain ⟨⟨shape, parts⟩, found, denoted⟩ := Option.bind_eq_some_iff.mp read
    obtain ⟨kept, still, same⟩ := keeps _ (ofTagOrIndex?_outline _) shape parts found
    exact Option.bind_eq_some_iff.mpr ⟨(shape, kept), still, same.ofParts? denoted⟩
  list := keepsList
  member := by
    intro result read
    obtain ⟨⟨shape, parts⟩, found, denoted⟩ := Option.bind_eq_some_iff.mp read
    obtain ⟨kept, still, same⟩ := keeps _ (ofTagOrIndex?_outline _) shape parts found
    exact Option.bind_eq_some_iff.mpr ⟨(shape, kept), still, same.reference? denoted⟩
  chain := keepsChain

/-- A list that is read item by item is read from items that are kept. -/
theorem mapM_of_keeps
    {α : Type}
    {form : Reading → Option α}
    (formed : ∀ reading kept : Reading, reading.Keeps kept →
      ∀ result, form reading = some result → form kept = some result)
    {items later : List Reading}
    (keeps : List.Forall₂ Reading.Keeps items later)
    {results : List α}
    (read : items.mapM form = some results) :
    later.mapM form = some results := by
  induction keeps generalizing results with
  | nil => exact read
  | @cons first kept others rest same related hypothesis =>
      rw [List.mapM_cons] at read ⊢
      obtain ⟨result, known, more⟩ := Option.bind_eq_some_iff.mp read
      obtain ⟨tail, later, whole⟩ := Option.bind_eq_some_iff.mp more
      rw [formed first kept same result known, hypothesis later]
      exact whole

/-! ## Canonical form -/

/-- The last value of a name is its only one where there is only one. -/
theorem keeps_canonicalMembers
    {members : List (String × Json.Value)}
    (each : ∀ member ∈ members, member.2.reading.Keeps member.2.canonical.reading) :
    Parts.Keeps (memberReadings members) (memberReadings (canonicalMembers members [])) := by
  constructor
  · intro name absent
    rw [Parts.named_memberReadings, List.map_eq_nil_iff] at absent
    rw [Parts.named_memberReadings, Json.Value.valuesOf_canonicalMembers, absent]
    rfl
  · intro name reading only
    rw [Parts.named_memberReadings] at only
    obtain ⟨value, single, rfl⟩ := List.map_eq_singleton_iff.mp only
    have present : value ∈ valuesOf members name := by
      rw [single]
      exact List.mem_singleton_self value
    obtain ⟨member, known, rfl⟩ := List.mem_map.mp present
    refine ⟨member.2.canonical.reading, ?_, each member (List.mem_of_mem_filter known)⟩
    rw [Parts.named_memberReadings, Json.Value.valuesOf_canonicalMembers, single]
    rfl

mutual

/-- What a value says in any place, its canonical form says as well. -/
theorem keeps_canonical : (value : Json.Value) → value.reading.Keeps value.canonical.reading
  | .null => .refl _
  | .boolean _ => .refl _
  | .whole _ => .refl _
  | .double _ => .refl _
  | .string _ => .refl _
  | .array items => by
      have each := keeps_canonicalItems items
      simp only [Json.Value.canonical, Json.Value.reading]
      apply keeps_ofNode
      · rfl
      · exact fun _ => symbolOf?_canonical
      · exact keepsSplit_ofArray? each
      · exact fun _ => mapM_of_keeps (fun _ _ same => same.expression) each
      · exact fun _ => mapM_of_keeps (fun _ _ same => same.member) each
  | .object members => by
      have each := keeps_canonical_of_mem members
      simp only [Json.Value.canonical, Json.Value.reading]
      apply keeps_ofNode
      · rfl
      · exact fun _ => symbolOf?_canonical
      · exact keepsSplit_ofMembers? (keeps_canonicalMembers each)
      · exact fun _ => id
      · exact fun _ => id

theorem keeps_canonicalItems :
    (items : List Json.Value) →
      List.Forall₂ Reading.Keeps (itemReadings items) (itemReadings (canonicalItems items))
  | [] => .nil
  | item :: rest => .cons (keeps_canonical item) (keeps_canonicalItems rest)

theorem keeps_canonical_of_mem :
    (members : List (String × Json.Value)) →
      ∀ member ∈ members, member.2.reading.Keeps member.2.canonical.reading
  | [] => by
      intro member present
      cases present
  | (_, value) :: rest =>
      List.forall_mem_cons.mpr ⟨keeps_canonical value, keeps_canonical_of_mem rest⟩

end

/-- An expression that is read from a value is read from its canonical form. -/
theorem ofJson?_canonical_of_some
    {value : Json.Value}
    {expression : Expr}
    (read : ofJson? value = some expression) :
    ofJson? value.canonical = some expression := by
  cases value with
  | array items =>
      obtain ⟨⟨shape, parts⟩, found, denoted⟩ := Option.bind_eq_some_iff.mp read
      obtain ⟨kept, still, same⟩ := keepsSplit_ofArray? (keeps_canonicalItems items)
        _ ofTag?_outline shape parts found
      exact Option.bind_eq_some_iff.mpr ⟨(shape, kept), still, same.ofParts? denoted⟩
  | object members =>
      obtain ⟨⟨shape, parts⟩, found, denoted⟩ := Option.bind_eq_some_iff.mp read
      obtain ⟨kept, still, same⟩ := keepsSplit_ofMembers?
        (keeps_canonicalMembers (keeps_canonical_of_mem members)) _ ofTag?_outline shape parts found
      exact Option.bind_eq_some_iff.mpr ⟨(shape, kept), still, same.ofParts? denoted⟩
  | _ => contradiction

end Expr
end ModelEquation
