import ModelEquation.Expr.JsonReader
import ModelEquation.Proofs.Expr.Denotation
import ModelEquation.Proofs.Json.Compact
import ModelEquation.Proofs.Reader.Simulation

/-!
# Reading directly and through a value

The reader of expressions looks at the type of the topmost node as soon as it meets it. Where
it returns an expression, the reader of plain values returns a value that denotes the same
expression and leaves the same text: both read the same members and items, one after the
other.
-/

namespace ModelEquation

open Json (Value)
open Json.Value (itemReadings memberReadings valuesOf)

namespace Json
namespace TextReader

variable {α β : Type} {related : α → β → Prop}

/-- Parts after commas are mirrored if each part is. -/
theorem mirrors_afterCommas
    {part : α → TextReader α}
    {mirror : β → TextReader β}
    (parts : ∀ value other, related value other → (part value).Mirrors (mirror other) related)
    {value : α}
    {other : β}
    (start : related value other) :
    (afterCommas part value).Mirrors (afterCommas mirror other) related := by
  refine Reader.mirrors_extend (fun symbol => ?_) start
  split
  · exact .some fun value other holds => Reader.mirrors_bind_same fun _ => parts value other holds
  · exact .none

/-- Objects whose members are read in step. -/
theorem mirrors_members
    {member : String → α → TextReader α}
    {mirror : String → β → TextReader β}
    (each : ∀ name value other, related value other →
      (member name value).Mirrors (mirror name other) related)
    {value : α}
    {other : β}
    (start : related value other) :
    (members .strict member value).Mirrors (members .strict mirror other) related := by
  have named (value : α) (other : β) (holds : related value other) :
      (namedMember .strict member value).Mirrors (namedMember .strict mirror other) related :=
    Reader.mirrors_bind_same fun name => each name value other holds
  rw [members_eq, members_eq]
  refine Reader.mirrors_bind_same fun _ => Reader.mirrors_bind_same fun closed => ?_
  cases closed with
  | true => exact Reader.mirrors_bind_same fun _ => Reader.mirrors_pure start
  | false =>
      refine Reader.mirrors_bind (named value other start) fun first firstOther holds => ?_
      refine Reader.mirrors_bind (mirrors_afterCommas named holds) fun last lastOther ends => ?_
      exact Reader.mirrors_bind_same fun _ => Reader.mirrors_pure ends

/-- A form that is asked of what was read takes nothing. -/
theorem mirrors_fitting
    {γ : Type}
    {reader : TextReader α}
    {mirror : TextReader β}
    {form : α → Option γ}
    {wanted : γ → β → Prop}
    (mirrors : reader.Mirrors mirror related)
    (formed : ∀ value other result, related value other → form value = some result →
      wanted result other) :
    (reader >>= fun value => fitting (form value)).Mirrors mirror wanted := by
  intro input rest result ran
  rw [Reader.run_bind] at ran
  split at ran
  · contradiction
  · next value middle read =>
      obtain ⟨other, mirrored, holds⟩ := mirrors read
      cases known : form value with
      | none =>
          rw [known] at ran
          contradiction
      | some found =>
          rw [known] at ran
          cases ran
          exact ⟨other, mirrored, formed value other result holds known⟩

/-- A scalar that has a form is read as a plain value that has it. -/
theorem mirrors_scalarAs
    (form : Value → Option α)
    (budget : Nat) :
    (scalarAs form).Mirrors (value .strict budget) fun result source =>
      form source = some result := by
  intro input rest result ran
  rw [scalarAs, Reader.run_bind, run_seesContainer] at ran
  by_cases noArray : input.head? = some '['
  · simp only [noArray, decide_true, Bool.true_or, if_true] at ran
    contradiction
  by_cases noObject : input.head? = some '{'
  · simp only [noObject, decide_true, Bool.or_true, if_true] at ran
    contradiction
  have read : (scalar .strict >>= fun source => fitting (form source)).run input =
      .ok (result, rest) := by
    simpa only [noArray, noObject, decide_false, Bool.or_false, Bool.false_eq_true, if_false]
      using ran
  have scalars : (scalar .strict >>= fun source => fitting (form source)).Mirrors
      (scalar .strict) fun result source => form source = some result :=
    mirrors_fitting (Reader.mirrors_refl _) fun _ _ _ same known => same ▸ known
  rw [run_value_of_scalar noArray noObject]
  exact scalars read

end TextReader
end Json

namespace Expr

open Json.TextReader

/-! ## Objects -/

/-- The members of the topmost node as they are being read: its type apart from the others, as
far as it has been met. -/
def Pending.Of (pending : Pending) (members : List (String × Value)) : Prop :=
  pending.reversed = members.filter (fun member => member.1 != "type") ∧
    (valuesOf members "type").map Shape.ofTag? = pending.shape.toList.map some

/-- A member is read in step with a plain member. -/
theorem mirrors_pendingMember
    (budget : Nat)
    (name : String)
    {pending : Pending}
    {members : List (String × Value)}
    (holds : pending.Of members) :
    (pendingMember (value .strict budget) name pending).Mirrors
      (plainMember (value .strict budget) name members) Pending.Of := by
  obtain ⟨others, typed⟩ := holds
  unfold pendingMember plainMember
  by_cases type : name = "type"
  · rw [if_pos type]
    cases met : pending.shape with
    | some shape => exact Reader.mirrors_fail ..
    | none =>
        rw [met] at typed
        refine Reader.mirrors_bind_same fun _ => ?_
        refine Reader.mirrors_bind (mirrors_scalarAs Shape.ofTag? budget) fun shape source known => ?_
        apply Reader.mirrors_pure
        constructor
        · simpa [type] using others
        · rw [Json.Value.valuesOf_cons, if_pos type, List.map_cons, typed, known]
          rfl
  · rw [if_neg type]
    refine Reader.mirrors_bind_same fun _ => Reader.mirrors_bind_same fun source => ?_
    apply Reader.mirrors_pure
    constructor
    · simpa [type] using others
    · rw [Json.Value.valuesOf_cons, if_neg type]
      exact typed

/-- Leaving out a name before or after the values are read makes no difference. -/
theorem memberReadings_filter_ne
    (members : List (String × Value))
    (other : String) :
    (memberReadings members).filter (fun part => part.1 != other) =
      memberReadings (members.filter fun member => member.1 != other) := by
  induction members with
  | nil => rfl
  | cons member rest hypothesis =>
      obtain ⟨name, value⟩ := member
      rw [memberReadings, List.filter_cons, List.filter_cons, hypothesis]
      split <;> rfl

/-- What is made of the type and the other members is made of all members. -/
theorem ofJson?_of_finished?
    {pending : Pending}
    {members : List (String × Value)}
    {expression : Expr}
    (holds : pending.Of members)
    (finished : pending.finished? = some expression) :
    ofJson? (.object members.reverse) = some expression := by
  obtain ⟨others, typed⟩ := holds
  obtain ⟨shape, met, denoted⟩ := Option.bind_eq_some_iff.mp finished
  rw [met] at typed
  obtain ⟨tag, only, known⟩ := List.map_eq_singleton_iff.mp typed
  have single : valuesOf members.reverse "type" = [tag] := by
    rw [valuesOf, List.filter_reverse, List.map_reverse, ← valuesOf, only]
    rfl
  have required : Parts.required? (memberReadings members.reverse) "type" = some tag.reading := by
    rw [Parts.required?_eq_some_iff, Parts.named_memberReadings, single]
    rfl
  have same : (memberReadings members.reverse).filter (fun part => part.1 != "type") =
      memberReadings pending.reversed.reverse := by
    rw [memberReadings_filter_ne, List.filter_reverse, others]
  have tagged : Shape.ofTag? tag.reading.value = some shape := by
    rw [← known]
    cases tag <;> rfl
  rw [ofJson?, Parts.ofMembers?]
  simp only [required, tagged, same, Option.bind_eq_bind, Option.bind_some]
  exact denoted

/-! ## Arrays -/

/-- The items after the type are read in step with those of an array whose first item is
known. -/
theorem mirrors_itemsAfterType
    (inner : Json.TextReader Value)
    (first : Value) :
    (itemsAfterType inner).Mirrors
      (afterCommas (fun before => do pure ((← inner) :: before)) [first] >>= fun reversed =>
        mark ']' >>= fun _ => pure reversed.reverse)
      fun items whole => whole = first :: items := by
  have parts (reversed whole : List Value) (holds : whole = reversed ++ [first]) :
      (inner >>= fun item => pure (item :: reversed) : Json.TextReader (List Value)).Mirrors
        (inner >>= fun item => pure (item :: whole)) fun reversed whole =>
          whole = reversed ++ [first] :=
    Reader.mirrors_bind_same fun item => Reader.mirrors_pure (congrArg (item :: ·) holds)
  refine Reader.mirrors_bind (mirrors_afterCommas parts rfl) fun reversed whole holds => ?_
  refine Reader.mirrors_bind_same fun _ => Reader.mirrors_pure ?_
  rw [holds, List.reverse_append]
  rfl

/-- The topmost node of an array is read in step with the items of the array. -/
theorem mirrors_readArray (budget : Nat) :
    (readArray (value .strict budget)).Mirrors (items (value .strict budget))
      fun expression whole => ofJson? (.array whole) = some expression := by
  unfold readArray items
  refine Reader.mirrors_bind_same fun _ => Reader.mirrors_bind_same fun closed => ?_
  cases closed with
  | true => exact Reader.mirrors_fail ..
  | false =>
      refine Reader.mirrors_bind (mirrors_scalarAs Shape.ofTag? budget) fun shape tag known => ?_
      refine mirrors_fitting (mirrors_itemsAfterType _ tag) fun others whole expression same read => ?_
      have tagged : Shape.ofTag? tag.reading.value = some shape := by
        rw [← known]
        cases tag <;> rfl
      subst same
      obtain ⟨parts, placed, denoted⟩ := Option.bind_eq_some_iff.mp read
      rw [ofJson?, itemReadings, Parts.ofArray?]
      simp only [tagged, placed, Option.bind_eq_bind, Option.bind_some]
      exact denoted

/-! ## Expressions -/

/-- What starts with a brace is read as an object. -/
theorem run_jsonReader_of_object
    {input : List Char}
    (object : input.head? = some '{')
    (budget : Nat) :
    (jsonReader budget).run input =
      (within (fun inner => readObject (value .strict inner)) budget).run input := by
  simp [jsonReader, run_sees, object]

/-- What starts with a bracket is read as an array. -/
theorem run_jsonReader_of_array
    {input : List Char}
    (array : input.head? = some '[')
    (budget : Nat) :
    (jsonReader budget).run input =
      (within (fun inner => readArray (value .strict inner)) budget).run input := by
  simp [jsonReader, run_sees, array]

/-- Nothing else is an expression. -/
theorem run_jsonReader_of_scalar
    {input : List Char}
    (noObject : input.head? ≠ some '{')
    (noArray : input.head? ≠ some '[')
    (budget : Nat) :
    (jsonReader budget).run input =
      (scalar .strict >>= fun _ => (refuse .misfit : Json.TextReader Expr)).run input := by
  simp [jsonReader, run_sees, noObject, noArray]

/-- Where an expression is read, a plain value is read that denotes it. -/
theorem mirrors_jsonReader (budget : Nat) :
    (jsonReader budget).Mirrors (value .strict budget) fun expression source =>
      ofJson? source = some expression := by
  intro input rest expression ran
  by_cases object : input.head? = some '{'
  · rw [run_jsonReader_of_object object] at ran
    cases budget with
    | zero => contradiction
    | succ below =>
        have start : Pending.Of ⟨none, []⟩ [] := ⟨rfl, rfl⟩
        have streamed := mirrors_fitting
          (mirrors_members (fun name _ _ holds => mirrors_pendingMember below name holds) start)
          (fun _ _ _ holds finished => ofJson?_of_finished? holds finished)
        obtain ⟨members, read, denoted⟩ := streamed ran
        refine ⟨.object members.reverse, ?_, denoted⟩
        simp [value, valueBody, run_sees, object, read]
  by_cases array : input.head? = some '['
  · rw [run_jsonReader_of_array array] at ran
    cases budget with
    | zero => contradiction
    | succ below =>
        obtain ⟨whole, read, denoted⟩ := mirrors_readArray below ran
        refine ⟨.array whole, ?_, denoted⟩
        simp [value, valueBody, run_sees, array, read]
  · rw [run_jsonReader_of_scalar object array, Reader.run_bind] at ran
    split at ran <;> contradiction

end Expr
end ModelEquation
