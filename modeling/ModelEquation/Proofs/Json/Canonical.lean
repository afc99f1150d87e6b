import Mathlib.Data.String.Basic
import ModelEquation.Json.Value

/-!
# The values of a name

In canonical form the members of an object are ordered by name, and no name occurs twice. The
value of a name is the last one that was given to it, in canonical form; a name that does not
occur before does not occur afterwards.
-/

namespace ModelEquation
namespace Json
namespace Value

/-- The values of the members of a name, in the order of the members. -/
def valuesOf (members : List (String × Value)) (name : String) : List Value :=
  (members.filter fun member => member.1 == name).map Prod.snd

@[simp] theorem valuesOf_nil (name : String) : valuesOf [] name = [] := rfl

theorem valuesOf_cons
    (other name : String)
    (value : Value)
    (members : List (String × Value)) :
    valuesOf ((other, value) :: members) name =
      if other = name then value :: valuesOf members name else valuesOf members name := by
  by_cases same : other = name <;> simp [valuesOf, same]

/-- A name that no member has stands for nothing. -/
theorem valuesOf_eq_nil
    {members : List (String × Value)}
    {name : String}
    (absent : ∀ member ∈ members, member.1 ≠ name) :
    valuesOf members name = [] := by
  rw [valuesOf, List.map_eq_nil_iff, List.filter_eq_nil_iff]
  intro member present same
  exact absent member present (eq_of_beq same)

/-! ## Members ordered by name -/

/-- The members are ordered by name, and no name occurs twice. -/
def Ordered (members : List (String × Value)) : Prop :=
  members.Pairwise fun earlier later => earlier.1 < later.1

section Insertion

variable {members : List (String × Value)}

/-- Insertion brings in no name but the one that is inserted. -/
theorem name_of_mem_insertMember
    {name : String}
    {value : Value}
    {member : String × Value}
    (present : member ∈ insertMember name value members) :
    member.1 = name ∨ member ∈ members := by
  fun_induction insertMember name value members with
  | case1 => exact .inl (congrArg Prod.fst (List.mem_singleton.mp present))
  | case2 other kept rest first =>
      rcases List.mem_cons.mp present with rfl | later
      · exact .inl rfl
      · exact .inr later
  | case3 kept rest before =>
      rcases List.mem_cons.mp present with rfl | later
      · exact .inl rfl
      · exact .inr (List.mem_cons_of_mem _ later)
  | case4 other kept rest before different hypothesis =>
      rcases List.mem_cons.mp present with rfl | later
      · exact .inr (List.mem_cons_self ..)
      · exact (hypothesis later).imp_right (List.mem_cons_of_mem _)

/-- Members in order stay in order when one is inserted. -/
theorem Ordered.insertMember
    (ordered : Ordered members)
    (name : String)
    (value : Value) :
    Ordered (insertMember name value members) := by
  fun_induction Value.insertMember name value members with
  | case1 => exact List.pairwise_singleton ..
  | case2 other kept rest first =>
      refine List.Pairwise.cons (fun member present => ?_) ordered
      rcases List.mem_cons.mp present with rfl | later
      · exact first
      · exact lt_trans first (List.rel_of_pairwise_cons ordered later)
  | case3 kept rest before =>
      exact List.Pairwise.cons (fun member present => List.rel_of_pairwise_cons ordered present)
        ordered.of_cons
  | case4 other kept rest before different hypothesis =>
      refine List.Pairwise.cons (fun member present => ?_) (hypothesis ordered.of_cons)
      rcases name_of_mem_insertMember present with same | later
      · rw [same]
        exact lt_of_le_of_ne (not_lt.mp before) (Ne.symm different)
      · exact List.rel_of_pairwise_cons ordered later

/-- After an insertion the name has the value that was inserted, and nothing else changes. -/
theorem valuesOf_insertMember
    (ordered : Ordered members)
    (name other : String)
    (value : Value) :
    valuesOf (insertMember name value members) other =
      if name = other then [value] else valuesOf members other := by
  fun_induction insertMember name value members with
  | case1 => rw [valuesOf_cons, valuesOf_nil]
  | case2 first kept rest before =>
      rw [valuesOf_cons]
      split
      · next same =>
          rw [valuesOf_eq_nil]
          intro member present
          rcases List.mem_cons.mp present with rfl | later
          · exact same ▸ (ne_of_lt before).symm
          · exact same ▸ (ne_of_lt (lt_trans before
              (List.rel_of_pairwise_cons ordered later))).symm
      · rfl
  | case3 rest kept before =>
      rw [valuesOf_cons, valuesOf_cons]
      split
      · next same =>
          rw [valuesOf_eq_nil]
          intro member present
          exact same ▸ (ne_of_lt (List.rel_of_pairwise_cons ordered present)).symm
      · rfl
  | case4 first kept rest before different hypothesis =>
      rw [valuesOf_cons, valuesOf_cons, hypothesis ordered.of_cons]
      by_cases same : name = other
      · rw [if_pos same, if_neg (fun equal => different (same.trans equal.symm)), if_pos same]
      · rw [if_neg same, if_neg same]

end Insertion

/-- The last value of a name replaces the one that it had among the ordered members. -/
theorem valuesOf_canonicalMembers_onto
    {ordered : List (String × Value)}
    (sorted : Ordered ordered)
    (members : List (String × Value))
    (name : String) :
    valuesOf (canonicalMembers members ordered) name =
      ((valuesOf members name).getLast?.map fun value => [value.canonical]).getD
        (valuesOf ordered name) := by
  induction members generalizing ordered with
  | nil => rfl
  | cons member others hypothesis =>
      obtain ⟨first, value⟩ := member
      rw [canonicalMembers, hypothesis (sorted.insertMember ..), valuesOf_insertMember sorted,
        valuesOf_cons]
      by_cases same : first = name
      · rw [if_pos same, if_pos same, List.getLast?_cons]
        cases (valuesOf others name).getLast? <;> rfl
      · rw [if_neg same, if_neg same]

/-- In canonical form a name has the last of its values. -/
theorem valuesOf_canonicalMembers
    (members : List (String × Value))
    (name : String) :
    valuesOf (canonicalMembers members []) name =
      ((valuesOf members name).getLast?.map canonical).toList := by
  rw [valuesOf_canonicalMembers_onto .nil]
  cases (valuesOf members name).getLast? <;> rfl

/-- A name of which no member repeats has at most one value. -/
theorem length_valuesOf_le_one
    {members : List (String × Value)}
    (distinct : (members.map Prod.fst).Nodup)
    (name : String) :
    (valuesOf members name).length ≤ 1 := by
  induction members with
  | nil => exact Nat.zero_le _
  | cons member others hypothesis =>
      obtain ⟨first, value⟩ := member
      obtain ⟨absent, later⟩ := List.nodup_cons.mp distinct
      rw [valuesOf_cons]
      split
      · next same =>
          rw [valuesOf_eq_nil]
          · exact Nat.le_refl _
          · intro member present equal
            exact absent (List.mem_map.mpr ⟨member, present, equal.trans same.symm⟩)
      · exact hypothesis later

/-- Where no name repeats, each name keeps its value, in canonical form. -/
theorem valuesOf_canonicalMembers_of_nodup
    {members : List (String × Value)}
    (distinct : (members.map Prod.fst).Nodup)
    (name : String) :
    valuesOf (canonicalMembers members []) name = (valuesOf members name).map canonical := by
  have only := length_valuesOf_le_one distinct name
  rw [valuesOf_canonicalMembers]
  match valuesOf members name, only with
  | [], _ => rfl
  | [_], _ => rfl

/-- The last of the values of a repeated name is kept, in the place of the name. -/
example :
    (Value.object [("b", .null), ("a", .whole 1), ("b", .whole 2)]).canonical =
      .object [("a", .whole 1), ("b", .whole 2)] := by
  rfl

end Value
end Json
end ModelEquation
