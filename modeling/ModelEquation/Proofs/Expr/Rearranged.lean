import ModelEquation.Proofs.Expr.Canonical
import ModelEquation.Proofs.Expr.Outcome
import ModelEquation.Proofs.Json.Rearranged

/-!
# Expressions of rearranged trees

Where a tree has a value, a rearranged tree has one that says the same in every place, since a
part is only read if it occurs once. The members of the topmost node may be taken in any order,
and so a rearranged tree denotes the same expression.
-/

namespace ModelEquation
namespace Expr

open Json (Failure Lexis Name Orderless Tree Value bind_eq_ok_iff orMisfit)
open Json.Tree (ItemsRearrange MemberRearranges MembersRearrange)
open Json.Value (itemReadings memberReadings)

/-! ## Parts in another order -/

theorem Reading.Keeps.trans
    {first second third : Reading}
    (before : first.Keeps second)
    (after : second.Keeps third) :
    first.Keeps third where
  outline := after.outline.trans before.outline
  symbol text found := after.symbol text (before.symbol text found)
  expression result found := after.expression result (before.expression result found)
  list result found := after.list result (before.list result found)
  member result found := after.member result (before.member result found)
  chain result found := after.chain result (before.chain result found)

namespace Parts.Keeps

variable {first second third : Parts}

theorem refl (parts : Parts) : parts.Keeps parts where
  absent _ := id
  only _ reading same := ⟨reading, same, .refl reading⟩

theorem trans
    (before : first.Keeps second)
    (after : second.Keeps third) :
    first.Keeps third where
  absent name none := after.absent name (before.absent name none)
  only name reading single := by
    obtain ⟨kept, still, same⟩ := before.only name reading single
    obtain ⟨last, also, again⟩ := after.only name kept still
    exact ⟨last, also, same.trans again⟩

/-- A part that is kept in front of parts that are kept. -/
theorem cons
    (keeps : first.Keeps second)
    (name : String)
    {reading kept : Reading}
    (same : reading.Keeps kept) :
    Parts.Keeps ((name, reading) :: first) ((name, kept) :: second) where
  absent other none := by
    rw [named_cons] at none ⊢
    split at none
    · contradiction
    · rw [if_neg ‹_›]
      exact keeps.absent other none
  only other single known := by
    rw [named_cons] at known ⊢
    split at known
    · obtain ⟨rfl, none⟩ := List.cons.inj known
      rw [if_pos ‹_›, keeps.absent other none]
      exact ⟨kept, rfl, same⟩
    · rw [if_neg ‹_›]
      exact keeps.only other single known

/-- No part depends on the order of the parts. -/
theorem of_perm (permuted : first.Perm second) : first.Keeps second := by
  have named (name : String) : (first.named name).Perm (second.named name) :=
    (permuted.filter _).map _
  constructor
  · intro name none
    have same := named name
    rw [none] at same
    exact same.nil_eq.symm
  · intro name reading single
    have same := named name
    rw [single] at same
    exact ⟨reading, (List.perm_singleton.mp same.symm), .refl reading⟩

end Parts.Keeps

theorem memberReadings_eq_map (members : List (String × Value)) :
    memberReadings members = members.map fun member => (member.1, member.2.reading) := by
  induction members with
  | nil => rfl
  | cons member others hypothesis => rw [memberReadings, hypothesis, List.map_cons]

/-- Members say in another order what they say in the first one. -/
theorem keeps_of_perm
    {members others : List (String × Value)}
    (permuted : members.Perm others) :
    Parts.Keeps (memberReadings members) (memberReadings others) := by
  rw [memberReadings_eq_map, memberReadings_eq_map]
  exact .of_perm (permuted.map _)

/-! ## Values -/

/-- The second value says whatever the first one says, and is empty if that is. -/
structure KeepsValue (value other : Value) : Prop where
  reading : value.reading.Keeps other.reading
  empty : value = .object [] → other = .object []

theorem value_reading (value : Value) : value.reading.value = value := by
  cases value <;> rfl

/-- A member of the same name whose value says the same. -/
def KeepsMember (member other : String × Value) : Prop :=
  member.1 = other.1 ∧ KeepsValue member.2 other.2

theorem KeepsValue.refl (value : Value) : KeepsValue value value :=
  ⟨.refl _, id⟩

theorem forall₂_itemReadings
    {items others : List Value}
    (each : List.Forall₂ KeepsValue items others) :
    List.Forall₂ Reading.Keeps (itemReadings items) (itemReadings others) := by
  induction each with
  | nil => exact .nil
  | cons first _ hypothesis => exact .cons first.reading hypothesis

/-- An array keeps what its items keep, place by place. -/
theorem keepsValue_array
    {items others : List Value}
    (each : List.Forall₂ KeepsValue items others) :
    KeepsValue (.array items) (.array others) where
  empty same := nomatch same
  reading := by
    have readings := forall₂_itemReadings each
    simp only [Value.reading]
    apply keeps_ofNode
    · rfl
    · exact fun _ found => nomatch found
    · exact keepsSplit_ofArray? readings
    · exact fun _ => mapM_of_keeps (fun _ _ same => same.expression) readings
    · exact fun _ => mapM_of_keeps (fun _ _ same => same.member) readings

/-- Members keep what their values keep, name by name. -/
theorem keeps_memberReadings
    {members others : List (String × Value)}
    (each : List.Forall₂ KeepsMember members others) :
    Parts.Keeps (memberReadings members) (memberReadings others) := by
  induction each with
  | nil => exact .refl _
  | @cons member other _ _ first _ hypothesis =>
      obtain ⟨name, value⟩ := member
      obtain ⟨_, kept⟩ := other
      obtain ⟨rfl, keeps⟩ := first
      exact hypothesis.cons name keeps.reading

/-- An object that stands for a symbol has one member, and so there is only one order. -/
theorem symbolOf?_object
    {members between others : List (String × Value)}
    (each : List.Forall₂ KeepsMember members between)
    (permuted : between.Perm others)
    {symbol : String}
    (found : symbolOf? (.object members) = some symbol) :
    symbolOf? (.object others) = some symbol := by
  have alone (value : Value) (single : members = [(symbol, value)]) :
      ∃ kept, others = [(symbol, kept)] ∧ KeepsValue value kept := by
    subst single
    obtain ⟨⟨_, kept⟩, rest, ⟨rfl, same⟩, none, rfl⟩ := List.forall₂_cons_left_iff.mp each
    cases none
    exact ⟨kept, List.perm_singleton.mp permuted.symm, same⟩
  unfold symbolOf? at found
  split at found
  · next same => exact nomatch same
  · next name same =>
      cases found
      obtain ⟨kept, rfl, keeps⟩ := alone .null (Value.object.inj same)
      have same : kept.outline = .null := by
        rw [← value_reading kept, keeps.reading.outline]
        rfl
      rw [Json.Value.outline_eq_null_iff.mp same]
      rfl
  · next name same =>
      cases found
      obtain ⟨kept, rfl, keeps⟩ := alone (.object []) (Value.object.inj same)
      rw [keeps.empty rfl]
      rfl
  · contradiction

/-- An object keeps what its members keep, in any order. -/
theorem keepsValue_object
    {members between others : List (String × Value)}
    (each : List.Forall₂ KeepsMember members between)
    (permuted : between.Perm others) :
    KeepsValue (.object members) (.object others) where
  empty same := by
    cases same
    cases each
    rw [permuted.nil_eq]
  reading := by
    simp only [Value.reading]
    apply keeps_ofNode
    · rfl
    · exact fun _ => symbolOf?_object each permuted
    · exact keepsSplit_ofMembers? ((keeps_memberReadings each).trans (keeps_of_perm permuted))
    · exact fun _ => id
    · exact fun _ => id

mutual

/-- Where a tree has a value, a rearranged tree has one that says the same. The members of an object
are first replaced in their places and then moved. -/
theorem exists_keepsValue
    (lexis : Lexis) :
    {tree other : Tree} → tree.Rearranges other → {value : Value} →
      tree.value lexis = .ok value →
      ∃ kept, other.value lexis = .ok kept ∧ KeepsValue value kept
  | _, _, .scalar _, value, read => ⟨value, read, .refl value⟩
  | _, _, .array each, _, read => by
      obtain ⟨values, known, same⟩ := bind_eq_ok_iff.mp read
      cases same
      obtain ⟨results, also, keeps⟩ := exists_keepsValues lexis each known
      exact ⟨.array results, bind_eq_ok_iff.mpr ⟨results, also, rfl⟩, keepsValue_array keeps⟩
  | _, _, .object each permuted, _, read => by
      obtain ⟨values, known, same⟩ := bind_eq_ok_iff.mp read
      cases same
      obtain ⟨between, replaced, keeps⟩ := exists_keepsMembers lexis each known
      rw [Tree.memberValues_eq_mapM] at replaced
      obtain ⟨results, moved, order⟩ := Json.mapM_of_perm permuted replaced
      rw [← Tree.memberValues_eq_mapM] at moved
      exact ⟨.object results, bind_eq_ok_iff.mpr ⟨results, moved, rfl⟩,
        keepsValue_object keeps order⟩

/-- Items that are rearranged inside are read as values that keep what the others say. -/
theorem exists_keepsValues
    (lexis : Lexis) :
    {items others : List Tree} → ItemsRearrange items others → {values : List Value} →
      Tree.itemValues lexis items = .ok values →
      ∃ results, Tree.itemValues lexis others = .ok results ∧
        List.Forall₂ KeepsValue values results
  | _, _, .nil, _, read => by
      cases read
      exact ⟨[], rfl, .nil⟩
  | _, _, .cons first later, _, read => by
      obtain ⟨value, known, more⟩ := bind_eq_ok_iff.mp read
      obtain ⟨values, follow, same⟩ := bind_eq_ok_iff.mp more
      cases same
      obtain ⟨kept, now, keeps⟩ := exists_keepsValue lexis first known
      obtain ⟨results, then', each⟩ := exists_keepsValues lexis later follow
      exact ⟨kept :: results, bind_eq_ok_iff.mpr ⟨kept, now, bind_eq_ok_iff.mpr
        ⟨results, then', rfl⟩⟩, .cons keeps each⟩

theorem exists_keepsMembers
    (lexis : Lexis) :
    {members others : List (Name × Tree)} → MembersRearrange members others →
      {values : List (String × Value)} → Tree.memberValues lexis members = .ok values →
      ∃ results, Tree.memberValues lexis others = .ok results ∧
        List.Forall₂ KeepsMember values results
  | _, _, .nil, _, read => by
      cases read
      exact ⟨[], rfl, .nil⟩
  | _, _, .cons first later, _, read => by
      obtain ⟨text, named, more⟩ := bind_eq_ok_iff.mp read
      obtain ⟨value, known, more⟩ := bind_eq_ok_iff.mp more
      obtain ⟨values, follow, same⟩ := bind_eq_ok_iff.mp more
      cases same
      obtain ⟨kept, now, keeps⟩ := exists_keepsValue lexis first known
      obtain ⟨results, then', each⟩ := exists_keepsMembers lexis later follow
      exact ⟨(text, kept) :: results, bind_eq_ok_iff.mpr ⟨text, named, bind_eq_ok_iff.mpr
        ⟨kept, now, bind_eq_ok_iff.mpr ⟨results, then', rfl⟩⟩⟩, .cons ⟨rfl, keeps⟩ each⟩

end

/-! ## Topmost nodes -/

/-- Only scalars have a wanted form. -/
theorem scalarAs_eq_of_rearranges
    {α : Type}
    (form : Value → Option α)
    {tree other : Tree}
    (rearranged : tree.Rearranges other) :
    tree.scalarAs form = other.scalarAs form := by
  cases rearranged <;> rfl

/-- A member of the topmost node is its type, or it is added to the others. -/
theorem pendingStep_eq_ok_iff
    {before after : Pending}
    {name : Name}
    {item : Tree} :
    pendingStep before (name, item) = .ok after ↔
      ∃ text, name.read .strict = .ok text ∧
        ((text = "type" ∧ before.shape = none ∧
            ∃ shape, item.scalarAs Shape.ofTag? = .ok shape ∧
              after = { before with shape := some shape }) ∨
          (text ≠ "type" ∧ ∃ value, item.value .strict = .ok value ∧
            after = { before with reversed := (text, value) :: before.reversed })) := by
  rw [pendingStep, bind_eq_ok_iff]
  refine exists_congr fun text => and_congr_right fun _ => ?_
  by_cases type : text = "type"
  · cases met : before.shape with
    | some shape => simp [type]
    | none =>
        rw [if_pos type, if_neg (by simp), bind_eq_ok_iff]
        simp [type, pure, Except.pure, eq_comm]
  · rw [if_neg type, bind_eq_ok_iff]
    simp [type, pure, Except.pure, eq_comm]

/-- The later members say whatever the earlier ones say. -/
def Pending.Serves (earlier later : Pending) : Prop :=
  earlier.shape = later.shape ∧
    Parts.Keeps (memberReadings earlier.reversed) (memberReadings later.reversed)

/-- The type and the other members may come in any order. -/
theorem orderless_pendingStep : Orderless pendingStep Pending.Serves MemberRearranges where
  refl state := ⟨rfl, .refl _⟩
  trans before after := ⟨before.1.trans after.1, before.2.trans after.2⟩
  alike member := ⟨rfl, .refl member.2⟩
  follows := by
    rintro state other next ⟨name, item⟩ ⟨_, counterpart⟩ ⟨shapes, keeps⟩ ⟨rfl, rearranged⟩ stepped
    obtain ⟨text, named, kind⟩ := pendingStep_eq_ok_iff.mp stepped
    rcases kind with ⟨type, unmet, shape, found, rfl⟩ | ⟨noType, value, read, rfl⟩
    · rw [scalarAs_eq_of_rearranges _ rearranged] at found
      exact ⟨{ other with shape := some shape }, pendingStep_eq_ok_iff.mpr
        ⟨text, named, .inl ⟨type, shapes ▸ unmet, shape, found, rfl⟩⟩, rfl, keeps⟩
    · obtain ⟨kept, also, same⟩ := exists_keepsValue .strict rearranged read
      exact ⟨{ other with reversed := (text, kept) :: other.reversed }, pendingStep_eq_ok_iff.mpr
        ⟨text, named, .inr ⟨noType, kept, also, rfl⟩⟩, shapes, keeps.cons text same.reading⟩
  swaps := by
    rintro state between next ⟨name, item⟩ ⟨name', item'⟩ before after
    obtain ⟨text, named, kind⟩ := pendingStep_eq_ok_iff.mp before
    obtain ⟨text', named', kind'⟩ := pendingStep_eq_ok_iff.mp after
    rcases kind with ⟨type, unmet, shape, found, rfl⟩ | ⟨noType, value, read, rfl⟩ <;>
      rcases kind' with ⟨type', unmet', shape', found', rfl⟩ | ⟨noType', value', read', rfl⟩
    · contradiction
    · exact ⟨{ state with reversed := (text', value') :: state.reversed }, _,
        pendingStep_eq_ok_iff.mpr ⟨text', named', .inr ⟨noType', value', read', rfl⟩⟩,
        pendingStep_eq_ok_iff.mpr ⟨text, named, .inl ⟨type, unmet, shape, found, rfl⟩⟩,
        rfl, .refl _⟩
    · exact ⟨{ state with shape := some shape' }, _,
        pendingStep_eq_ok_iff.mpr ⟨text', named', .inl ⟨type', unmet', shape', found', rfl⟩⟩,
        pendingStep_eq_ok_iff.mpr ⟨text, named, .inr ⟨noType, value, read, rfl⟩⟩,
        rfl, .refl _⟩
    · exact ⟨{ state with reversed := (text', value') :: state.reversed }, _,
        pendingStep_eq_ok_iff.mpr ⟨text', named', .inr ⟨noType', value', read', rfl⟩⟩,
        pendingStep_eq_ok_iff.mpr ⟨text, named, .inr ⟨noType, value, read, rfl⟩⟩,
        rfl, keeps_of_perm (.swap ..)⟩

/-- A form is accepted exactly if it is there. -/
theorem orMisfit_eq_ok_iff
    {α : Type}
    {form : Option α}
    {result : α} :
    orMisfit form = .ok result ↔ form = some result := by
  cases form <;> simp [orMisfit, pure, Except.pure]

/-- What is made of the members that have been read is made of others that say the same. Members
are collected backwards, which is one more order in which nothing is lost. -/
theorem Pending.Serves.finished?
    {earlier later : Pending}
    (serves : earlier.Serves later)
    {expression : Expr}
    (finished : earlier.finished? = some expression) :
    later.finished? = some expression := by
  obtain ⟨shapes, keeps⟩ := serves
  obtain ⟨shape, met, denoted⟩ := Option.bind_eq_some_iff.mp finished
  have forwards : Parts.Keeps (memberReadings earlier.reversed.reverse)
      (memberReadings later.reversed.reverse) :=
    (keeps_of_perm (List.reverse_perm _)).trans <| keeps.trans <|
      keeps_of_perm (List.reverse_perm _).symm
  exact Option.bind_eq_some_iff.mpr ⟨shape, shapes ▸ met, forwards.ofParts? denoted⟩

/-- Items whose values are kept denote the same expression. -/
theorem ofItems?_of_keeps
    {shape : Shape}
    {items others : List Value}
    (each : List.Forall₂ KeepsValue items others)
    {expression : Expr}
    (read : ofItems? shape items = some expression) :
    ofItems? shape others = some expression := by
  obtain ⟨parts, placed, denoted⟩ := Option.bind_eq_some_iff.mp read
  obtain ⟨kept, still, keeps⟩ := keeps_ofItems? (forall₂_itemReadings each) placed
  exact Option.bind_eq_some_iff.mpr ⟨kept, still, keeps.ofParts? denoted⟩

/-- The expression of a tree is that of a rearranged tree. -/
theorem ofTree_of_rearranges
    {tree other : Tree}
    (rearranged : tree.Rearranges other)
    {expression : Expr}
    (read : ofTree tree = .ok expression) :
    ofTree other = .ok expression := by
  cases rearranged with
  | scalar lexeme => exact read
  | array each =>
      cases each with
      | nil => exact read
      | cons first later =>
          obtain ⟨shape, tagged, more⟩ := bind_eq_ok_iff.mp read
          obtain ⟨values, known, fits⟩ := bind_eq_ok_iff.mp more
          rw [← Tree.itemValues_eq_mapM] at known
          obtain ⟨results, also, keeps⟩ := exists_keepsValues .strict later known
          rw [Tree.itemValues_eq_mapM] at also
          rw [scalarAs_eq_of_rearranges _ first] at tagged
          exact bind_eq_ok_iff.mpr ⟨shape, tagged, bind_eq_ok_iff.mpr ⟨results, also,
            orMisfit_eq_ok_iff.mpr (ofItems?_of_keeps keeps (orMisfit_eq_ok_iff.mp fits))⟩⟩
  | object each permuted =>
      obtain ⟨pending, folded, fits⟩ := bind_eq_ok_iff.mp read
      obtain ⟨reached, again, serves⟩ :=
        orderless_pendingStep.foldlM_of_rearranged each permuted folded
      exact bind_eq_ok_iff.mpr ⟨reached, again,
        orMisfit_eq_ok_iff.mpr (serves.finished? (orMisfit_eq_ok_iff.mp fits))⟩

end Expr
end ModelEquation
