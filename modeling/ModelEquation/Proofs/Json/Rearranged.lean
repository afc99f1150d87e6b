import Mathlib.Data.List.Perm.Basic
import ModelEquation.Proofs.Json.Outcome

/-!
# Trees with rearranged members

Two trees are rearrangements of each other if they differ in nothing but the order of the members
of objects, at any depth. A fold over members comes to the same end for both where its step may be
taken in any order and for either of two members.
-/

namespace ModelEquation
namespace Json
namespace Tree

mutual

/-- The second tree is the first one with the members of objects in another order. -/
inductive Rearranges : Tree → Tree → Prop
  | scalar (lexeme : Scalar) : Rearranges (.scalar lexeme) (.scalar lexeme)
  | array {items others : List Tree}
      (each : ItemsRearrange items others) :
      Rearranges (.array items) (.array others)
  | object {members between others : List (Name × Tree)}
      (each : MembersRearrange members between)
      (permuted : between.Perm others) :
      Rearranges (.object members) (.object others)

/-- Each item of an array is rearranged in its place. -/
inductive ItemsRearrange : List Tree → List Tree → Prop
  | nil : ItemsRearrange [] []
  | cons {item other : Tree} {items others : List Tree}
      (first : Rearranges item other)
      (later : ItemsRearrange items others) :
      ItemsRearrange (item :: items) (other :: others)

/-- Each member of an object keeps its name, and its value is rearranged. -/
inductive MembersRearrange : List (Name × Tree) → List (Name × Tree) → Prop
  | nil : MembersRearrange [] []
  | cons {name : Name} {item other : Tree} {members others : List (Name × Tree)}
      (first : Rearranges item other)
      (later : MembersRearrange members others) :
      MembersRearrange ((name, item) :: members) ((name, other) :: others)

end

/-- A member with the same name whose value is rearranged. -/
def MemberRearranges (member other : Name × Tree) : Prop :=
  member.1 = other.1 ∧ member.2.Rearranges other.2

/-- Members are rearranged inside place by place. -/
theorem membersRearrange_iff_forall₂
    {members others : List (Name × Tree)} :
    MembersRearrange members others ↔ List.Forall₂ MemberRearranges members others := by
  constructor
  · intro each
    induction members generalizing others with
    | nil =>
        cases each
        exact .nil
    | cons member rest hypothesis =>
        cases each with
        | cons first later => exact .cons ⟨rfl, first⟩ (hypothesis later)
  · intro each
    induction each with
    | nil => exact .nil
    | @cons member other members others both _ hypothesis =>
        obtain ⟨name, item⟩ := member
        obtain ⟨_, item'⟩ := other
        obtain ⟨rfl, first⟩ := both
        exact .cons first hypothesis

mutual

/-- Every tree is rearranged to itself. -/
theorem Rearranges.refl : (tree : Tree) → tree.Rearranges tree
  | .scalar lexeme => .scalar lexeme
  | .array items => .array (ItemsRearrange.refl items)
  | .object members => .object (MembersRearrange.refl members) (.refl members)

theorem ItemsRearrange.refl : (items : List Tree) → ItemsRearrange items items
  | [] => .nil
  | item :: rest => .cons (Rearranges.refl item) (ItemsRearrange.refl rest)

theorem MembersRearrange.refl :
    (members : List (Name × Tree)) → MembersRearrange members members
  | [] => .nil
  | (_, item) :: rest => .cons (Rearranges.refl item) (MembersRearrange.refl rest)

end

mutual

/-- The order of the members can be changed back. -/
theorem Rearranges.symm : {tree other : Tree} → tree.Rearranges other → other.Rearranges tree
  | _, _, .scalar lexeme => .scalar lexeme
  | _, _, .array each => .array each.symm
  | _, _, .object each permuted => by
      obtain ⟨between, back, same⟩ := List.perm_comp_forall₂ permuted.symm
        (membersRearrange_iff_forall₂.mp each.symm)
      exact .object (membersRearrange_iff_forall₂.mpr back) same

theorem ItemsRearrange.symm :
    {items others : List Tree} → ItemsRearrange items others → ItemsRearrange others items
  | _, _, .nil => .nil
  | _, _, .cons first later => .cons first.symm later.symm

theorem MembersRearrange.symm :
    {members others : List (Name × Tree)} → MembersRearrange members others →
      MembersRearrange others members
  | _, _, .nil => .nil
  | _, _, .cons first later => .cons first.symm later.symm

end

/-- Members nest as deep in any order. -/
theorem memberDepth_of_perm
    {members others : List (Name × Tree)}
    (permuted : members.Perm others) :
    memberDepth members = memberDepth others := by
  induction permuted with
  | nil => rfl
  | cons member _ hypothesis => rw [memberDepth, memberDepth, hypothesis]
  | swap first second rest =>
      simp only [memberDepth]
      omega
  | trans _ _ before after => rw [before, after]

mutual

/-- A rearranged tree is as deep as before. -/
theorem Rearranges.depth_eq : {tree other : Tree} → tree.Rearranges other → tree.depth = other.depth
  | _, _, .scalar _ => rfl
  | _, _, .array each => congrArg (· + 1) each.depth_eq
  | _, _, .object each permuted =>
      congrArg (· + 1) (each.depth_eq.trans (memberDepth_of_perm permuted))

theorem ItemsRearrange.depth_eq :
    {items others : List Tree} → ItemsRearrange items others → itemDepth items = itemDepth others
  | _, _, .nil => rfl
  | _, _, .cons first later => congrArg₂ max first.depth_eq later.depth_eq

theorem MembersRearrange.depth_eq :
    {members others : List (Name × Tree)} → MembersRearrange members others →
      memberDepth members = memberDepth others
  | _, _, .nil => rfl
  | _, _, .cons first later => congrArg₂ max first.depth_eq later.depth_eq

end

end Tree

/-! ## Folds in any order -/

/-- A sequence succeeds exactly if both of its steps do. -/
theorem bind_eq_ok_iff
    {ε α β : Type}
    {first : Except ε α}
    {next : α → Except ε β}
    {result : β} :
    first >>= next = .ok result ↔ ∃ value, first = .ok value ∧ next value = .ok result := by
  constructor
  · intro known
    cases first with
    | error failure => contradiction
    | ok value => exact ⟨value, rfl, known⟩
  · rintro ⟨value, rfl, known⟩
    exact known

/-- Parts are followed exactly if the first one is, and the others from there. -/
theorem foldlM_cons_eq_ok_iff
    {ε σ ι : Type}
    {step : σ → ι → Except ε σ}
    {state next : σ}
    {part : ι}
    {parts : List ι} :
    (part :: parts).foldlM step state = .ok next ↔
      ∃ between, step state part = .ok between ∧ parts.foldlM step between = .ok next := by
  rw [List.foldlM_cons, bind_eq_ok_iff]

/-- A step over parts which succeeds for a related part as well and in any order of two parts. What
it comes to then may be another state that serves for the first one. -/
structure Orderless
    {ε σ ι : Type}
    (step : σ → ι → Except ε σ)
    (serves : σ → σ → Prop)
    (related : ι → ι → Prop) : Prop where
  refl (state : σ) : serves state state
  trans {first second third : σ} : serves first second → serves second third → serves first third
  alike (part : ι) : related part part
  follows {state other next : σ} {part counterpart : ι} :
    serves state other → related part counterpart → step state part = .ok next →
      ∃ reached, step other counterpart = .ok reached ∧ serves next reached
  swaps {state between next : σ} {first second : ι} :
    step state first = .ok between → step between second = .ok next →
      ∃ aside reached, step state second = .ok aside ∧ step aside first = .ok reached ∧
        serves next reached

namespace Orderless

variable {ε σ ι : Type} {step : σ → ι → Except ε σ} {serves : σ → σ → Prop}
  {related : ι → ι → Prop} {state other next : σ} {parts others : List ι}

/-- Related parts in the same order. -/
theorem foldlM_of_forall₂
    (orderless : Orderless step serves related)
    (each : List.Forall₂ related parts others)
    (start : serves state other)
    (folded : parts.foldlM step state = .ok next) :
    ∃ reached, others.foldlM step other = .ok reached ∧ serves next reached := by
  induction each generalizing state other with
  | nil =>
      cases folded
      exact ⟨other, rfl, start⟩
  | cons first _ hypothesis =>
      obtain ⟨between, stepped, later⟩ := foldlM_cons_eq_ok_iff.mp folded
      obtain ⟨aside, taken, middle⟩ := orderless.follows start first stepped
      obtain ⟨reached, ended, holds⟩ := hypothesis middle later
      exact ⟨reached, foldlM_cons_eq_ok_iff.mpr ⟨aside, taken, ended⟩, holds⟩

/-- The same parts in another order. The two states run side by side. Where two parts change
places, the state behind them serves for the one that was reached before, and what is left of
the parts is followed from there. -/
theorem foldlM_of_perm
    (orderless : Orderless step serves related)
    (permuted : parts.Perm others)
    (start : serves state other)
    (folded : parts.foldlM step state = .ok next) :
    ∃ reached, others.foldlM step other = .ok reached ∧ serves next reached := by
  induction permuted generalizing state other next with
  | nil => exact orderless.foldlM_of_forall₂ .nil start folded
  | cons part _ hypothesis =>
      obtain ⟨between, stepped, later⟩ := foldlM_cons_eq_ok_iff.mp folded
      obtain ⟨aside, taken, middle⟩ := orderless.follows start (orderless.alike part) stepped
      obtain ⟨reached, ended, holds⟩ := hypothesis middle later
      exact ⟨reached, foldlM_cons_eq_ok_iff.mpr ⟨aside, taken, ended⟩, holds⟩
  | swap second first rest =>
      obtain ⟨between, stepped, more⟩ := foldlM_cons_eq_ok_iff.mp folded
      obtain ⟨both, following, later⟩ := foldlM_cons_eq_ok_iff.mp more
      obtain ⟨aside, swapped, ahead, behind, same⟩ := orderless.swaps stepped following
      obtain ⟨beside, taken, middle⟩ := orderless.follows start (orderless.alike second) ahead
      obtain ⟨last, also, holds⟩ := orderless.follows middle (orderless.alike first) behind
      obtain ⟨reached, ended, serves⟩ := orderless.foldlM_of_forall₂
        (List.forall₂_same.mpr fun part _ => orderless.alike part) (orderless.trans same holds) later
      exact ⟨reached, foldlM_cons_eq_ok_iff.mpr ⟨beside, taken,
        foldlM_cons_eq_ok_iff.mpr ⟨last, also, ended⟩⟩, serves⟩
  | trans _ _ before after =>
      obtain ⟨aside, taken, middle⟩ := before (orderless.refl state) folded
      obtain ⟨reached, ended, holds⟩ := after start taken
      exact ⟨reached, ended, orderless.trans middle holds⟩

end Orderless

open Json.Tree (MemberRearranges MembersRearrange)
open TextReader (addPart foldlM_addPart)

/-- The members of an object that is rearranged. -/
theorem Orderless.foldlM_of_rearranged
    {ε σ : Type}
    {step : σ → Name × Tree → Except ε σ}
    {serves : σ → σ → Prop}
    {start next : σ}
    {members between others : List (Name × Tree)}
    (orderless : Orderless step serves MemberRearranges)
    (each : MembersRearrange members between)
    (permuted : between.Perm others)
    (folded : members.foldlM step start = .ok next) :
    ∃ reached, others.foldlM step start = .ok reached ∧ serves next reached := by
  obtain ⟨middle, replaced, first⟩ := orderless.foldlM_of_forall₂
    (Tree.membersRearrange_iff_forall₂.mp each) (orderless.refl start) folded
  obtain ⟨reached, moved, second⟩ :=
    orderless.foldlM_of_perm permuted (orderless.refl start) replaced
  exact ⟨reached, moved, orderless.trans first second⟩

/-- Collecting parts in any order collects the same parts. -/
theorem orderless_addPart
    {α ι : Type}
    (outcome : ι → Except Failure α) :
    Orderless (addPart outcome) List.Perm Eq where
  refl := .refl
  trans := .trans
  alike _ := rfl
  follows := by
    rintro state other next part _ permuted rfl added
    obtain ⟨value, read, same⟩ := bind_eq_ok_iff.mp added
    cases same
    exact ⟨value :: other, bind_eq_ok_iff.mpr ⟨value, read, rfl⟩, permuted.cons value⟩
  swaps := by
    intro state between next first second before after
    obtain ⟨value, read, same⟩ := bind_eq_ok_iff.mp before
    cases same
    obtain ⟨other, also, same⟩ := bind_eq_ok_iff.mp after
    cases same
    exact ⟨other :: state, value :: other :: state, bind_eq_ok_iff.mpr ⟨other, also, rfl⟩,
      bind_eq_ok_iff.mpr ⟨value, read, rfl⟩, .swap ..⟩

/-- Parts that can be read one after the other can be read in any order. -/
theorem mapM_of_perm
    {α ι : Type}
    {outcome : ι → Except Failure α}
    {parts others : List ι}
    (permuted : parts.Perm others)
    {values : List α}
    (read : parts.mapM outcome = .ok values) :
    ∃ results, others.mapM outcome = .ok results ∧ values.Perm results := by
  have folded : parts.foldlM (addPart outcome) [] = .ok (values.reverse ++ []) := by
    rw [foldlM_addPart, read]
    rfl
  obtain ⟨reversed, reached, same⟩ :=
    (orderless_addPart outcome).foldlM_of_perm permuted (.refl _) folded
  rw [foldlM_addPart] at reached
  obtain ⟨results, also, ended⟩ := bind_eq_ok_iff.mp reached
  cases ended
  simp only [List.append_nil] at same
  exact ⟨results, also, (List.reverse_perm values).symm.trans
    (same.trans (List.reverse_perm results))⟩

end Json
end ModelEquation
