import ModelEquation.Proofs.Equation.Outcome
import ModelEquation.Proofs.Expr.Agreement
import ModelEquation.Proofs.Expr.Rearranged
import ModelEquation.Proofs.Json.Unspaced

/-!
# Equations of rearranged trees

A member gives an equation its output, its expression or nothing, and it does not matter in which
order they are given. Texts that differ in blanks and in the order of members are read as the same
expression and as the same equation, if they are read as one at all.
-/

namespace ModelEquation
namespace Equation

open Json (Failure Name Orderless Tree Value bind_eq_ok_iff)
open Json.Tree (MemberRearranges)

/-! ## Members -/

/-- What a member gives to an equation. -/
inductive Part
  | output (text : String)
  | expression (expression : Expr)
  | nothing

/-- The part that is given under a name, or the failure to read it. -/
def partNamed (name : String) (item : Tree) : Except Failure Part :=
  if name = "output" then do
    let output ← item.scalarAs textOf?
    pure (.output output)
  else if name = "expression" then do
    let expression ← Expr.ofTree item
    pure (.expression expression)
  else do
    let _ ← item.value .lenient
    pure .nothing

/-- The part that a member gives. -/
def partOf (member : Name × Tree) : Except Failure Part := do
  partNamed (← member.1.read .strict) member.2

/-- The parts together with one more, which must not be there already. -/
def Pending.put? (before : Pending) : Part → Option Pending
  | .output text =>
      if before.output.isSome then none else some { before with output := some text }
  | .expression expression =>
      if before.expression.isSome then none
      else some { before with expression := some expression }
  | .nothing => some before

/-- A member is read where the part that it gives can be put. -/
theorem pendingStep_eq_ok_iff
    {before after : Pending}
    {member : Name × Tree} :
    pendingStep before member = .ok after ↔
      ∃ part, partOf member = .ok part ∧ before.put? part = some after := by
  simp only [pendingStep, partOf, bind_eq_ok_iff]
  cases named : member.1.read .strict with
  | error failure => simp
  | ok text =>
      simp only [Except.ok.injEq, exists_eq_left']
      by_cases output : text = "output"
      · cases met : before.output <;> cases found : member.2.scalarAs textOf? <;>
          simp [partNamed, output, Pending.put?, met, found]
      by_cases expression : text = "expression"
      · cases met : before.expression <;> cases denoted : Expr.ofTree member.2 <;>
          simp [partNamed, expression, Pending.put?, met, denoted]
      cases read : member.2.value .lenient <;>
        simp [partNamed, output, expression, Pending.put?, read]

/-- Two parts can be put in either order. -/
theorem Pending.put?_comm (before : Pending) (first second : Part) :
    (before.put? first).bind (·.put? second) = (before.put? second).bind (·.put? first) := by
  obtain ⟨output, expression⟩ := before
  cases output <;> cases expression <;> cases first <;> cases second <;> rfl

/-- A member of the same name gives the same part if its value is rearranged. -/
theorem partOf_of_rearranges
    {member other : Name × Tree}
    (rearranged : MemberRearranges member other)
    {part : Part}
    (read : partOf member = .ok part) :
    partOf other = .ok part := by
  obtain ⟨name, item⟩ := member
  obtain ⟨_, counterpart⟩ := other
  obtain ⟨rfl, rearranged⟩ := rearranged
  obtain ⟨text, named, more⟩ := bind_eq_ok_iff.mp read
  refine bind_eq_ok_iff.mpr ⟨text, named, ?_⟩
  dsimp only at more rearranged ⊢
  unfold partNamed at more ⊢
  split
  · next output =>
      rw [if_pos output, Expr.scalarAs_eq_of_rearranges _ rearranged] at more
      exact more
  · next noOutput =>
      rw [if_neg noOutput] at more
      split
      · next expression =>
          rw [if_pos expression] at more
          obtain ⟨result, denoted, same⟩ := bind_eq_ok_iff.mp more
          exact bind_eq_ok_iff.mpr ⟨result, Expr.ofTree_of_rearranges rearranged denoted, same⟩
      · next noExpression =>
          rw [if_neg noExpression] at more
          obtain ⟨value, known, same⟩ := bind_eq_ok_iff.mp more
          obtain ⟨kept, also, _⟩ := Expr.exists_keepsValue .lenient rearranged known
          exact bind_eq_ok_iff.mpr ⟨kept, also, same⟩

/-- Members of different names may change places, and those of one name are refused in any
order. -/
theorem orderless_pendingStep : Orderless pendingStep Eq MemberRearranges where
  refl _ := rfl
  trans := Eq.trans
  alike member := ⟨rfl, .refl member.2⟩
  follows := by
    rintro state _ next member other rfl rearranged stepped
    obtain ⟨part, read, put⟩ := pendingStep_eq_ok_iff.mp stepped
    exact ⟨next, pendingStep_eq_ok_iff.mpr ⟨part, partOf_of_rearranges rearranged read, put⟩, rfl⟩
  swaps := by
    intro state between next first second before after
    obtain ⟨part, read, put⟩ := pendingStep_eq_ok_iff.mp before
    obtain ⟨part', read', put'⟩ := pendingStep_eq_ok_iff.mp after
    obtain ⟨aside, now, later⟩ := Option.bind_eq_some_iff.mp <|
      (state.put?_comm part part').symm.trans (Option.bind_eq_some_iff.mpr ⟨between, put, put'⟩)
    exact ⟨aside, next, pendingStep_eq_ok_iff.mpr ⟨part', read', now⟩,
      pendingStep_eq_ok_iff.mpr ⟨part, read, later⟩, rfl⟩

/-! ## Equations -/

/-- The equation of a tree is that of a rearranged tree. -/
theorem ofTree_of_rearranges
    {tree other : Tree}
    (rearranged : tree.Rearranges other)
    {equation : Equation}
    (read : ofTree tree = .ok equation) :
    ofTree other = .ok equation := by
  cases rearranged with
  | scalar lexeme => exact read
  | array each =>
      cases each with
      | nil => exact read
      | cons first later =>
          obtain ⟨output, found, more⟩ := bind_eq_ok_iff.mp read
          rw [Expr.scalarAs_eq_of_rearranges _ first] at found
          refine bind_eq_ok_iff.mpr ⟨output, found, ?_⟩
          cases later with
          | nil => exact more
          | cons second rest =>
              obtain ⟨expression, denoted, ends⟩ := bind_eq_ok_iff.mp more
              refine bind_eq_ok_iff.mpr
                ⟨expression, Expr.ofTree_of_rearranges second denoted, ?_⟩
              cases rest <;> exact ends
  | object each permuted =>
      obtain ⟨pending, folded, fits⟩ := bind_eq_ok_iff.mp read
      obtain ⟨_, again, rfl⟩ := orderless_pendingStep.foldlM_of_rearranged each permuted folded
      exact bind_eq_ok_iff.mpr ⟨pending, again, fits⟩

end Equation

/-! ## Texts -/

namespace Json

/-- What a tree is read as within a limit does not change where the members of objects do. -/
theorem limited_ok_iff_of_rearranges
    {α : Type}
    {outcome : Tree → Except Failure α}
    (invariant : ∀ {tree other : Tree}, tree.Rearranges other → ∀ {value : α},
      outcome tree = .ok value → outcome other = .ok value)
    {tree other : Tree}
    (rearranged : tree.Rearranges other)
    (limit : Nat)
    (value : α) :
    (if limit < tree.depth then .error (.tooNested limit)
      else (outcome tree).mapError Fault.failure) = .ok value ↔
    (if limit < other.depth then .error (.tooNested limit)
      else (outcome other).mapError Fault.failure) = .ok value := by
  have unfailing (result : Except Failure α) :
      result.mapError Fault.failure = .ok value ↔ result = .ok value := by
    cases result <;> simp [Except.mapError]
  rw [rearranged.depth_eq]
  split
  · exact Iff.rfl
  · rw [unfailing, unfailing]
    exact ⟨invariant rearranged, invariant rearranged.symm⟩

end Json

/-- Texts whose trees differ only in the order of members, with blanks wherever they may stand, are
read as the same expressions and as the same equations under all options. -/
theorem ofJsonText_ok_iff_of_rearranges
    {tree other : Json.Tree}
    {text otherText : List Char}
    (writes : tree.Writes text)
    (otherWrites : other.Writes otherText)
    (rearranged : tree.Rearranges other)
    (options : Options) :
    (∀ expression, Expr.ofJsonText options text = .ok expression ↔
      Expr.ofJsonText options otherText = .ok expression) ∧
    ∀ equation, Equation.ofJsonText options text = .ok equation ↔
      Equation.ofJsonText options otherText = .ok equation := by
  constructor
  · intro expression
    rw [Expr.ofJsonText_of_writes writes, Expr.ofJsonText_of_writes otherWrites]
    exact Json.limited_ok_iff_of_rearranges Expr.ofTree_of_rearranges rearranged _ expression
  · intro equation
    rw [Equation.ofJsonText_of_writes writes, Equation.ofJsonText_of_writes otherWrites]
    exact Json.limited_ok_iff_of_rearranges Equation.ofTree_of_rearranges rearranged _ equation

/-- A variable with its type in front and an unknown member at the end. -/
def typeInFront : Json.Value :=
  .object [("type", .string "variable"), ("name", .string "a"),
    ("unknown", .object [("x", .null), ("y", .array [])])]

/-- The same variable with its members the other way round. -/
def typeAtEnd : Json.Value :=
  .object [("unknown", .object [("y", .array []), ("x", .null)]), ("name", .string "a"),
    ("type", .string "variable")]

/-- The type of a variable is found at the end of an indented text as in front of a compact one. -/
theorem ofJsonText_ok_iff_at_typeAtEnd :
    let text := typeInFront.compact.toList
    let otherText := typeAtEnd.pretty.toList
    typeInFront.tree.Writes text ∧ typeAtEnd.tree.Writes otherText ∧
      typeInFront.tree.Rearranges typeAtEnd.tree ∧
      Expr.ofJsonText {} text = .ok (.variable ⟨"a", none, none, []⟩) ∧
      (∀ expression, Expr.ofJsonText {} text = .ok expression ↔
        Expr.ofJsonText {} otherText = .ok expression) ∧
      ∀ equation, Equation.ofJsonText {} text = .ok equation ↔
        Equation.ofJsonText {} otherText = .ok equation := by
  intro text otherText
  have unknown : Json.Tree.Rearranges (Json.Value.object [("x", .null), ("y", .array [])]).tree
      (Json.Value.object [("y", .array []), ("x", .null)]).tree :=
    .object (.refl _) (.swap ..)
  have rearranged : typeInFront.tree.Rearranges typeAtEnd.tree :=
    .object (.cons (.refl _) (.cons (.refl _) (.cons unknown .nil))) (List.reverse_perm _).symm
  have seen : Expr.isNamed "a" (Expr.ofJsonText {} text) = true := by decide +kernel
  exact ⟨typeInFront.writes_compact, typeAtEnd.writes_pretty, rearranged,
    Expr.eq_of_isNamed seen,
    ofJsonText_ok_iff_of_rearranges typeInFront.writes_compact typeAtEnd.writes_pretty
      rearranged {}⟩

end ModelEquation
