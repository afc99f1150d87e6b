import ModelEquation.Equation.JsonReader
import ModelEquation.Proofs.Expr.Outcome

/-!
# Equations of trees

What is read of a text as an equation, and how reading it fails, is a matter of the tree that
the text writes. The members are taken as they come, as the reader does it; what stands under a
name that is not known is only passed over.
-/

namespace ModelEquation
namespace Equation

open Json (Failure Name Tree orMisfit)

/-- Reads a member of an equation, going on from those before it. -/
def pendingStep (before : Pending) (member : Name × Tree) : Except Failure Pending := do
  let name ← member.1.read .strict
  if name = "output" then
    if before.output.isSome then
      .error .misfit
    else
      let output ← member.2.scalarAs textOf?
      pure { before with output := some output }
  else if name = "expression" then
    if before.expression.isSome then
      .error .misfit
    else
      let expression ← Expr.ofTree member.2
      pure { before with expression := some expression }
  else
    let _ ← member.2.value .lenient
    pure before

/-- The equation of an output and of the items behind it, of which there is only one. -/
def ofOthers (output : String) : List Tree → Except Failure Equation
  | [] => .error .misfit
  | second :: more => do
      let expression ← Expr.ofTree second
      if more.isEmpty then pure ⟨output, expression⟩ else .error .malformed

/-- The equation of a tree, or the first failure on the way through it. -/
def ofTree : Tree → Except Failure Equation
  | .scalar lexeme => do
      let _ ← lexeme.read .strict
      .error .misfit
  | .array [] => .error .misfit
  | .array (first :: others) => do
      ofOthers (← first.scalarAs textOf?) others
  | .object members => do
      let pending ← members.foldlM pendingStep ⟨none, none⟩
      orMisfit pending.finished?

open Json.TextReader

variable {tree : Tree} {budget : Nat}

/-- A member of an equation changes what has been read before it as its tree says. -/
theorem reads_pendingMember
    {member : Name × Tree}
    (opens : member.2.depth ≤ budget)
    (before : Pending) :
    Reads Json.Follows (namedMember .strict (pendingMember budget) before)
      (Tree.memberLexeme member) (pendingStep before member) := by
  refine reads_namedMember regular_strict member fun name => ?_
  unfold pendingMember
  split
  · split
    · exact reads_refuse .misfit
    · exact reads_colon_bind member.2 ((reads_scalarAs textOf? member.2).bind_nil fun output =>
        reads_pure { before with output := some output })
  · split
    · split
      · exact reads_refuse .misfit
      · exact reads_colon_bind member.2 ((Expr.reads_jsonReader member.2 opens).bind_nil
          fun expression => reads_pure { before with expression := some expression })
    · exact reads_colon_bind member.2
        ((reads_value regular_lenient member.2 budget opens).bind_nil fun _ => reads_pure before)

/-- The object of an equation is read as its tree says. -/
theorem reads_readObject
    {members : List (Name × Tree)}
    (opens : Tree.memberDepth members ≤ budget) :
    Reads Json.Follows (readObject budget) (Tree.object members).lexemes
      (ofTree (.object members)) := by
  have read := reads_members (fun member present before =>
    reads_pendingMember (Nat.le_trans (Tree.depth_le_of_mem_members present) opens) before)
    (⟨none, none⟩ : Pending)
  exact read.bind_nil fun pending => reads_fitting pending.finished?

/-- Another item is refused where the array must end. -/
theorem reads_end
    {α : Type}
    (result : α)
    (more : List Tree) :
    Reads Json.Follows (mark ']' >>= fun _ => pure result)
      (afterComma Tree.lexemes more ++ [[']']])
      (if more.isEmpty then pure result else .error .malformed) := by
  cases more with
  | nil => exact reads_closing ']' (reads_pure result)
  | cons third others =>
      intro text spaced rest _
      cases spaced
      rfl

/-- The expression behind the output, and the end of the array. -/
theorem reads_others
    {others : List Tree}
    (opens : Tree.itemDepth others ≤ budget)
    (output : String) :
    Reads Json.Follows
      (sees ']' >>= fun closed =>
        if closed then refuse .misfit
        else mark ',' >>= fun _ => Expr.jsonReader budget >>= fun expression =>
          mark ']' >>= fun _ => pure (⟨output, expression⟩ : Equation))
      (afterComma Tree.lexemes others ++ [[']']]) (ofOthers output others) := by
  cases others with
  | nil => exact reads_sees_bind ']' (reads_refuse .misfit)
  | cons second more =>
      have fits := Nat.le_trans (Nat.le_max_left ..) opens
      have read := (Expr.reads_jsonReader second fits).bind
        (fun text rest spaced _ => follows_partsEnd (.inl rfl) spaced rest)
        fun expression _ => reads_end (⟨output, expression⟩ : Equation) more
      have split : afterComma Tree.lexemes (second :: more) ++ [[']']] =
          [','] :: (second.lexemes ++ (afterComma Tree.lexemes more ++ [[']']])) := by
        simp [afterComma]
      rw [split]
      exact reads_sees_bind ']' (reads_mark_bind ',' (second.leads.append _).unblank read)

/-- An equation that is written as an array is read as its tree says. -/
theorem reads_readArray
    {items : List Tree}
    (opens : Tree.itemDepth items ≤ budget) :
    Reads Json.Follows (readArray budget) (Tree.array items).lexemes (ofTree (.array items)) := by
  cases items with
  | nil => exact reads_emptyArray (reads_refuse .misfit)
  | cons first others =>
      exact reads_openedArray ((reads_scalarAs textOf? first).bind
        (fun text rest spaced _ => follows_partsEnd (.inl rfl) spaced rest)
        fun output _ => reads_others (Nat.le_trans (Nat.le_max_right ..) opens) output)

/-- An equation is read as the tree says. -/
theorem reads_jsonReader
    (tree : Tree)
    (opens : tree.depth ≤ budget) :
    Reads Json.Follows (jsonReader budget) tree.lexemes (ofTree tree) := by
  cases tree with
  | scalar lexeme =>
      intro text spaced rest follows
      obtain ⟨noArray, noObject⟩ := head?_scalar spaced rest
      have alone : (jsonReader budget).run (text ++ rest) =
          (scalar .strict >>= fun _ => (refuse .misfit : Json.TextReader Equation)).run
            (text ++ rest) := by
        simp only [jsonReader, Reader.run_bind, run_sees, noObject, noArray, decide_false,
          Bool.false_eq_true, if_false]
      rw [alone]
      exact ((reads_scalar regular_strict lexeme).bind_nil fun _ => reads_refuse .misfit)
        spaced rest follows
  | array items =>
      cases budget with
      | zero => contradiction
      | succ below =>
          exact reads_sees_bind '{' <| reads_sees_bind '[' <|
            reads_readArray (Nat.le_of_succ_le_succ opens)
  | object members =>
      cases budget with
      | zero => contradiction
      | succ below =>
          exact reads_sees_bind '{' (reads_readObject (Nat.le_of_succ_le_succ opens))

/-- Every text that writes a tree is refused for its nesting or read as the tree says. -/
theorem ofJsonText_of_writes
    {text : List Char}
    (writes : tree.Writes text)
    (options : Options) :
    ofJsonText options text =
      if Json.nestingLimit options < tree.depth then
        .error (.tooNested (Json.nestingLimit options))
      else
        (ofTree tree).mapError .failure :=
  writes.read_eq (fun _ opens => reads_jsonReader tree opens) options

end Equation
end ModelEquation
