import ModelEquation.Proofs.Expr.Streaming
import ModelEquation.Proofs.Json.Writing

/-!
# Expressions of trees

What is read of a text as an expression, and how reading it fails, is a matter of the tree that
the text writes and of nothing else. The type of the topmost node is looked at when it comes, as
the reader does it, and its other parts are plain values.
-/

namespace ModelEquation

namespace Json
namespace Tree

/-- A scalar of the wanted form. -/
def scalarAs {α : Type} (form : Value → Option α) : Tree → Except Failure α
  | .scalar lexeme => do
      orMisfit (form (← lexeme.read .strict))
  | _ => .error .misfit

end Tree

open TextReader

/-- A scalar of a given form is read as its tree says. -/
theorem TextReader.reads_scalarAs
    {α : Type}
    (form : Value → Option α)
    (tree : Tree) :
    Reads Follows (scalarAs form) tree.lexemes (tree.scalarAs form) := by
  cases tree with
  | scalar lexeme =>
      intro text spaced rest follows
      obtain ⟨noArray, noObject⟩ := head?_scalar spaced rest
      have read := ((reads_scalar regular_strict lexeme).bind_nil fun value =>
        reads_fitting (form value)) spaced rest follows
      rw [Tree.scalarAs, ← read, TextReader.scalarAs, Reader.run_bind, run_seesContainer]
      simp only [noArray, noObject, decide_false, Bool.or_self, Bool.false_eq_true, if_false]
  | array items => exact reads_seesContainer_bind (reads_refuse .misfit)
  | object members => exact reads_seesContainer_bind (reads_refuse .misfit)

end Json

namespace Expr

open Json (Failure Name Tree Value orMisfit)

/-- Reads a member of the topmost node, going on from those before it. -/
def pendingStep (before : Pending) (member : Name × Tree) : Except Failure Pending := do
  let name ← member.1.read .strict
  if name = "type" then
    if before.shape.isSome then
      .error .misfit
    else
      let shape ← member.2.scalarAs Shape.ofTag?
      pure { before with shape := some shape }
  else
    let value ← member.2.value .strict
    pure { before with reversed := (name, value) :: before.reversed }

/-- The expression of a tree, or the first failure on the way through it. -/
def ofTree : Tree → Except Failure Expr
  | .scalar lexeme => do
      let _ ← lexeme.read .strict
      .error .misfit
  | .array [] => .error .misfit
  | .array (first :: others) => do
      let shape ← first.scalarAs Shape.ofTag?
      let values ← others.mapM (Tree.value .strict)
      orMisfit (ofItems? shape values)
  | .object members => do
      let pending ← members.foldlM pendingStep ⟨none, []⟩
      orMisfit pending.finished?

open Json.TextReader

variable {tree : Tree} {budget : Nat}

/-- A member of a node changes what has been read before it as its tree says. -/
theorem reads_pendingMember
    {member : Name × Tree}
    (opens : member.2.depth ≤ budget)
    (before : Pending) :
    Reads Json.Follows (namedMember .strict (pendingMember (value .strict budget)) before)
      (Tree.memberLexeme member) (pendingStep before member) := by
  refine reads_namedMember regular_strict member fun name => ?_
  unfold pendingMember
  split
  · split
    · exact reads_refuse .misfit
    · exact reads_colon_bind member.2 ((reads_scalarAs Shape.ofTag? member.2).bind_nil fun shape =>
        reads_pure { before with shape := some shape })
  · exact reads_colon_bind member.2 ((reads_value regular_strict member.2 budget opens).bind_nil
      fun value => reads_pure { before with reversed := (name, value) :: before.reversed })

/-- The object of a node is read as its tree says. -/
theorem reads_readObject
    {members : List (Name × Tree)}
    (opens : Tree.memberDepth members ≤ budget) :
    Reads Json.Follows (readObject (value .strict budget)) (Tree.object members).lexemes
      (ofTree (.object members)) := by
  have read := reads_members (fun member present before =>
    reads_pendingMember (Nat.le_trans (Tree.depth_le_of_mem_members present) opens) before)
    (⟨none, []⟩ : Pending)
  exact read.bind_nil fun pending => reads_fitting pending.finished?

/-- A node that is written as an array is read as its tree says. -/
theorem reads_readArray
    {items : List Tree}
    (opens : Tree.itemDepth items ≤ budget) :
    Reads Json.Follows (readArray (value .strict budget)) (Tree.array items).lexemes
      (ofTree (.array items)) := by
  cases items with
  | nil => exact reads_emptyArray (reads_refuse .misfit)
  | cons first others =>
      have each := reads_value_items regular_strict (first :: others) budget opens
      have values := reads_itemsEnd (List.forall_mem_cons.mp each).2 []
      simp only [List.reverse_nil, List.nil_append, bind_pure] at values
      exact reads_openedArray ((reads_scalarAs Shape.ofTag? first).bind
        (fun text rest spaced _ => follows_partsEnd (.inl rfl) spaced rest)
        fun shape _ => values.bind_nil fun items => reads_fitting (ofItems? shape items))

/-- An expression is read as the tree says. -/
theorem reads_jsonReader
    (tree : Tree)
    (opens : tree.depth ≤ budget) :
    Reads Json.Follows (jsonReader budget) tree.lexemes (ofTree tree) := by
  cases tree with
  | scalar lexeme =>
      intro text spaced rest follows
      obtain ⟨noArray, noObject⟩ := head?_scalar spaced rest
      rw [run_jsonReader_of_scalar noObject noArray]
      exact ((reads_scalar regular_strict lexeme).bind_nil fun _ => reads_refuse .misfit)
        spaced rest follows
  | array items =>
      cases budget with
      | zero => contradiction
      | succ below =>
          exact reads_sees_bind '{' <| reads_sees_bind '[' <|
            reads_readArray (Nat.le_of_succ_le_succ opens)
  | object members =>
      cases budget with
      | zero => contradiction
      | succ below =>
          exact reads_sees_bind '{' (reads_readObject (Nat.le_of_succ_le_succ opens))

/-- Every text that writes a tree is refused for its nesting or read as the tree says. -/
theorem ofJsonText_of_writes
    {text : List Char}
    (writes : tree.Writes text)
    (options : Options) :
    ofJsonText options text =
      if Json.nestingLimit options < tree.depth then
        .error (.tooNested (Json.nestingLimit options))
      else
        (ofTree tree).mapError .failure :=
  writes.read_eq (fun _ opens => reads_jsonReader tree opens) options

end Expr
end ModelEquation
