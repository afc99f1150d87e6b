import ModelEquation.Proofs.Grammar.Height
import ModelEquation.Proofs.Token.Numeral

/-!
# Parser-shaped expressions

The expressions whose canonical text denotes an expression again: literals are
unsigned, names can be read as one lexeme, groups hold something, and conditions stand
only where conditions may stand.

The text does not tell a member without a group from the beginning of a longer dotted
name, so reading it joins each such member with the next one. `Expr.fused` is the
expression with the members joined.
-/

namespace ModelEquation

/-- Whether an expression is a bare variable. -/
def Expr.isBare : Expr → Bool
  | .variable reference => reference.isBare
  | _ => false

mutual

/-- Whether an expression is one that a text can denote where an operand stands. -/
def Expr.isParserShaped : Expr → Bool
  | .number value => value.isLiteral
  | .string value => Token.isQuoted value
  | .variable reference => reference.isParserShaped
  | .unary _ operand => operand.isParserShaped
  | .binary _ left right => left.isParserShaped && right.isParserShaped
  | .compare _ _ _ => false
  | .logical _ _ _ => false
  | .call callee arguments => callee.isParserShaped && Expr.areParserShaped arguments
  | .index target indices members =>
      target.isParserShaped && !target.isBare && !indices.isEmpty &&
        Expr.areParserShaped indices && Variable.areShapedMembers members
  | .conditional condition whenTrue whenFalse =>
      condition.isShapedCondition && whenTrue.isParserShaped && whenFalse.isParserShaped

/-- Whether an expression is one that a text can denote where a condition stands. -/
def Expr.isShapedCondition : Expr → Bool
  | .compare _ left right => left.isParserShaped && right.isParserShaped
  | .logical _ left right => left.isShapedCondition && right.isShapedCondition
  | _ => false

/-- Whether a variable is bare or has an index group and any members after it. -/
def Variable.isParserShaped : Variable → Bool
  | ⟨name, indices, arguments, members⟩ =>
      Token.isName name && arguments.isNone && (indices.isSome || members.isEmpty) &&
        Expr.isShapedGroup indices && Variable.areShapedMembers members

/-- Whether a variable is a member without a group or with one that holds something. -/
def Variable.isShapedMember : Variable → Bool
  | ⟨name, indices, arguments, members⟩ =>
      Token.isName name && indices.isNone && members.isEmpty && Expr.isShapedGroup arguments

/-- Whether an optional group is absent or holds something. -/
def Expr.isShapedGroup : Option (List Expr) → Bool
  | none => true
  | some items => !items.isEmpty && Expr.areParserShaped items

def Expr.areParserShaped : List Expr → Bool
  | [] => true
  | item :: rest => item.isParserShaped && Expr.areParserShaped rest

def Variable.areShapedMembers : List Variable → Bool
  | [] => true
  | member :: rest => member.isShapedMember && Variable.areShapedMembers rest

end

/-- The member with a name and a dot in front of its own name. -/
def Variable.qualified (qualifier : String) (member : Variable) : Variable :=
  { member with name := qualifier ++ "." ++ member.name }

/-- A member in front of others; a bare one becomes the beginning of the name of the
next. -/
def Variable.fuse (member : Variable) : List Variable → List Variable
  | [] => [member]
  | next :: others =>
      if member.isBare then next.qualified member.name :: others
      else member :: next :: others

mutual

/-- The expression with each bare member joined with the member after it. -/
def Expr.fused : Expr → Expr
  | .number value => .number value
  | .string value => .string value
  | .variable reference => .variable reference.fused
  | .unary operator operand => .unary operator operand.fused
  | .binary operator left right => .binary operator left.fused right.fused
  | .compare operator left right => .compare operator left.fused right.fused
  | .logical operator left right => .logical operator left.fused right.fused
  | .call callee arguments => .call callee.fused (Expr.fusedList arguments)
  | .index target indices members =>
      .index target.fused (Expr.fusedList indices) (Variable.fusedMembers members)
  | .conditional condition whenTrue whenFalse =>
      .conditional condition.fused whenTrue.fused whenFalse.fused

def Variable.fused : Variable → Variable
  | ⟨name, indices, arguments, members⟩ =>
      ⟨name, Expr.fusedGroup indices, Expr.fusedGroup arguments, Variable.fusedMembers members⟩

def Expr.fusedGroup : Option (List Expr) → Option (List Expr)
  | none => none
  | some items => some (Expr.fusedList items)

def Expr.fusedList : List Expr → List Expr
  | [] => []
  | item :: rest => item.fused :: Expr.fusedList rest

def Variable.fusedMembers : List Variable → List Variable
  | [] => []
  | member :: rest => member.fused.fuse (Variable.fusedMembers rest)

end

namespace Variable

/-- A member is never lost, since it is either kept or joined to the next one. -/
theorem fuse_ne_nil
    (member : Variable)
    (others : List Variable) :
    member.fuse others ≠ [] := by
  cases others with
  | nil => simp [fuse]
  | cons next later =>
      rw [fuse]
      split <;> simp

@[simp] theorem isEmpty_fusedMembers (members : List Variable) :
    (fusedMembers members).isEmpty = members.isEmpty := by
  cases members with
  | nil => rfl
  | cons member rest => simp [fusedMembers, fuse_ne_nil]

@[simp] theorem isBare_fused (reference : Variable) :
    reference.fused.isBare = reference.isBare := by
  obtain ⟨name, indices, arguments, members⟩ := reference
  cases indices <;> cases arguments <;> simp [fused, isBare, Expr.fusedGroup]

@[simp] theorem isBare_qualified
    (qualifier : String)
    (member : Variable) :
    (member.qualified qualifier).isBare = member.isBare := rfl

/-- A qualifier in front of the name adds no level. -/
@[simp] theorem height_qualified
    (qualifier : String)
    (member : Variable) :
    (member.qualified qualifier).height = member.height := by
  cases member
  rfl

/-- Two qualifiers are one that has a dot in between. -/
@[simp] theorem qualified_qualified
    (outer inner : String)
    (member : Variable) :
    (member.qualified inner).qualified outer = member.qualified (outer ++ "." ++ inner) := by
  simp [qualified, String.append_assoc]

/-- A member with a group or members of its own is joined to nothing. -/
theorem fuse_of_isBare_eq_false
    {member : Variable}
    (other : member.isBare = false)
    (others : List Variable) :
    member.fuse others = member :: others := by
  cases others with
  | nil => rfl
  | cons next later => simp [fuse, other]

/-- It makes no difference whether a member is qualified before or after those inside it are
fused. -/
theorem fused_qualified
    (qualifier : String)
    (member : Variable) :
    (member.qualified qualifier).fused = member.fused.qualified qualifier := by
  cases member
  rfl

@[simp] theorem name_fused (reference : Variable) : reference.fused.name = reference.name := by
  cases reference
  rfl

/-- Three members in a row are joined in the same way from either end. -/
theorem fuse_fuse
    {member next : Variable}
    (bare : member.isBare = true)
    (others : List Variable) :
    member.fuse (next.fuse others) = (next.qualified member.name).fuse others := by
  cases others with
  | nil => simp [fuse, bare]
  | cons third later =>
      cases again : next.isBare <;>
        simp [fuse, bare, again]
      rfl

/-- A bare member may be joined with the next one beforehand. -/
theorem fusedMembers_qualified
    {member : Variable}
    (bare : member.isBare = true)
    (next : Variable)
    (others : List Variable) :
    fusedMembers (next.qualified member.name :: others) =
      fusedMembers (member :: next :: others) := by
  rw [fusedMembers, fusedMembers, fusedMembers, fuse_fuse (by simpa using bare), fused_qualified,
    name_fused]

/-- A bare member joined with others does not change how tall they are together. -/
theorem tallest_fuse
    (member : Variable)
    (others : List Variable) :
    tallest (member.fuse others) = tallest (member :: others) := by
  cases others with
  | nil => rfl
  | cons next later =>
      have positive := next.height_pos
      rw [fuse]
      split
      · next bare =>
          rw [(isBare_iff member).mp bare]
          simp only [tallest, height_qualified, height_named]
          omega
      · rfl

end Variable

mutual

/-- Joining members does not change how tall an expression is. -/
theorem Expr.height_fused : (expression : Expr) → expression.fused.height = expression.height
  | .number _ => rfl
  | .string _ => rfl
  | .variable reference => reference.height_fused
  | .unary _ operand => by rw [Expr.fused, Expr.height, Expr.height, operand.height_fused]
  | .binary _ left right
  | .compare _ left right
  | .logical _ left right => by
      rw [Expr.fused, Expr.height, Expr.height, left.height_fused, right.height_fused]
  | .call callee arguments => by
      rw [Expr.fused, Expr.height, Expr.height, callee.height_fused,
        Expr.tallest_fusedList arguments]
  | .index target indices members => by
      rw [Expr.fused, Expr.height, Expr.height, target.height_fused, Expr.tallest_fusedList indices,
        Variable.tallest_fusedMembers members]
  | .conditional condition whenTrue whenFalse => by
      rw [Expr.fused, Expr.height, Expr.height, condition.height_fused, whenTrue.height_fused,
        whenFalse.height_fused]

/-- Fused variables are as high as they were. -/
theorem Variable.height_fused : (reference : Variable) → reference.fused.height = reference.height
  | ⟨_, indices, arguments, members⟩ => by
      rw [Variable.fused, Variable.height, Variable.height, Expr.groupHeight_fusedGroup indices,
        Expr.groupHeight_fusedGroup arguments, Variable.tallest_fusedMembers members]

theorem Expr.groupHeight_fusedGroup :
    (group : Option (List Expr)) →
      Expr.groupHeight (Expr.fusedGroup group) = Expr.groupHeight group
  | none => rfl
  | some items => Expr.tallest_fusedList items

theorem Expr.tallest_fusedList :
    (items : List Expr) → Expr.tallest (Expr.fusedList items) = Expr.tallest items
  | [] => rfl
  | item :: rest => by
      rw [Expr.fusedList, Expr.tallest, Expr.tallest, item.height_fused,
        Expr.tallest_fusedList rest]

theorem Variable.tallest_fusedMembers :
    (members : List Variable) →
      Variable.tallest (Variable.fusedMembers members) = Variable.tallest members
  | [] => rfl
  | member :: rest => by
      rw [Variable.fusedMembers, Variable.tallest_fuse, Variable.tallest, Variable.tallest,
        member.height_fused, Variable.tallest_fusedMembers rest]

end

namespace Expr

@[simp] theorem isBare_fused (expression : Expr) : expression.fused.isBare = expression.isBare := by
  cases expression <;> simp [fused, isBare]

/-- An index group makes a node of its own around what is no bare variable. -/
theorem indexed_of_isBare_eq_false
    {target : Expr}
    (other : target.isBare = false)
    (indices : List Expr)
    (members : List Variable) :
    target.indexed indices members = .index target indices members := by
  unfold indexed
  split
  · next reference =>
      have kept : reference.isBare = false := other
      simp [kept]
  · rfl

end Expr
end ModelEquation
