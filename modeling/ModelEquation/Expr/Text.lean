import ModelEquation.Expr.Basic

/-!
# Canonical text

Every binary, comparison, logical and conditional node is written in parentheses,
so the text needs no precedence. A target of a call or of an index group is put
in parentheses where the text would otherwise read differently: numbers, strings
and signs always, and before a bracket also what ends in a member.
-/

namespace ModelEquation
namespace Expr

/-- Parts with a comma and a space between them. -/
def commaSeparated : List (List Char) → List Char
  | [] => []
  | first :: others => first ++ others.flatMap fun part => ',' :: ' ' :: part

/-- A text between two delimiters. -/
def enclosed (opening closing : Char) (content : List Char) : List Char :=
  opening :: (content ++ [closing])

/-- Two operands around a symbol, in parentheses. -/
def parenthesized (left : List Char) (symbol : String) (right : List Char) : List Char :=
  enclosed '(' ')' (left ++ ' ' :: (symbol.toList ++ ' ' :: right))

/-- Whether a target must stand in parentheses before a group; `bracket` tells an
index group from an argument list. -/
def needsParentheses (bracket : Bool) : Expr → Bool
  | .number _ => true
  | .string _ => true
  | .unary _ _ => true
  | .variable reference =>
      bracket && (!reference.members.isEmpty || reference.arguments.isSome)
  | .index _ _ members => bracket && !members.isEmpty
  | _ => false

/-- The text of a target before a group. -/
def targetText (bracket : Bool) (target : Expr) (text : List Char) : List Char :=
  if target.needsParentheses bracket then enclosed '(' ')' text else text

end Expr

mutual

/-- The canonical text of an expression. -/
def Expr.text : Expr → List Char
  | .number value => value.text
  | .string value => value.toList
  | .variable reference => reference.text
  | .unary operator operand => operator.symbol.toList ++ operand.text
  | .binary operator left right => Expr.parenthesized left.text operator.symbol right.text
  | .compare operator left right => Expr.parenthesized left.text operator.symbol right.text
  | .logical operator left right => Expr.parenthesized left.text operator.symbol right.text
  | .call callee arguments =>
      callee.targetText false callee.text ++
        Expr.enclosed '(' ')' (Expr.commaSeparated (Expr.texts arguments))
  | .index target indices members =>
      target.targetText true target.text ++
        Expr.enclosed '[' ']' (Expr.commaSeparated (Expr.texts indices)) ++
        Variable.memberText members
  | .conditional condition whenTrue whenFalse =>
      Expr.enclosed '(' ')'
        (['i', 'f', ' '] ++ condition.text ++ [' ', 't', 'h', 'e', 'n', ' '] ++ whenTrue.text ++
          [' ', 'e', 'l', 's', 'e', ' '] ++ whenFalse.text)

/-- The canonical text of a variable. -/
def Variable.text : Variable → List Char
  | ⟨name, indices, arguments, members⟩ =>
      name.toList ++ Expr.groupText indices ++ Expr.groupText arguments ++
        Variable.memberText members

/-- An optional group in brackets. -/
def Expr.groupText : Option (List Expr) → List Char
  | none => []
  | some items => Expr.enclosed '[' ']' (Expr.commaSeparated (Expr.texts items))

/-- The texts of a list of expressions. -/
def Expr.texts : List Expr → List (List Char)
  | [] => []
  | item :: rest => item.text :: Expr.texts rest

/-- The members of a chain, each after a dot. -/
def Variable.memberText : List Variable → List Char
  | [] => []
  | member :: rest => '.' :: (member.text ++ Variable.memberText rest)

end

end ModelEquation
