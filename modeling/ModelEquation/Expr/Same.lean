import ModelEquation.Expr.Basic

/-!
# Equality of values

Two expressions agree when they have the same nodes and their numbers agree by
kind and value. This differs from equality of trees only for doubles: the zeros
agree, and a value that is no number does not agree with itself.
-/

namespace ModelEquation

mutual

/-- Whether two expressions agree. -/
def Expr.same : Expr → Expr → Bool
  | .number left, .number right => left.sameNumber right
  | .string left, .string right => left == right
  | .variable left, .variable right => left.same right
  | .unary leftOperator left, .unary rightOperator right =>
      leftOperator == rightOperator && left.same right
  | .binary leftOperator left leftOther, .binary rightOperator right rightOther =>
      leftOperator == rightOperator && left.same right && leftOther.same rightOther
  | .compare leftOperator left leftOther, .compare rightOperator right rightOther =>
      leftOperator == rightOperator && left.same right && leftOther.same rightOther
  | .logical leftOperator left leftOther, .logical rightOperator right rightOther =>
      leftOperator == rightOperator && left.same right && leftOther.same rightOther
  | .call left leftArguments, .call right rightArguments =>
      left.same right && Expr.sameList leftArguments rightArguments
  | .index left leftIndices leftMembers, .index right rightIndices rightMembers =>
      left.same right && Expr.sameList leftIndices rightIndices &&
        Variable.sameMembers leftMembers rightMembers
  | .conditional leftCondition leftTrue leftFalse,
      .conditional rightCondition rightTrue rightFalse =>
      leftCondition.same rightCondition && leftTrue.same rightTrue && leftFalse.same rightFalse
  | _, _ => false

/-- Whether two variables agree. -/
def Variable.same : Variable → Variable → Bool
  | ⟨leftName, leftIndices, leftArguments, leftMembers⟩,
      ⟨rightName, rightIndices, rightArguments, rightMembers⟩ =>
      leftName == rightName && Expr.sameGroup leftIndices rightIndices &&
        Expr.sameGroup leftArguments rightArguments &&
        Variable.sameMembers leftMembers rightMembers

/-- Whether two optional groups agree. -/
def Expr.sameGroup : Option (List Expr) → Option (List Expr) → Bool
  | none, none => true
  | some left, some right => Expr.sameList left right
  | _, _ => false

/-- Whether two lists of expressions agree item by item. -/
def Expr.sameList : List Expr → List Expr → Bool
  | [], [] => true
  | left :: leftRest, right :: rightRest => left.same right && Expr.sameList leftRest rightRest
  | _, _ => false

/-- Whether two chains of members agree member by member. -/
def Variable.sameMembers : List Variable → List Variable → Bool
  | [], [] => true
  | left :: leftRest, right :: rightRest =>
      left.same right && Variable.sameMembers leftRest rightRest
  | _, _ => false

end

end ModelEquation
