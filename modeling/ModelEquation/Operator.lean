/-!
# Operators

The four families of operators of model equations. Each operator has one
symbol; `ofSymbol?` reads it back. A symbol such as `+` names an arithmetic
operator and a sign, and the grammar tells the two apart by their place.
-/

namespace ModelEquation

/-- A binary arithmetic operator. -/
inductive Arithmetic
  | add
  | subtract
  | multiply
  | divide
  deriving DecidableEq, Repr

/-- A sign in front of an operand. -/
inductive Sign
  | plus
  | minus
  deriving DecidableEq, Repr

/-- A comparison of two expressions. -/
inductive Comparison
  | greaterEqual
  | lessEqual
  | equal
  | notEqual
  | greater
  | less
  deriving DecidableEq, Repr

/-- A connective between two conditions. Both share one precedence. -/
inductive Connective
  | and
  | or
  deriving DecidableEq, Repr

namespace Arithmetic

/-- The symbol that stands between the operands. -/
def symbol : Arithmetic → String
  | .add => "+"
  | .subtract => "-"
  | .multiply => "*"
  | .divide => "/"

/-- The operator that a symbol names. -/
def ofSymbol? : String → Option Arithmetic
  | "+" => some .add
  | "-" => some .subtract
  | "*" => some .multiply
  | "/" => some .divide
  | _ => none

/-- Sums and differences bind less tightly than products and quotients. -/
def isAdditive : Arithmetic → Bool
  | .add => true
  | .subtract => true
  | .multiply => false
  | .divide => false

@[simp] theorem ofSymbol?_symbol (operator : Arithmetic) :
    ofSymbol? operator.symbol = some operator := by
  cases operator <;> rfl

/-- A symbol that is read as an operator is the symbol of that operator. -/
theorem symbol_of_ofSymbol?
    {text : String}
    {operator : Arithmetic}
    (named : ofSymbol? text = some operator) :
    operator.symbol = text := by
  unfold ofSymbol? at named
  split at named <;> simp_all <;> subst named <;> rfl

end Arithmetic

namespace Sign

/-- The symbol that stands before the operand. -/
def symbol : Sign → String
  | .plus => "+"
  | .minus => "-"

/-- The sign that a symbol names. -/
def ofSymbol? : String → Option Sign
  | "+" => some .plus
  | "-" => some .minus
  | _ => none

@[simp] theorem ofSymbol?_symbol (operator : Sign) :
    ofSymbol? operator.symbol = some operator := by
  cases operator <;> rfl

/-- A symbol that is read as a sign is the symbol of that sign. -/
theorem symbol_of_ofSymbol?
    {text : String}
    {operator : Sign}
    (named : ofSymbol? text = some operator) :
    operator.symbol = text := by
  unfold ofSymbol? at named
  split at named <;> simp_all <;> subst named <;> rfl

end Sign

namespace Comparison

/-- The symbol that stands between the compared expressions. -/
def symbol : Comparison → String
  | .greaterEqual => ">="
  | .lessEqual => "<="
  | .equal => "=="
  | .notEqual => "!="
  | .greater => ">"
  | .less => "<"

/-- The comparison that a symbol names. -/
def ofSymbol? : String → Option Comparison
  | ">=" => some .greaterEqual
  | "<=" => some .lessEqual
  | "==" => some .equal
  | "!=" => some .notEqual
  | ">" => some .greater
  | "<" => some .less
  | _ => none

@[simp] theorem ofSymbol?_symbol (operator : Comparison) :
    ofSymbol? operator.symbol = some operator := by
  cases operator <;> rfl

/-- A symbol that is read as a comparison is the symbol of that comparison. -/
theorem symbol_of_ofSymbol?
    {text : String}
    {operator : Comparison}
    (named : ofSymbol? text = some operator) :
    operator.symbol = text := by
  unfold ofSymbol? at named
  split at named <;> simp_all <;> subst named <;> rfl

end Comparison

namespace Connective

/-- The word that stands between the conditions. -/
def symbol : Connective → String
  | .and => "and"
  | .or => "or"

/-- The connective that a word names. -/
def ofSymbol? : String → Option Connective
  | "and" => some .and
  | "or" => some .or
  | _ => none

@[simp] theorem ofSymbol?_symbol (operator : Connective) :
    ofSymbol? operator.symbol = some operator := by
  cases operator <;> rfl

/-- A word that is read as a connective is the word of that connective. -/
theorem symbol_of_ofSymbol?
    {text : String}
    {operator : Connective}
    (named : ofSymbol? text = some operator) :
    operator.symbol = text := by
  unfold ofSymbol? at named
  split at named <;> simp_all <;> subst named <;> rfl

end Connective

end ModelEquation
