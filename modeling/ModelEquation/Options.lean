/-!
# Options

How an expression is read. The one option is the deepest nesting that is
allowed, which bounds both the recursion of reading and the height of the result.
-/

namespace ModelEquation

/-- Options of reading. -/
structure Options where
  /-- The number of levels that may be nested. -/
  maxDepth : Nat := 128
  deriving DecidableEq, Repr

end ModelEquation
