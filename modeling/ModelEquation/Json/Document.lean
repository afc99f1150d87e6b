import ModelEquation.Json.Nesting
import ModelEquation.Json.Reader
import ModelEquation.Options

/-!
# Reading structured form from text

Text must not nest deeper than the structured form of any expression within the
limit does: an object for each level, an array for each list between two levels,
and one object around an equation. Text that nests deeper is refused before it is
read. That number of levels is computed in a word of 64 bits. From `2 ^ 63` levels
of expressions on it does not fit and wraps around to a smaller one, which refuses
structured form of expressions within the limit, too.
-/

namespace ModelEquation
namespace Json

/-- Why a text was refused: it nests too deeply, or it could not be read. -/
inductive Fault
  | tooNested (limit : Nat)
  | failure (failure : Failure)
  deriving DecidableEq, Repr

/-- The message that reports nesting beyond a limit. -/
def nestingMessage (limit : Nat) : String :=
  "JSON nested deeper than " ++ toString limit ++ " levels"

/-- The deepest nesting of text that is read under the given options, in the arithmetic of
words of 64 bits. -/
def nestingLimit (options : Options) : Nat :=
  (2 * UInt64.ofNat options.maxDepth + 1).toNat

/-- What a word does not hold of the limit is lost. -/
theorem nestingLimit_eq_mod (options : Options) :
    nestingLimit options = (2 * options.maxDepth + 1) % UInt64.size := by
  have exact : 2 * UInt64.ofNat options.maxDepth + 1 = UInt64.ofNat (2 * options.maxDepth + 1) := by
    rw [UInt64.ofNat_add, UInt64.ofNat_mul]
    rfl
  rw [nestingLimit, exact, UInt64.toNat_ofNat']

/-- Text may nest no deeper than the levels of the options allow. -/
theorem nestingLimit_le (options : Options) :
    nestingLimit options ≤ 2 * options.maxDepth + 1 := by
  rw [nestingLimit_eq_mod]
  exact Nat.mod_le _ _

/-- Text may nest as deep as the levels of the options allow if a word holds that number. -/
theorem nestingLimit_of_lt_size
    {options : Options}
    (word : 2 * options.maxDepth + 1 < UInt64.size) :
    nestingLimit options = 2 * options.maxDepth + 1 := by
  rw [nestingLimit_eq_mod, Nat.mod_eq_of_lt word]

/-- Reads a whole text unless it nests too deeply. The reader is given the length
of the text as the number of arrays and objects that it may open. -/
def read {α : Type}
    (reader : Nat → TextReader α)
    (options : Options)
    (text : List Char) :
    Except Fault α :=
  if nestingLimit options < nesting text then
    .error (.tooNested (nestingLimit options))
  else
    (TextReader.document (reader text.length) text).mapError Fault.failure

end Json
end ModelEquation
