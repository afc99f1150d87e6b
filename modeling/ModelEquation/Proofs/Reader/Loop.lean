import ModelEquation.Reader

/-!
# Rounds of an extension

An extension goes on while the next symbol opens a continuation, and each
continuation that returns is one round of it.
-/

namespace ModelEquation
namespace Reader

variable {σ ε α : Type}

/-- An extension ends where no continuation opens. -/
theorem run_extend_of_stops
    {opens : σ → Option (α → Reader σ ε α)}
    {input : List σ}
    (stops : ∀ symbol ∈ input.head?, opens symbol = none)
    (value : α) :
    (extend opens value).run input = .ok (value, input) := by
  cases input with
  | nil => exact run_extend_nil opens value
  | cons symbol others => exact run_extend_of_closed (stops symbol rfl) value others

/-- A continuation that returns is a round of the extension. -/
theorem run_extend_of_ran
    {opens : σ → Option (α → Reader σ ε α)}
    {symbol : σ}
    (continuation : α → Reader σ ε α)
    {value extended : α}
    {others rest : List σ}
    (opened : opens symbol = some continuation)
    (ran : (continuation value).run others = .ok (extended, rest)) :
    (extend opens value).run (symbol :: others) = (extend opens extended).run rest := by
  rw [run_extend_of_opened opened, ran]

/-- A round and the rounds after it are a sequence of readers. -/
theorem run_extend_eq_bind
    {opens : σ → Option (α → Reader σ ε α)}
    {symbol : σ}
    {continuation : α → Reader σ ε α}
    {value : α}
    (opened : opens symbol = some continuation)
    (others : List σ) :
    (extend opens value).run (symbol :: others) =
      (continuation value >>= extend opens).run others :=
  run_extend_of_opened opened value others

end Reader
end ModelEquation
