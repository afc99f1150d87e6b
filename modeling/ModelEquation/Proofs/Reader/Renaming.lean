import ModelEquation.Reader

/-!
# Readers under renaming

A reader is uniform under a renaming of symbols when renaming its input only renames the
symbols that it leaves, and what its failure says of them. Each way of building a reader
keeps this, where it does not matter to the reader which of the symbols it sees.
-/

namespace ModelEquation
namespace Reader

variable {σ ε α β : Type} {rename : σ → σ} {renameFailure : ε → ε}

/-- The outcome of a reader with the symbols that are left renamed. -/
def renamed
    (rename : σ → σ)
    (renameFailure : ε → ε) :
    Except ε (α × List σ) → Except ε (α × List σ)
  | .error failure => .error (renameFailure failure)
  | .ok (value, rest) => .ok (value, rest.map rename)

/-- For renamed symbols the reader does what it does for the symbols themselves. -/
def Uniform
    (rename : σ → σ)
    (renameFailure : ε → ε)
    (reader : Reader σ ε α) : Prop :=
  ∀ input, reader.run (input.map rename) = renamed rename renameFailure (reader.run input)

namespace Uniform

theorem pure (value : α) :
    (Pure.pure value : Reader σ ε α).Uniform rename renameFailure :=
  fun _ => rfl

/-- A failure that is renamed with the input is uniform. -/
theorem fail
    {reason : List σ → ε}
    (renames : ∀ input, reason (input.map rename) = renameFailure (reason input)) :
    (Reader.fail reason : Reader σ ε α).Uniform rename renameFailure :=
  fun input => congrArg Except.error (renames input)

theorem skip : (Reader.skip : Reader σ ε Unit).Uniform rename renameFailure := by
  intro input
  cases input <;> rfl

theorem bind
    {first : Reader σ ε α}
    {next : α → Reader σ ε β}
    (firsts : first.Uniform rename renameFailure)
    (nexts : ∀ value, (next value).Uniform rename renameFailure) :
    (first >>= next).Uniform rename renameFailure := by
  intro input
  rw [run_bind, run_bind, firsts input]
  cases first.run input with
  | error failure => rfl
  | ok result => exact nexts result.1 result.2

/-- What is done with the next symbol must be the same for the renamed one. -/
theorem peek_bind
    {next : Option σ → Reader σ ε β}
    (same : ∀ symbol, next (some (rename symbol)) = next (some symbol))
    (nexts : ∀ symbol, (next symbol).Uniform rename renameFailure) :
    (Reader.peek >>= next).Uniform rename renameFailure := by
  intro input
  have ahead : next (input.map rename).head? = next input.head? := by
    cases input with
    | nil => rfl
    | cons symbol others => exact same symbol
  rw [run_bind, run_bind, run_peek, run_peek]
  dsimp only
  rw [ahead]
  exact nexts input.head? input

/-- A renamed symbol must open the same continuation. -/
theorem extend
    {opens : σ → Option (α → Reader σ ε α)}
    (same : ∀ symbol, opens (rename symbol) = opens symbol)
    (continuations : ∀ symbol continuation, opens symbol = some continuation →
      ∀ value, (continuation value).Uniform rename renameFailure)
    (value : α) :
    (Reader.extend opens value).Uniform rename renameFailure := by
  intro input
  induction length : input.length using Nat.strongRecOn generalizing value input with
  | ind size hypothesis =>
      cases input with
      | nil => rw [List.map_nil, run_extend_nil]; rfl
      | cons symbol others =>
          rw [List.map_cons]
          cases opened : opens symbol with
          | none =>
              rw [run_extend_of_closed opened, run_extend_of_closed ((same symbol).trans opened)]
              rfl
          | some continuation =>
              rw [run_extend_of_opened opened, run_extend_of_opened ((same symbol).trans opened),
                continuations symbol continuation opened value others]
              cases ran : (continuation value).run others with
              | error failure => rfl
              | ok result =>
                  obtain ⟨extended, rest⟩ := result
                  have shorter : rest.length < size := by
                    rw [← length]
                    exact Nat.lt_succ_of_le ((continuation value).notLonger ran)
                  exact hypothesis rest.length shorter extended rest rfl

end Uniform
end Reader
end ModelEquation
