import ModelEquation.Reader

/-!
# Readers that may give up

A reader approximates a second one when, on every input, it does the same or
gives up. Which failures count as giving up is a parameter. Each way of building
a reader keeps the relation.
-/

namespace ModelEquation
namespace Reader

variable {σ ε α β : Type} {gaveUp : ε → Prop}

/-- On every input the reader gives up or does what the second one does. -/
def Approximates
    (gaveUp : ε → Prop)
    (reader finer : Reader σ ε α) : Prop :=
  ∀ input, (∃ failure, reader.run input = .error failure ∧ gaveUp failure) ∨
    reader.run input = finer.run input

namespace Approximates

theorem refl (reader : Reader σ ε α) : reader.Approximates gaveUp reader :=
  fun _ => .inr rfl

/-- A value that is returned is returned by the finer reader as well. -/
theorem run_eq_ok
    {reader finer : Reader σ ε α}
    (approximates : reader.Approximates gaveUp finer)
    {input : List σ}
    {result : α × List σ}
    (ran : reader.run input = .ok result) :
    finer.run input = .ok result := by
  rcases approximates input with ⟨failure, failed, _⟩ | same
  · rw [ran] at failed
    contradiction
  · rw [← same, ran]

theorem bind
    {first firstFiner : Reader σ ε α}
    {next nextFiner : α → Reader σ ε β}
    (firsts : first.Approximates gaveUp firstFiner)
    (nexts : ∀ value, (next value).Approximates gaveUp (nextFiner value)) :
    (first >>= next).Approximates gaveUp (firstFiner >>= nextFiner) := by
  intro input
  rw [run_bind, run_bind]
  rcases firsts input with ⟨failure, failed, known⟩ | same
  · exact .inl ⟨failure, by simp only [failed], known⟩
  · rw [← same]
    cases first.run input with
    | error failure => exact .inr rfl
    | ok result => exact nexts result.1 result.2

/-- A sequence whose first reader is the same. -/
theorem bind_right
    {first : Reader σ ε α}
    {next nextFiner : α → Reader σ ε β}
    (nexts : ∀ value, (next value).Approximates gaveUp (nextFiner value)) :
    (first >>= next).Approximates gaveUp (first >>= nextFiner) :=
  (refl first).bind nexts

/-- Extensions whose continuations open at the same symbols. Both loops go through the same
rounds until the coarser one gives up. -/
theorem extend
    {opens opensFiner : σ → Option (α → Reader σ ε α)}
    (continuations : ∀ symbol, Option.Rel
      (fun continuation finer => ∀ value,
        Approximates gaveUp (continuation value) (finer value))
      (opens symbol) (opensFiner symbol))
    (value : α) :
    (Reader.extend opens value).Approximates gaveUp (Reader.extend opensFiner value) := by
  intro input
  induction length : input.length using Nat.strongRecOn generalizing value input with
  | ind size hypothesis =>
      cases input with
      | nil => exact .inr (by rw [run_extend_nil, run_extend_nil])
      | cons symbol others =>
          have related := continuations symbol
          cases opened : opens symbol with
          | none =>
              rw [opened] at related
              cases openedFiner : opensFiner symbol with
              | none =>
                  rw [run_extend_of_closed opened, run_extend_of_closed openedFiner]
                  exact .inr rfl
              | some finer =>
                  rw [openedFiner] at related
                  cases related
          | some continuation =>
              rw [opened] at related
              cases openedFiner : opensFiner symbol with
              | none =>
                  rw [openedFiner] at related
                  cases related
              | some finer =>
                  rw [openedFiner] at related
                  cases related with
                  | some rounds =>
                      rw [run_extend_of_opened opened, run_extend_of_opened openedFiner]
                      rcases rounds value others with ⟨failure, failed, known⟩ | same
                      · exact .inl ⟨failure, by simp only [failed], known⟩
                      · rw [← same]
                        cases ran : (continuation value).run others with
                        | error failure => exact .inr rfl
                        | ok result =>
                            obtain ⟨extended, rest⟩ := result
                            have shorter : rest.length < size := by
                              rw [← length]
                              exact Nat.lt_succ_of_le ((continuation value).notLonger ran)
                            exact hypothesis rest.length shorter extended rest rfl

end Approximates
end Reader
end ModelEquation
