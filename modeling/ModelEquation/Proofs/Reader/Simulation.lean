import ModelEquation.Reader

/-!
# Readers that mirror each other

A reader is mirrored by a second one if the second one returns whenever the first one does,
leaves the same symbols and returns a related value. Where the first one fails nothing is
asked. Each way of building a reader keeps the relation.
-/

namespace ModelEquation
namespace Reader

variable {σ ε α β γ δ : Type}

/-- Where the reader returns a value, its mirror returns a related one and leaves the same
symbols. -/
def Mirrors
    (reader : Reader σ ε α)
    (mirror : Reader σ ε β)
    (related : α → β → Prop) : Prop :=
  ∀ ⦃input rest : List σ⦄ ⦃value : α⦄, reader.run input = .ok (value, rest) →
    ∃ other, mirror.run input = .ok (other, rest) ∧ related value other

theorem mirrors_refl (reader : Reader σ ε α) : reader.Mirrors reader Eq :=
  fun _ _ value ran => ⟨value, ran, rfl⟩

section

variable {related : α → β → Prop}

theorem mirrors_pure
    {value : α}
    {other : β}
    (holds : related value other) :
    (pure value : Reader σ ε α).Mirrors (pure other) related := by
  intro input rest result ran
  cases ran
  exact ⟨other, rfl, holds⟩

/-- A reader that fails is mirrored by any reader. -/
theorem mirrors_fail
    (reason : List σ → ε)
    (mirror : Reader σ ε β) :
    (fail reason : Reader σ ε α).Mirrors mirror related := by
  intro input rest value ran
  cases ran

/-- A sequence is mirrored step by step. -/
theorem mirrors_bind
    {first : Reader σ ε α}
    {mirrorFirst : Reader σ ε β}
    {next : α → Reader σ ε γ}
    {mirrorNext : β → Reader σ ε δ}
    {wanted : γ → δ → Prop}
    (firsts : first.Mirrors mirrorFirst related)
    (nexts : ∀ value other, related value other →
      (next value).Mirrors (mirrorNext other) wanted) :
    (first >>= next).Mirrors (mirrorFirst >>= mirrorNext) wanted := by
  intro input rest result ran
  rw [run_bind] at ran
  split at ran
  · contradiction
  · next value middle ranFirst =>
      obtain ⟨other, mirrored, holds⟩ := firsts ranFirst
      rw [run_bind, mirrored]
      exact nexts value other holds ran

/-- Sequences that begin with the same reader. -/
theorem mirrors_bind_same
    {first : Reader σ ε α}
    {next : α → Reader σ ε γ}
    {mirrorNext : α → Reader σ ε δ}
    {wanted : γ → δ → Prop}
    (nexts : ∀ value, (next value).Mirrors (mirrorNext value) wanted) :
    (first >>= next).Mirrors (first >>= mirrorNext) wanted := by
  refine mirrors_bind (mirrors_refl first) fun value other equal => ?_
  subst equal
  exact nexts value

/-- Extensions whose continuations open at the same symbols and keep the relation. -/
theorem mirrors_extend
    {opens : σ → Option (α → Reader σ ε α)}
    {mirrorOpens : σ → Option (β → Reader σ ε β)}
    (continuations : ∀ symbol, Option.Rel
      (fun continuation mirror => ∀ value other, related value other →
        (continuation value).Mirrors (mirror other) related)
      (opens symbol) (mirrorOpens symbol))
    {value : α}
    {other : β}
    (start : related value other) :
    (extend opens value).Mirrors (extend mirrorOpens other) related := by
  intro input rest result ran
  induction length : input.length using Nat.strongRecOn generalizing value other input with
  | ind size hypothesis =>
      cases input with
      | nil =>
          rw [run_extend_nil] at ran
          cases ran
          exact ⟨other, run_extend_nil .., start⟩
      | cons symbol others =>
          have rounds := continuations symbol
          cases opened : opens symbol with
          | none =>
              rw [opened] at rounds
              cases mirrored : mirrorOpens symbol with
              | some mirror =>
                  rw [mirrored] at rounds
                  cases rounds
              | none =>
                  rw [run_extend_of_closed opened] at ran
                  cases ran
                  exact ⟨other, run_extend_of_closed mirrored .., start⟩
          | some continuation =>
              rw [opened] at rounds
              cases mirrored : mirrorOpens symbol with
              | none =>
                  rw [mirrored] at rounds
                  cases rounds
              | some mirror =>
                  rw [mirrored] at rounds
                  cases rounds with
                  | some keeps =>
                      rw [run_extend_of_opened opened] at ran
                      split at ran
                      · contradiction
                      · next extended middle ranRound =>
                          obtain ⟨extendedOther, mirrorRan, holds⟩ :=
                            keeps value other start ranRound
                          have shorter : middle.length < size := by
                            rw [← length]
                            exact Nat.lt_succ_of_le ((continuation value).notLonger ranRound)
                          rw [run_extend_of_opened mirrored, mirrorRan]
                          exact hypothesis middle.length shorter holds ran rfl

end

end Reader
end ModelEquation
