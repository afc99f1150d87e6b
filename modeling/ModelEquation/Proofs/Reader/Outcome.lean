import ModelEquation.Reader

/-!
# Outcomes of readers

`Reader.Ensures` says what a reader does with one input: what a returned value
has to do with the symbols that were taken and those that are left, and what
holds of a failure. Each way of building a reader has one rule. The rule of
`Reader.extend` asks for an invariant of the value, of all symbols taken so far
and of the symbols that are left. `Reader.Returns` speaks of the returned value alone, for
all inputs.
-/

namespace ModelEquation
namespace Reader

variable {σ ε α β : Type}

/-- A sequence returns what its second reader returns behind the first one. -/
theorem run_bind_eq_ok_iff
    {first : Reader σ ε α}
    {next : α → Reader σ ε β}
    {input rest : List σ}
    {result : β} :
    (first >>= next).run input = .ok (result, rest) ↔
      ∃ value middle, first.run input = .ok (value, middle) ∧
        (next value).run middle = .ok (result, rest) := by
  rw [run_bind]
  cases first.run input with
  | error failure => simp
  | ok outcome =>
      constructor
      · exact fun ran => ⟨outcome.1, outcome.2, rfl, ran⟩
      · rintro ⟨value, middle, same, ran⟩
        cases same
        exact ran

/-- A value that the reader returns for the input satisfies `returned`, together
with the symbols taken and those left, and a failure satisfies `failed`. -/
def Ensures
    (reader : Reader σ ε α)
    (input : List σ)
    (returned : α → List σ → List σ → Prop)
    (failed : ε → Prop) : Prop :=
  match reader.run input with
  | .ok (value, rest) => ∃ taken, input = taken ++ rest ∧ returned value taken rest
  | .error failure => failed failure

namespace Ensures

variable {reader : Reader σ ε α} {input : List σ}
variable {returned : α → List σ → List σ → Prop} {failed : ε → Prop}

/-- What a returned value satisfies. -/
theorem of_run
    {value : α}
    {rest : List σ}
    (ensures : reader.Ensures input returned failed)
    (ran : reader.run input = .ok (value, rest)) :
    ∃ taken, input = taken ++ rest ∧ returned value taken rest := by
  simpa only [Ensures, ran] using ensures

/-- What a failure satisfies. -/
theorem of_run_error
    {failure : ε}
    (ensures : reader.Ensures input returned failed)
    (ran : reader.run input = .error failure) :
    failed failure := by
  simpa only [Ensures, ran] using ensures

/-- Weaker conditions on the outcome. -/
theorem mono
    {weaker : α → List σ → List σ → Prop}
    {failedWeaker : ε → Prop}
    (ensures : reader.Ensures input returned failed)
    (implies : ∀ value taken rest, input = taken ++ rest →
      returned value taken rest → weaker value taken rest)
    (failedImplies : ∀ failure, failed failure → failedWeaker failure) :
    reader.Ensures input weaker failedWeaker := by
  unfold Ensures at ensures ⊢
  split at ensures
  · next value rest ran =>
      obtain ⟨taken, split, holds⟩ := ensures
      exact ⟨taken, split, implies value taken rest split holds⟩
  · next failure ran => exact failedImplies failure ensures

/-- A weaker condition on the returned value. -/
theorem imp
    {weaker : α → List σ → List σ → Prop}
    (ensures : reader.Ensures input returned failed)
    (implies : ∀ value taken rest, input = taken ++ rest →
      returned value taken rest → weaker value taken rest) :
    reader.Ensures input weaker failed :=
  ensures.mono implies fun _ holds => holds

end Ensures

section

variable {input : List σ} {failed : ε → Prop}

/-- Returning a value takes nothing. -/
theorem ensures_pure
    {value : α}
    {returned : α → List σ → List σ → Prop}
    (holds : returned value [] input) :
    (pure value : Reader σ ε α).Ensures input returned failed :=
  ⟨[], rfl, holds⟩

/-- A sequence of readers goes on from what the first of them returns. -/
theorem ensures_bind
    {first : Reader σ ε α}
    {next : α → Reader σ ε β}
    {returned : β → List σ → List σ → Prop}
    (ensures : first.Ensures input
      (fun value taken middle =>
        (next value).Ensures middle
          (fun result more rest => returned result (taken ++ more) rest) failed)
      failed) :
    (first >>= next).Ensures input returned failed := by
  unfold Ensures at ensures ⊢
  rw [run_bind]
  split at ensures
  · next value middle ran =>
      obtain ⟨taken, rfl, continued⟩ := ensures
      simp only [ran]
      split at continued
      · next result rest ranNext =>
          obtain ⟨more, rfl, holds⟩ := continued
          simp only [ranNext]
          exact ⟨taken ++ more, (List.append_assoc taken more rest).symm, holds⟩
      · next failure ranNext => simpa only [ranNext] using continued
  · next failure ran => simpa only [ran] using ensures

/-- A reader that fails. -/
theorem ensures_fail
    {reason : List σ → ε}
    {returned : α → List σ → List σ → Prop}
    (holds : failed (reason input)) :
    (fail reason : Reader σ ε α).Ensures input returned failed :=
  holds

/-- Looking at the next symbol takes nothing. -/
theorem ensures_peek_bind
    {next : Option σ → Reader σ ε β}
    {returned : β → List σ → List σ → Prop}
    (ensures : (next input.head?).Ensures input returned failed) :
    (peek >>= next).Ensures input returned failed :=
  ensures_bind ⟨[], rfl, ensures⟩

/-- Skipping takes the next symbol. -/
theorem ensures_skip_bind
    {symbol : σ}
    {next : Unit → Reader σ ε β}
    {returned : β → List σ → List σ → Prop}
    (ensures : (next ()).Ensures input
      (fun result more rest => returned result (symbol :: more) rest) failed) :
    (skip >>= next).Ensures (symbol :: input) returned failed :=
  ensures_bind ⟨[symbol], rfl, ensures⟩

/-- An extension keeps an invariant that every continuation keeps, and it ends where no
continuation opens. The invariant speaks of all symbols that were taken for the value, those
before the extension included. It is carried along the rounds, each of which shortens the input.
-/
theorem ensures_extend
    {opens : σ → Option (α → Reader σ ε α)}
    (invariant : α → List σ → List σ → Prop)
    (step : ∀ symbol continuation value before others,
      opens symbol = some continuation →
      invariant value before (symbol :: others) →
      (continuation value).Ensures others
        (fun extended taken rest => invariant extended (before ++ symbol :: taken) rest) failed)
    {value : α}
    {before : List σ}
    (start : invariant value before input) :
    (extend opens value).Ensures input
      (fun result taken rest =>
        invariant result (before ++ taken) rest ∧ ∀ symbol ∈ rest.head?, opens symbol = none)
      failed := by
  induction length : input.length using Nat.strongRecOn generalizing value before input with
  | ind size hypothesis =>
      cases input with
      | nil =>
          unfold Ensures
          rw [run_extend_nil]
          exact ⟨[], rfl, by simpa using start, by simp⟩
      | cons symbol others =>
          cases opened : opens symbol with
          | none =>
              unfold Ensures
              rw [run_extend_of_closed opened]
              exact ⟨[], rfl, by simpa using start, by simpa using opened⟩
          | some continuation =>
              have continued := step symbol continuation value before others opened start
              unfold Ensures at continued ⊢
              rw [run_extend_of_opened opened]
              split at continued
              · next extended middle ran =>
                  obtain ⟨taken, rfl, holds⟩ := continued
                  have shorter : middle.length < size := by
                    rw [← length, List.length_cons, List.length_append]
                    omega
                  have rounds := hypothesis middle.length shorter holds rfl
                  unfold Ensures at rounds
                  simp only [ran]
                  split at rounds
                  · next result rest ranRounds =>
                      obtain ⟨more, rfl, final, ends⟩ := rounds
                      simp only [ranRounds]
                      refine ⟨symbol :: (taken ++ more), by simp, ?_, ends⟩
                      simpa using final
                  · next failure ranRounds => simpa only [ranRounds] using rounds
              · next failure ran => simpa only [ran] using continued

end

/-- Every value that the reader returns has the property. -/
def Returns (reader : Reader σ ε α) (property : α → Prop) : Prop :=
  ∀ ⦃input rest : List σ⦄ ⦃value : α⦄, reader.run input = .ok (value, rest) → property value

section

variable {property : α → Prop}

theorem Returns.imp
    {weaker : α → Prop}
    {reader : Reader σ ε α}
    (returns : reader.Returns property)
    (implies : ∀ value, property value → weaker value) :
    reader.Returns weaker :=
  fun _ _ value ran => implies value (returns ran)

/-- Nothing is asked of the value. -/
theorem returns_any (reader : Reader σ ε α) : reader.Returns fun _ => True :=
  fun _ _ _ _ => trivial

theorem returns_pure
    {value : α}
    (holds : property value) :
    (pure value : Reader σ ε α).Returns property := by
  intro input rest result ran
  cases ran
  exact holds

theorem returns_fail (reason : List σ → ε) :
    (fail reason : Reader σ ε α).Returns property := by
  intro input rest value ran
  cases ran

/-- What a sequence returns has a property that its second reader gives it, knowing one of the
first. -/
theorem returns_bind
    {first : Reader σ ε α}
    {next : α → Reader σ ε β}
    {wanted : β → Prop}
    (returns : first.Returns property)
    (continued : ∀ value, property value → (next value).Returns wanted) :
    (first >>= next).Returns wanted := by
  intro input rest result ran
  rw [run_bind] at ran
  split at ran
  · contradiction
  · next value middle ranFirst => exact continued value (returns ranFirst) ran

/-- An extension keeps a property that every continuation keeps. -/
theorem returns_extend
    {opens : σ → Option (α → Reader σ ε α)}
    (step : ∀ symbol continuation value, opens symbol = some continuation →
      property value → (continuation value).Returns property)
    {value : α}
    (start : property value) :
    (extend opens value).Returns property := by
  intro input rest result ran
  change extendFrom opens value input = .ok (result, rest) at ran
  fun_induction extendFrom opens value input with
  | case1 => cases ran; exact start
  | case2 => cases ran; exact start
  | case3 => cases ran
  | case4 value symbol others continuation opened extended middle continued hypothesis =>
      exact hypothesis (step symbol continuation value opened start continued) ran

end

end Reader
end ModelEquation
