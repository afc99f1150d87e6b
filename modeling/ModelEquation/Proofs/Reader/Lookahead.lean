import ModelEquation.Proofs.Reader.Loop
import ModelEquation.Proofs.Reader.Outcome

/-!
# Readers that look one symbol ahead

What a reader with one symbol of lookahead does is settled by the symbols that it takes
and by the next one after them. If the symbols behind that are replaced by others, it
returns the same value, or fails for the same reason, at the same place. A failure is
made from its reason and the symbols that are left by `report`.
-/

namespace ModelEquation
namespace Reader

variable {σ ε α β ρ : Type} {report : ρ → List σ → ε}

/-- The outcome for the input is that for every other input which begins with the same
symbols, as far as they are taken and by one symbol more. -/
def OneAheadAt
    (report : ρ → List σ → ε)
    (reader : Reader σ ε α)
    (input : List σ) : Prop :=
  reader.Ensures input
    (fun value taken rest => ∀ other, other.head? = rest.head? →
      reader.run (taken ++ other) = .ok (value, other))
    (fun failure => ∃ reason taken rest, input = taken ++ rest ∧ failure = report reason rest ∧
      ∀ other, other.head? = rest.head? →
        reader.run (taken ++ other) = .error (report reason other))

/-- The reader looks at most one symbol ahead on every input. -/
def OneAhead (report : ρ → List σ → ε) (reader : Reader σ ε α) : Prop :=
  ∀ input, reader.OneAheadAt report input

/-- A sequence looks ahead as far as its first reader, and as far as the second one does where
the first one stops. The symbols that the second reader takes are part of what follows the first
one. -/
theorem OneAheadAt.bind
    {first : Reader σ ε α}
    {next : α → Reader σ ε β}
    {input : List σ}
    (firsts : first.OneAheadAt report input)
    (nexts : ∀ value middle, first.run input = .ok (value, middle) →
      (next value).OneAheadAt report middle) :
    (first >>= next).OneAheadAt report input := by
  have extends_ahead {other rest : List σ} (more : List σ) (agrees : other.head? = rest.head?) :
      (more ++ other).head? = (more ++ rest).head? := by
    simp [List.head?_append, agrees]
  unfold OneAheadAt Ensures at firsts ⊢
  rw [run_bind]
  split at firsts
  · next value middle ran =>
      have later := nexts value middle ran
      obtain ⟨taken, rfl, settled⟩ := firsts
      unfold OneAheadAt Ensures at later
      simp only [ran]
      split at later
      · next result rest ranNext =>
          obtain ⟨more, rfl, continued⟩ := later
          simp only [ranNext]
          refine ⟨taken ++ more, by simp, fun other agrees => ?_⟩
          rw [List.append_assoc, run_bind, settled _ (extends_ahead more agrees)]
          exact continued other agrees
      · next failure ranNext =>
          obtain ⟨reason, more, rest, rfl, rfl, continued⟩ := later
          simp only [ranNext]
          refine ⟨reason, taken ++ more, rest, by simp, rfl, fun other agrees => ?_⟩
          rw [List.append_assoc, run_bind, settled _ (extends_ahead more agrees)]
          exact continued other agrees
  · next failure ran =>
      obtain ⟨reason, taken, rest, rfl, rfl, settled⟩ := firsts
      simp only [ran]
      refine ⟨reason, taken, rest, rfl, rfl, fun other agrees => ?_⟩
      rw [run_bind, settled other agrees]

namespace OneAhead

theorem pure (value : α) : (Pure.pure value : Reader σ ε α).OneAhead report :=
  fun _ => ⟨[], rfl, fun _ _ => rfl⟩

theorem fail (reason : ρ) : (Reader.fail (report reason) : Reader σ ε α).OneAhead report :=
  fun input => ⟨reason, [], input, rfl, rfl, fun _ _ => rfl⟩

/-- To look at the next symbol is to look one symbol ahead. -/
theorem peek : (Reader.peek : Reader σ ε (Option σ)).OneAhead report := by
  intro input
  refine ⟨[], rfl, fun other agrees => ?_⟩
  rw [List.nil_append, run_peek, agrees]

theorem skip : (Reader.skip : Reader σ ε Unit).OneAhead report := by
  intro input
  cases input with
  | nil =>
      refine ⟨[], rfl, fun other agrees => ?_⟩
      rw [List.head?_eq_none_iff.mp agrees]
      rfl
  | cons symbol others => exact ⟨[symbol], rfl, fun _ _ => rfl⟩

/-- A sequence looks one symbol ahead if both of its readers do. -/
theorem bind
    {first : Reader σ ε α}
    {next : α → Reader σ ε β}
    (firsts : first.OneAhead report)
    (nexts : ∀ value, (next value).OneAhead report) :
    (first >>= next).OneAhead report :=
  fun input => (firsts input).bind fun value middle _ => nexts value middle

/-- Whether an extension goes on depends on the next symbol alone. A round and the rounds after
it are a sequence of readers. -/
theorem extend
    {opens : σ → Option (α → Reader σ ε α)}
    (continuations : ∀ symbol continuation, opens symbol = some continuation →
      ∀ value, (continuation value).OneAhead report)
    (value : α) :
    (Reader.extend opens value).OneAhead report := by
  intro input
  induction length : input.length using Nat.strongRecOn generalizing value input with
  | ind size hypothesis =>
      by_cases stops : ∀ symbol ∈ input.head?, opens symbol = none
      · unfold OneAheadAt Ensures
        rw [run_extend_of_stops stops]
        refine ⟨[], rfl, fun other agrees => run_extend_of_stops ?_ value⟩
        rwa [List.nil_append, agrees]
      · cases input with
        | nil => simp at stops
        | cons symbol others =>
            obtain ⟨continuation, opened⟩ : ∃ continuation, opens symbol = some continuation :=
              Option.ne_none_iff_exists'.mp (by simpa using stops)
            have unrolled (rest : List σ) :
                (Reader.extend opens value).run (symbol :: rest) =
                  (continuation value >>= Reader.extend opens).run rest :=
              run_extend_of_opened opened value rest
            have rounds : (continuation value >>= Reader.extend opens).OneAheadAt report others :=
              OneAheadAt.bind (continuations symbol continuation opened value others)
                fun extended middle ran => hypothesis middle.length
                  (length ▸ Nat.lt_succ_of_le ((continuation value).notLonger ran))
                  extended middle rfl
            unfold OneAheadAt Ensures at rounds ⊢
            rw [unrolled]
            split at rounds
            · next result rest ran =>
                obtain ⟨taken, rfl, settled⟩ := rounds
                refine ⟨symbol :: taken, rfl, fun other agrees => ?_⟩
                rw [List.cons_append, unrolled, settled other agrees]
            · next failure ran =>
                obtain ⟨reason, taken, rest, rfl, rfl, settled⟩ := rounds
                refine ⟨reason, symbol :: taken, rest, rfl, rfl, fun other agrees => ?_⟩
                rw [List.cons_append, unrolled, settled other agrees]

end OneAhead
end Reader
end ModelEquation
