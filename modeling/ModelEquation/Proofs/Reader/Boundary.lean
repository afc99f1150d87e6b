import ModelEquation.Proofs.Reader.Lookahead

/-!
# Readers that stop in front of a boundary

A reader that takes all of its input has seen the end behind it. `EndsBefore` says that it does
the same where something else follows that fits, and leaves this alone. For a sequence of readers
the end may be met by either of them: where the first one stops earlier, one symbol of lookahead
settles what it does, and a second reader that refuses the end excludes that the first one met it.
-/

namespace ModelEquation
namespace Reader

variable {σ ε α β ρ : Type} {report : ρ → List σ → ε} {fits : List σ → Prop}

/-- If the reader takes all of the input, it takes the same in front of whatever fits. -/
def EndsBeforeAt
    (fits : List σ → Prop)
    (reader : Reader σ ε α)
    (input : List σ) : Prop :=
  ∀ value, reader.run input = .ok (value, []) →
    ∀ other, fits other → reader.run (input ++ other) = .ok (value, other)

/-- Whatever input the reader takes as a whole, it takes the same in front of what fits. -/
def EndsBefore (fits : List σ → Prop) (reader : Reader σ ε α) : Prop :=
  ∀ input, reader.EndsBeforeAt fits input

/-- The reader refuses the end of the input. -/
def NeverEnds (reader : Reader σ ε α) : Prop :=
  ∀ result, reader.run [] ≠ .ok result

/-- What a reader with one symbol of lookahead leaves may go on in another way. -/
theorem OneAhead.run_append
    {reader : Reader σ ε α}
    (ahead : reader.OneAhead report)
    {input rest : List σ}
    {symbol : σ}
    {value : α}
    (ran : reader.run input = .ok (value, symbol :: rest))
    (other : List σ) :
    reader.run (input ++ other) = .ok (value, symbol :: rest ++ other) := by
  obtain ⟨taken, rfl, settled⟩ := (ahead input).of_run ran
  rw [List.append_assoc]
  exact settled _ rfl

section NeverEnds

theorem neverEnds_fail (reason : List σ → ε) : (Reader.fail reason : Reader σ ε α).NeverEnds :=
  fun _ => nofun

theorem NeverEnds.bind
    {first : Reader σ ε α}
    (never : first.NeverEnds)
    (next : α → Reader σ ε β) :
    (first >>= next).NeverEnds := by
  intro result ran
  rw [run_bind] at ran
  split at ran
  · contradiction
  · next found => exact never _ found

/-- At the end nothing is left for the second reader of a sequence. -/
theorem neverEnds_bind
    {next : α → Reader σ ε β}
    (first : Reader σ ε α)
    (nevers : ∀ value, (next value).NeverEnds) :
    (first >>= next).NeverEnds := by
  intro result ran
  rw [run_bind] at ran
  split at ran
  · contradiction
  · next value rest found =>
      have nothing := first.notLonger found
      rw [List.length_nil, Nat.le_zero, List.length_eq_zero_iff] at nothing
      rw [nothing] at ran
      exact nevers value result ran

end NeverEnds

theorem endsBefore_pure (value : α) : (Pure.pure value : Reader σ ε α).EndsBefore fits := by
  intro input result ran other _
  cases ran
  rfl

theorem endsBefore_fail (reason : List σ → ε) :
    (Reader.fail reason : Reader σ ε α).EndsBefore fits :=
  fun _ _ ran => nomatch ran

section Bind

variable {first : Reader σ ε α} {next : α → Reader σ ε β} (ahead : first.OneAhead report)
include ahead

/-- The end of the input is met by the first reader of a sequence, or by the second one behind
what the first one leaves. -/
theorem EndsBeforeAt.bind
    {input : List σ}
    (firsts : first.EndsBeforeAt fits input)
    (nexts : ∀ value middle, first.run input = .ok (value, middle) →
      (next value).EndsBeforeAt fits middle) :
    (first >>= next).EndsBeforeAt fits input := by
  intro result ran other follows
  rw [run_bind] at ran ⊢
  split at ran
  · contradiction
  · next value middle found =>
      have later := nexts value middle found result ran other follows
      cases middle with
      | nil =>
          rw [firsts value found other follows]
          exact later
      | cons symbol rest =>
          rw [ahead.run_append found other]
          exact later

theorem EndsBefore.bind
    (firsts : first.EndsBefore fits)
    (nexts : ∀ value, (next value).EndsBefore fits) :
    (first >>= next).EndsBefore fits :=
  fun input => EndsBeforeAt.bind ahead (firsts input) fun value middle _ => nexts value middle

/-- The first reader of a sequence does not meet the end if the second one refuses it. -/
theorem endsBefore_bind_of_neverEnds
    (nevers : ∀ value, (next value).NeverEnds)
    (nexts : ∀ value, (next value).EndsBefore fits) :
    (first >>= next).EndsBefore fits := by
  intro input result ran other follows
  rw [run_bind] at ran ⊢
  split at ran
  · contradiction
  · next value middle found =>
      cases middle with
      | nil => exact absurd ran (nevers value _)
      | cons symbol rest =>
          rw [ahead.run_append found other]
          exact nexts value _ result ran other follows

end Bind

/-- A reader that looks at the next symbol first, where there is one. -/
theorem endsBeforeAt_peek_bind
    {next : Option σ → Reader σ ε β}
    {symbol : σ}
    {others : List σ}
    (later : (next (some symbol)).EndsBeforeAt fits (symbol :: others)) :
    (peek >>= next).EndsBeforeAt fits (symbol :: others) :=
  fun value ran other follows => later value ran other follows

/-- A reader that takes one symbol first, where there is one. -/
theorem endsBeforeAt_skip_bind
    {next : Unit → Reader σ ε β}
    {symbol : σ}
    {others : List σ}
    (later : (next ()).EndsBeforeAt fits others) :
    (skip >>= next).EndsBeforeAt fits (symbol :: others) :=
  fun value ran other follows => later value ran other follows

/-- An extension ends where what fits opens nothing. A round and the rounds after it are a
sequence of readers. -/
theorem endsBefore_extend
    (report : ρ → List σ → ε)
    {opens : σ → Option (α → Reader σ ε α)}
    (closed : ∀ other, fits other → ∀ symbol ∈ other.head?, opens symbol = none)
    (ahead : ∀ symbol continuation, opens symbol = some continuation →
      ∀ value, (continuation value).OneAhead report)
    (continuations : ∀ symbol continuation, opens symbol = some continuation →
      ∀ value, (continuation value).EndsBefore fits)
    (value : α) :
    (Reader.extend opens value).EndsBefore fits := by
  intro input
  induction length : input.length using Nat.strongRecOn generalizing value input with
  | ind size hypothesis =>
      intro result ran other follows
      cases input with
      | nil =>
          rw [run_extend_nil] at ran
          cases ran
          exact run_extend_of_stops (closed other follows) value
      | cons symbol others =>
          cases opened : opens symbol with
          | none =>
              rw [run_extend_of_closed opened] at ran
              cases ran
          | some continuation =>
              have unrolled (rest : List σ) :
                  (Reader.extend opens value).run (symbol :: rest) =
                    (continuation value >>= Reader.extend opens).run rest :=
                run_extend_of_opened opened value rest
              rw [unrolled] at ran
              rw [List.cons_append, unrolled]
              refine EndsBeforeAt.bind (ahead symbol continuation opened value)
                (continuations symbol continuation opened value others) ?_ result ran other follows
              intro extended middle found
              exact hypothesis middle.length
                (length ▸ Nat.lt_succ_of_le ((continuation value).notLonger found)) extended middle
                rfl

end Reader
end ModelEquation
