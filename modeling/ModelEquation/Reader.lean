/-!
# Readers

A reader takes symbols from the front of a list and returns a value with the
symbols that are left, or fails. It never returns more symbols than it was given,
and this makes the loop of `Reader.extend`, which takes at least one symbol in
each round, terminate.
-/

namespace ModelEquation

/-- A reader of symbols `σ` that returns values `α` or fails with `ε`. -/
structure Reader (σ ε α : Type) where
  run : List σ → Except ε (α × List σ)
  notLonger : ∀ {input rest : List σ} {value : α},
    run input = .ok (value, rest) → rest.length ≤ input.length

namespace Reader

variable {σ ε α β : Type}

/-- Returns a value and takes nothing. -/
def produce (value : α) : Reader σ ε α where
  run input := .ok (value, input)
  notLonger := by
    intro input rest result ran
    cases ran
    exact Nat.le_refl _

/-- Reads with a first reader, then with one that depends on its value. -/
def followedBy (first : Reader σ ε α) (next : α → Reader σ ε β) : Reader σ ε β where
  run input :=
    match first.run input with
    | .error failure => .error failure
    | .ok (value, rest) => (next value).run rest
  notLonger := by
    intro input rest result ran
    split at ran
    · contradiction
    · next value middle firstRan =>
        exact Nat.le_trans ((next value).notLonger ran) (first.notLonger firstRan)

instance : Monad (Reader σ ε) where
  pure := produce
  bind := followedBy

/-- Fails, with a reason that may depend on the symbols that are left. -/
def fail (reason : List σ → ε) : Reader σ ε α where
  run input := .error (reason input)
  notLonger := by
    intro input rest result ran
    cases ran

/-- Returns the next symbol without taking it. -/
def peek : Reader σ ε (Option σ) where
  run input := .ok (input.head?, input)
  notLonger := by
    intro input rest result ran
    cases ran
    exact Nat.le_refl _

/-- Takes one symbol, if any is left. -/
def skip : Reader σ ε Unit where
  run input := .ok ((), input.tail)
  notLonger := by
    intro input rest result ran
    cases ran
    simp

/-- A reader that is made only when it runs. -/
def defer (reader : Unit → Reader σ ε α) : Reader σ ε α where
  run input := (reader ()).run input
  notLonger := fun ran => (reader ()).notLonger ran

/-- Extends a value for as long as the next symbol opens a continuation of it. -/
def extendFrom
    (opens : σ → Option (α → Reader σ ε α))
    (value : α) :
    List σ → Except ε (α × List σ)
  | [] => .ok (value, [])
  | symbol :: others =>
      match opens symbol with
      | none => .ok (value, symbol :: others)
      | some continuation =>
          match _ran : (continuation value).run others with
          | .error failure => .error failure
          | .ok (extended, rest) => extendFrom opens extended rest
termination_by input => input.length
decreasing_by exact Nat.lt_succ_of_le ((continuation value).notLonger _ran)

theorem length_extendFrom_le
    {opens : σ → Option (α → Reader σ ε α)}
    {value result : α}
    {input rest : List σ}
    (ran : extendFrom opens value input = .ok (result, rest)) :
    rest.length ≤ input.length := by
  fun_induction extendFrom opens value input with
  | case1 => cases ran; exact Nat.le_refl _
  | case2 => cases ran; exact Nat.le_refl _
  | case3 => cases ran
  | case4 value symbol others continuation opened extended middle continued hypothesis =>
      have shorter := (continuation value).notLonger continued
      have whole := hypothesis ran
      simp only [List.length_cons]
      omega

/-- Extends a value for as long as the next symbol opens a continuation of it. -/
def extend (opens : σ → Option (α → Reader σ ε α)) (value : α) : Reader σ ε α where
  run input := extendFrom opens value input
  notLonger := length_extendFrom_le

@[simp] theorem run_pure (value : α) (input : List σ) :
    (pure value : Reader σ ε α).run input = .ok (value, input) := rfl

@[simp] theorem run_bind
    (first : Reader σ ε α)
    (next : α → Reader σ ε β)
    (input : List σ) :
    (first >>= next).run input =
      match first.run input with
      | .error failure => .error failure
      | .ok (value, rest) => (next value).run rest := rfl

@[simp] theorem run_fail (reason : List σ → ε) (input : List σ) :
    (fail reason : Reader σ ε α).run input = .error (reason input) := rfl

@[simp] theorem run_peek (input : List σ) :
    (peek : Reader σ ε (Option σ)).run input = .ok (input.head?, input) := rfl

@[simp] theorem run_skip (input : List σ) :
    (skip : Reader σ ε Unit).run input = .ok ((), input.tail) := rfl

@[simp] theorem run_defer (reader : Unit → Reader σ ε α) (input : List σ) :
    (defer reader).run input = (reader ()).run input := rfl

@[simp] theorem run_extend_nil (opens : σ → Option (α → Reader σ ε α)) (value : α) :
    (extend opens value).run [] = .ok (value, []) := by
  simp [extend, extendFrom]

/-- A symbol that opens nothing ends the extension. -/
theorem run_extend_of_closed
    {opens : σ → Option (α → Reader σ ε α)}
    {symbol : σ}
    (closed : opens symbol = none)
    (value : α)
    (others : List σ) :
    (extend opens value).run (symbol :: others) = .ok (value, symbol :: others) := by
  simp [extend, extendFrom, closed]

/-- A symbol that opens a continuation is taken, the continuation is read, and
the extension goes on from its value. -/
theorem run_extend_of_opened
    {opens : σ → Option (α → Reader σ ε α)}
    {symbol : σ}
    {continuation : α → Reader σ ε α}
    (opened : opens symbol = some continuation)
    (value : α)
    (others : List σ) :
    (extend opens value).run (symbol :: others) =
      match (continuation value).run others with
      | .error failure => .error failure
      | .ok (extended, rest) => (extend opens extended).run rest := by
  simp only [extend]
  rw [extendFrom]
  simp only [opened]
  split <;> simp_all

end Reader
end ModelEquation
