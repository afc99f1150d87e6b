import ModelEquation.Equation.Separator

/-!
# The scan for a bare separator

The scan passes over what cannot be one: a character that is no part of a symbol with
`=` in it, a comparison, a quoted text. What it finds behind that is what it finds in the
whole text, with the characters passed over put before it.
-/

namespace ModelEquation
namespace Equation

@[simp] theorem map_putBefore_nil (parts : Option (List Char × List Char)) :
    parts.map (putBefore []) = parts := by
  cases parts <;> rfl

@[simp] theorem map_putBefore_map
    (front back : List Char)
    (parts : Option (List Char × List Char)) :
    (parts.map (putBefore back)).map (putBefore front) = parts.map (putBefore (front ++ back)) := by
  cases parts with
  | none => rfl
  | some pair => simp [putBefore]

/-- The characters that are a separator or that turn a following `=` into a comparison. -/
def symbols : List Char :=
  ['=', '!', '<', '>']

/-- The scan passes over a lexeme, whatever it finds behind it. -/
def Passes (lexeme rest : List Char) : Prop :=
  splitAtBare false (lexeme ++ rest) = (splitAtBare false rest).map (putBefore lexeme)

namespace Passes

variable {front back rest : List Char} {character : Char}

theorem nil (rest : List Char) : Passes [] rest := by
  simp [Passes]

/-- Texts that are passed over one after the other are passed over together. -/
theorem append
    (first : Passes front (back ++ rest))
    (second : Passes back rest) :
    Passes (front ++ back) rest := by
  rw [Passes] at first second ⊢
  rw [List.append_assoc, first, second, map_putBefore_map]

/-- A character is passed over unless it starts a string, is a separator or is one half of
a comparison. -/
theorem single
    (noQuote : character ≠ '"')
    (noSeparator : character ≠ '=')
    (alone : character ∈ symbols → rest.head? ≠ some '=') :
    Passes [character] rest := by
  rw [Passes, List.singleton_append]
  cases rest with
  | nil => simp [splitAtBare]
  | cons next others =>
      by_cases equals : next = '='
      · subst equals
        have other : character ∉ symbols := fun known => alone known rfl
        simp only [symbols, List.mem_cons, List.not_mem_nil, or_false, not_or] at other
        simp [splitAtBare, other]
      · simp [splitAtBare, equals]

/-- A symbol of two characters with `=` at its end is passed over. -/
theorem pair
    (known : character ∈ symbols)
    (rest : List Char) :
    Passes [character, '='] rest := by
  simp only [symbols, List.mem_cons, List.not_mem_nil, or_false] at known
  rcases known with rfl | rfl | rfl | rfl <;> rfl

/-- Characters that are no part of a symbol and start no string are passed over. -/
theorem plain
    {lexeme : List Char}
    (free : ∀ character ∈ lexeme, character ∉ '"' :: symbols)
    (rest : List Char) :
    Passes lexeme rest := by
  induction lexeme with
  | nil => exact nil rest
  | cons character others hypothesis =>
      obtain ⟨other, later⟩ := List.forall_mem_cons.mp free
      have noSymbol : character ∉ symbols := List.not_mem_of_not_mem_cons other
      have noSeparator : character ≠ '=' := by
        rintro rfl
        exact noSymbol (by decide)
      have first : Passes [character] (others ++ rest) :=
        single (List.ne_of_not_mem_cons other) noSeparator fun known => absurd known noSymbol
      exact first.append (hypothesis later)

end Passes

/-- Inside a string literal the scan goes on to the next double quote. -/
theorem splitAtBare_body
    {body : List Char}
    (free : '"' ∉ body)
    (rest : List Char) :
    splitAtBare true (body ++ '"' :: rest) =
      (splitAtBare false rest).map (putBefore (body ++ ['"'])) := by
  induction body with
  | nil => rfl
  | cons character others hypothesis =>
      obtain ⟨other, later⟩ := List.ne_and_not_mem_of_not_mem_cons free
      have inside : (character != '"') = true := bne_iff_ne.mpr (Ne.symm other)
      rw [List.cons_append, splitAtBare, inside, hypothesis later, map_putBefore_map]
      rfl

/-- A quoted text is passed over. -/
theorem Passes.quoted
    {body : List Char}
    (free : '"' ∉ body)
    (rest : List Char) :
    Passes ('"' :: (body ++ ['"'])) rest := by
  rw [Passes]
  have split : '"' :: (body ++ ['"']) ++ rest = '"' :: (body ++ '"' :: rest) := by simp
  rw [split, splitAtBare, splitAtBare_body free, map_putBefore_map]
  rfl

/-- A bare `=` is found where it stands. -/
theorem splitAtBare_separator
    {rest : List Char}
    (bare : rest.head? ≠ some '=') :
    splitAtBare false ('=' :: rest) = some ([], rest) := by
  cases rest with
  | nil => rfl
  | cons next others =>
      have other : next ≠ '=' := by simpa using bare
      simp [splitAtBare, other]

end Equation
end ModelEquation
