import ModelEquation.Proofs.Token.Spelling

/-!
# Runs of the rules

A run goes from one cursor to another by the rules that are chosen on the way, and reads
the tokens that these emit. All of a text is read by a run to its end, and a fault by a
run to a character at which no rule applies. What holds of every round therefore holds
of all that is read.
-/

namespace ModelEquation
namespace Token
namespace Cursor

/-- The tokens that become of a lexeme: one, or none if it only separates others. -/
def emitted (cursor : Cursor) (action : Action) (length : Nat) : List Token :=
  (action.kind?.map fun kind =>
    ⟨kind, String.ofList (cursor.rest.take length), cursor.position⟩).toList

/-- From one cursor the rules read some tokens and leave another cursor. -/
inductive Reads : Cursor → List Token → Cursor → Prop
  | refl (cursor : Cursor) : Reads cursor [] cursor
  | round {cursor after : Cursor} {action : Action} {length : Nat} {tokens : List Token}
      (nonempty : cursor.rest ≠ [])
      (chosen : Rule.choose? cursor.rest = some (action, length))
      (later : Reads (cursor.advance length) tokens after) :
      Reads cursor (cursor.emitted action length ++ tokens) after

/-- No rule applies at the cursor, which stands on the character. -/
def StuckOn (character : Char) (cursor : Cursor) : Prop :=
  cursor.rest.head? = some character ∧ Rule.choose? cursor.rest = none

section Rounds

variable {cursor : Cursor}

/-- The tokens of a text begin with those of the lexeme that is chosen. -/
theorem tokens_of_chosen
    {action : Action}
    {length : Nat}
    (nonempty : cursor.rest ≠ [])
    (chosen : Rule.choose? cursor.rest = some (action, length)) :
    cursor.tokens =
      (cursor.advance length).tokens.map (cursor.emitted action length ++ ·) := by
  rw [tokens_eq, next_of_choose? cursor nonempty chosen]
  cases emits : action.kind? with
  | some kind => simp [emitted, emits]
  | none =>
      have unchanged : (cursor.emitted action length ++ ·) = (id : List Token → List Token) := by
        funext tokens
        simp [emitted, emits]
      dsimp only
      rw [unchanged, ← tokens_eq]
      cases (cursor.advance length).tokens <;> rfl

/-- A cursor on a character at which no rule applies reports it and stays there. -/
theorem next_of_stuckOn
    {character : Char}
    (stuck : cursor.StuckOn character) :
    cursor.next = (.error ⟨cursor.position, character⟩, cursor) := by
  obtain ⟨stands, refused⟩ := stuck
  rw [next]
  split
  · next content => simp [content] at stands
  · next first others content =>
      have same : first = character := by simpa [content] using stands
      split
      · rw [same]
      · next found =>
          rw [refused] at found
          contradiction

/-- A cursor that is stuck reports its position and the character. -/
theorem tokens_of_stuckOn
    {character : Char}
    (stuck : cursor.StuckOn character) :
    cursor.tokens = .error ⟨cursor.position, character⟩ := by
  rw [tokens_eq, next_of_stuckOn stuck]

end Rounds

/-- Every run goes on until the text ends or no rule applies. -/
theorem exists_reads (cursor : Cursor) :
    ∃ tokens after, Reads cursor tokens after ∧
      (after.rest = [] ∨ ∃ character, after.StuckOn character) := by
  induction length : cursor.rest.length using Nat.strongRecOn generalizing cursor with
  | ind size hypothesis =>
      cases content : cursor.rest with
      | nil => exact ⟨[], cursor, .refl cursor, .inl content⟩
      | cons character others =>
          have nonempty : cursor.rest ≠ [] := by simp [content]
          cases chosen : Rule.choose? cursor.rest with
          | none => exact ⟨[], cursor, .refl cursor, .inr ⟨character, by simp [content], chosen⟩⟩
          | some choice =>
              obtain ⟨action, taken⟩ := choice
              obtain ⟨tokens, after, later, ends⟩ := hypothesis _
                (length ▸ length_advance_lt chosen nonempty) (cursor.advance taken) rfl
              exact ⟨_, after, .round nonempty chosen later, ends⟩

namespace Reads

variable {cursor after last : Cursor} {tokens others : List Token}

/-- The tokens of a text are those that a run reads and those behind it. -/
theorem tokens_eq (reads : Reads cursor tokens after) :
    cursor.tokens = after.tokens.map (tokens ++ ·) := by
  induction reads with
  | refl cursor => cases cursor.tokens <;> rfl
  | round nonempty chosen _ hypothesis =>
      rw [tokens_of_chosen nonempty chosen, hypothesis]
      cases Cursor.tokens _ <;> simp [Except.map]

/-- What a run takes is the text in front of the cursor that it leaves. -/
theorem exists_taken (reads : Reads cursor tokens after) :
    ∃ taken, cursor.rest = taken ++ after.rest ∧
      after.position = cursor.position + Text.byteLength taken := by
  induction reads with
  | refl cursor => exact ⟨[], rfl, rfl⟩
  | @round cursor after action length tokens nonempty chosen later hypothesis =>
      obtain ⟨taken, left, place⟩ := hypothesis
      refine ⟨cursor.rest.take length ++ taken, ?_, ?_⟩
      · rw [List.append_assoc, ← left, advance, List.take_append_drop]
      · rw [place, advance, Text.byteLength_append, Nat.add_assoc]

end Reads

/-- What a run takes is the first lexeme and what the rest of the run takes. -/
theorem taken_eq_of_advance
    {cursor after : Cursor}
    {length : Nat}
    {taken more : List Char}
    (split : cursor.rest = taken ++ after.rest)
    (left : (cursor.advance length).rest = more ++ after.rest) :
    taken = cursor.rest.take length ++ more := by
  refine (List.append_left_inj after.rest).mp ?_
  rw [← split, List.append_assoc, ← left, advance, List.take_append_drop]

/-- All of a text is read as tokens by a run to its end. -/
theorem reads_of_tokens_ok
    {cursor : Cursor}
    {tokens : List Token}
    (read : cursor.tokens = .ok tokens) :
    ∃ position, Reads cursor tokens ⟨position, []⟩ := by
  obtain ⟨found, ⟨position, rest⟩, reads, rfl | ⟨character, stuck⟩⟩ := exists_reads cursor
  · rw [reads.tokens_eq, tokens_nil] at read
    simp only [Except.map, List.append_nil, Except.ok.injEq] at read
    exact ⟨position, read ▸ reads⟩
  · rw [reads.tokens_eq, tokens_of_stuckOn stuck] at read
    contradiction

/-- A fault is the character at which a run is stuck. -/
theorem reads_of_tokens_error
    {cursor : Cursor}
    {fault : Fault}
    (refused : cursor.tokens = .error fault) :
    ∃ tokens after, Reads cursor tokens after ∧ after.StuckOn fault.character ∧
      after.position = fault.position := by
  obtain ⟨found, after, reads, ended | ⟨character, stuck⟩⟩ := exists_reads cursor
  · obtain ⟨position, rest⟩ := after
    subst ended
    rw [reads.tokens_eq, tokens_nil] at refused
    contradiction
  · rw [reads.tokens_eq, tokens_of_stuckOn stuck] at refused
    cases refused
    exact ⟨found, after, reads, stuck, rfl⟩

end Cursor

/-- A fault of a text is a character at which a run from its start is stuck. -/
theorem reads_of_tokenize_error
    {text : List Char}
    {fault : Fault}
    (refused : tokenize text = .error fault) :
    ∃ tokens front cursor, Cursor.Reads (.start text) tokens cursor ∧
      text = front ++ cursor.rest ∧ Text.byteLength front = fault.position ∧
      cursor.StuckOn fault.character := by
  obtain ⟨tokens, cursor, reads, stuck, place⟩ := Cursor.reads_of_tokens_error refused
  obtain ⟨front, split, position⟩ := reads.exists_taken
  refine ⟨tokens, front, cursor, reads, split, ?_, stuck⟩
  rw [← place, position]
  exact (Nat.zero_add _).symm

end Token
end ModelEquation
