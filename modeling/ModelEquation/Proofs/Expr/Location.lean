import ModelEquation.Expr.Parser
import ModelEquation.Proofs.Grammar.Lookahead
import ModelEquation.Proofs.Token.Tiling

/-!
# What faults point at

A fault of a text points at the character at which no token starts, at a token that stands
there with its text, or at the end of the input. It does so in every longer text as well,
further on by what is put in front.
-/

namespace ModelEquation

open Text (byteLength characterAt? slice?)

namespace Expr

namespace Fault

/-- The fault points at the character that it reports, at a token among those given that
stands in the text, or at the end of the input. -/
def PointsInto (text : List Char) (tokens : List Token) (finish : Nat) : Fault → Prop
  | .lexical fault => characterAt? text fault.position = some fault.character
  | .unexpected _ (some token) position =>
      token ∈ tokens ∧ token.StandsIn text ∧ position = token.position
  | .unexpected _ none position => position = finish
  | .tooDeep _ position =>
      (∃ token ∈ tokens, token.StandsIn text ∧ position = token.position) ∨ position = finish

variable {text : List Char} {tokens : List Token} {finish : Nat} {fault : Fault}

/-- Shifting a fault shifts the position that it reports. -/
theorem position_shifted (offset : Nat) (fault : Fault) :
    (fault.shifted offset).position = fault.position + offset := by
  cases fault <;> rfl

/-- A fault points at the same in a text that begins before it. -/
theorem PointsInto.shifted
    (points : fault.PointsInto text tokens finish)
    (front back : List Char) :
    (fault.shifted (byteLength front)).PointsInto (front ++ (text ++ back))
      (tokens.map (Token.shifted (byteLength front))) (finish + byteLength front) := by
  cases fault with
  | lexical fault => exact Text.characterAt?_within front back points
  | unexpected expected found position =>
      cases found with
      | none => exact congrArg (· + byteLength front) points
      | some token =>
          obtain ⟨member, stands, place⟩ := points
          exact ⟨List.mem_map_of_mem member, stands.shifted front back,
            congrArg (· + byteLength front) place⟩
  | tooDeep limit position =>
      rcases points with ⟨token, member, stands, place⟩ | ended
      · exact .inl ⟨token.shifted (byteLength front), List.mem_map_of_mem member,
          stands.shifted front back, congrArg (· + byteLength front) place⟩
      · exact .inr (congrArg (· + byteLength front) ended)

theorem position_le_of_standsIn
    {token : Token}
    (stands : token.StandsIn text) :
    token.position ≤ byteLength text := by
  obtain ⟨front, back, rfl, place, _⟩ := Text.slice?_eq_some_iff.mp stands
  rw [Text.byteLength_append]
  omega

/-- What a fault points at in a text is not behind the text. -/
theorem PointsInto.position_le
    (points : fault.PointsInto text tokens (byteLength text)) :
    fault.position ≤ byteLength text := by
  cases fault with
  | lexical fault =>
      obtain ⟨front, back, rfl, place⟩ := Text.characterAt?_eq_some_iff.mp points
      rw [Text.byteLength_append, place]
      exact Nat.le_add_right ..
  | unexpected expected found position =>
      cases found with
      | none => exact Nat.le_of_eq points
      | some token =>
          obtain ⟨_, stands, rfl⟩ := points
          exact position_le_of_standsIn stands
  | tooDeep limit position =>
      rcases points with ⟨token, _, stands, rfl⟩ | ended
      · exact position_le_of_standsIn stands
      · exact Nat.le_of_eq ended

end Fault

/-- The tokens that are left at a failure are the last ones. -/
theorem exists_taken_of_read_error
    {options : Options}
    {tokens : List Token}
    {failure : Failure}
    (refused : read options tokens = .error failure) :
    ∃ taken, tokens = taken ++ failure.remaining := by
  unfold read at refused
  cases ran : (Grammar.wholeExpression options.maxDepth).run tokens with
  | ok result =>
      rw [ran] at refused
      contradiction
  | error found =>
      rw [ran] at refused
      cases refused
      obtain ⟨reason, taken, rest, split, rfl, _⟩ :=
        (Grammar.wholeExpression_oneAhead options.maxDepth tokens).of_run_error ran
      exact ⟨taken, split⟩

/-- A failure is located at the first token that is left, or at the end of the input. -/
theorem Failure.located_pointsInto
    {text : List Char}
    {tokens taken : List Token}
    {failure : Failure}
    (stand : ∀ token ∈ tokens, token.StandsIn text)
    (split : tokens = taken ++ failure.remaining)
    (limit finish : Nat) :
    (failure.located limit finish).PointsInto text tokens finish := by
  obtain ⟨reason, remaining⟩ := failure
  cases remaining with
  | nil =>
      cases reason with
      | unexpected expected => rfl
      | tooDeep => exact .inr rfl
  | cons token others =>
      have member : token ∈ tokens := by simp [split]
      cases reason with
      | unexpected expected => exact ⟨member, stand token member, rfl⟩
      | tooDeep => exact .inl ⟨token, member, stand token member, rfl⟩

/-- Every fault of a text points into it. -/
theorem pointsInto_of_parse_error
    {options : Options}
    {text : List Char}
    {fault : Fault}
    (refused : parse options text = .error fault) :
    fault.PointsInto text (Token.ofText text) (byteLength text) := by
  unfold parse at refused
  cases tokenized : Token.tokenize text with
  | error stopped =>
      rw [tokenized] at refused
      cases refused
      exact Token.characterAt?_of_tokenize_error tokenized
  | ok tokens =>
      have all : Token.ofText text = tokens := by simp [Token.ofText, tokenized, Except.toOption]
      rw [tokenized] at refused
      dsimp only at refused
      cases formed : read options tokens with
      | ok tree =>
          rw [ofTokensUntil_of_read_ok _ formed] at refused
          contradiction
      | error failure =>
          rw [ofTokensUntil_of_read_error _ formed] at refused
          cases refused
          obtain ⟨taken, split⟩ := exists_taken_of_read_error formed
          rw [all]
          exact Failure.located_pointsInto
            (fun token member => Token.standsIn_of_mem_ofText (all ▸ member)) split _ _

end Expr
end ModelEquation
