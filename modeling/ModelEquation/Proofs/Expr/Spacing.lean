import ModelEquation.Proofs.Grammar.Places
import ModelEquation.Proofs.Token.Spacing

/-!
# Expressions spaced anew

Neither the lexemes of a text nor what they form depend on the blanks between them. A text
that is spaced anew is read as the same expression within every limit, or it is refused for the
same reason at the same token.
-/

namespace ModelEquation

open Token (placed spaced tokenize)

namespace Expr

namespace Fault

/-- The fault with nothing said of places. -/
def unplaced : Fault → Fault
  | .lexical fault => .lexical { fault with position := 0 }
  | .unexpected expected found _ =>
      .unexpected expected (found.map (Token.moved fun _ => 0)) 0
  | .tooDeep limit _ => .tooDeep limit 0

end Fault

/-- Without its position a fault does not depend on where the tokens stand. -/
theorem Failure.unplaced_located
    (limit finish : Nat)
    (failure : Failure) :
    (failure.located limit finish).unplaced =
      (failure.moved fun _ => 0).located limit 0 := by
  obtain ⟨reason, remaining⟩ := failure
  cases remaining <;> cases reason <;> rfl

/-- But for places, what tokens form does not depend on where they and the end stand. -/
theorem unplaced_ofTokensUntil
    (options : Options)
    (finish : Nat)
    (tokens : List Token) :
    (ofTokensUntil options finish tokens).mapError Fault.unplaced =
      ofTokensUntil options 0 (tokens.map (Token.moved fun _ => 0)) := by
  rw [ofTokensUntil, ofTokensUntil, read_moved]
  cases read options tokens with
  | ok tree => rfl
  | error failure => exact congrArg Except.error (failure.unplaced_located _ finish)

/-- The tokens of a text, put apart by blanks that are not empty between them, are the tokens
of the text that results, at the places where they are put; and for all options this text forms
the same expression, or has the same fault but for places. -/
theorem parse_spaced
    {text last : List Char}
    {entries : List (List Char × Token)}
    (tokenized : tokenize text = .ok (entries.map Prod.snd))
    (wellSpaced : Token.WellSpaced last entries) :
    tokenize (spaced last entries) = .ok (placed 0 entries) ∧
      (placed 0 entries).map (fun token => (token.kind, token.text)) =
        entries.map (fun entry => (entry.2.kind, entry.2.text)) ∧
      ∀ options, (parse options (spaced last entries)).mapError Fault.unplaced =
        (parse options text).mapError Fault.unplaced := by
  have again := Token.tokenize_spaced tokenized wellSpaced
  refine ⟨again, Token.map_placed (fun _ _ => rfl) 0, fun options => ?_⟩
  have unmoved : (placed 0 entries).map (Token.moved fun _ => 0) =
      (entries.map Prod.snd).map (Token.moved fun _ => 0) := by
    rw [Token.map_placed (fun _ _ => rfl) 0, List.map_map]
  rw [parse, parse, tokenized, again]
  dsimp only
  rw [unplaced_ofTokensUntil, unplaced_ofTokensUntil, unmoved]

/-- A numeral that ends with a point and the name behind it, put apart by an ideographic
space. -/
theorem parse_spaced_of_numeral_before_name :
    tokenize "1.x".toList = .ok [⟨.number, "1.", 0⟩, ⟨.identifier, "x", 2⟩] ∧
      Token.WellSpaced [' ']
        [([], ⟨.number, "1.", 0⟩), (['\u3000'], ⟨.identifier, "x", 2⟩)] ∧
      tokenize "1.\u3000x ".toList = .ok [⟨.number, "1.", 0⟩, ⟨.identifier, "x", 5⟩] ∧
      ∀ options, (parse options "1.\u3000x ".toList).mapError Fault.unplaced =
        (parse options "1.x".toList).mapError Fault.unplaced := by
  have tokenized : tokenize "1.x".toList =
      .ok [⟨.number, "1.", 0⟩, ⟨.identifier, "x", 2⟩] := by
    with_unfolding_all rfl
  have wellSpaced : Token.WellSpaced [' ']
      [([], ⟨.number, "1.", 0⟩), (['\u3000'], ⟨.identifier, "x", 2⟩)] := by
    constructor <;> simp [Text.AllBlank, Text.isBlank]
  obtain ⟨again, _, same⟩ := parse_spaced tokenized wellSpaced
  exact ⟨tokenized, wellSpaced, again, same⟩

end Expr
end ModelEquation
