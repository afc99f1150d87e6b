import ModelEquation.Operator
import ModelEquation.Proofs.Token.Numeral
import ModelEquation.Token.Cursor

/-!
# Texts that spell tokens

A text spells tokens where it is read as them whatever its place and whatever follows,
as long as what follows fits. Texts that spell tokens are put together one after the
other, and blanks between them change nothing.
-/

namespace ModelEquation
namespace Token

namespace Cursor

/-- All tokens are the next one and those after it. -/
theorem tokens_eq (cursor : Cursor) :
    cursor.tokens =
      match cursor.next with
      | (.error fault, _) => .error fault
      | (.ok none, _) => .ok []
      | (.ok (some token), after) => after.tokens.map (token :: ·) := by
  rw [tokens]
  split <;> simp_all

theorem tokens_nil (position : Nat) : (Cursor.mk position []).tokens = .ok [] := by
  rw [tokens_eq, next]

/-- The chosen rule says whether the lexeme is the next token. -/
theorem next_of_choose?
    (cursor : Cursor)
    {action : Action}
    {length : Nat}
    (nonempty : cursor.rest ≠ [])
    (chosen : Rule.choose? cursor.rest = some (action, length)) :
    cursor.next =
      match action.kind? with
      | some kind =>
          (.ok (some ⟨kind, String.ofList (cursor.rest.take length), cursor.position⟩),
            cursor.advance length)
      | none => (cursor.advance length).next := by
  rw [next]
  split
  case h_1 content => exact absurd content nonempty
  case h_2 =>
    split
    case h_1 missing =>
      rw [chosen] at missing
      contradiction
    case h_2 found =>
      rw [chosen] at found
      cases found
      rfl

/-- A lexeme that becomes a token is the first of the tokens. -/
theorem tokens_of_choose?
    {lexeme rest : List Char}
    {action : Action}
    {kind : Kind}
    (nonempty : lexeme ≠ [])
    (chosen : Rule.choose? (lexeme ++ rest) = some (action, lexeme.length))
    (emitted : action.kind? = some kind)
    (position : Nat) :
    (Cursor.mk position (lexeme ++ rest)).tokens =
      (Cursor.mk (position + Text.byteLength lexeme) rest).tokens.map
        (⟨kind, String.ofList lexeme, position⟩ :: ·) := by
  have step := next_of_choose? ⟨position, lexeme ++ rest⟩ (by simp [nonempty]) chosen
  rw [emitted] at step
  rw [tokens_eq, step]
  simp [advance]

/-- A run of blanks is passed over. -/
theorem next_of_isBlank
    {first : Char}
    (known : Text.isBlank first = true)
    (position : Nat)
    (others : List Char) :
    (Cursor.mk position (first :: others)).next =
      ((Cursor.mk (position + first.utf8Size) others).advance
        (others.takeWhile Text.isBlank).length).next := by
  rw [next_of_choose? ⟨position, first :: others⟩ (by simp) (Rule.choose?_of_isBlank known others)]
  simp [Action.kind?, advance, Nat.add_comm 1, Nat.add_assoc]

/-- A blank changes nothing but the place of the token after it. -/
theorem next_cons_of_isBlank
    {first : Char}
    (known : Text.isBlank first = true)
    (position : Nat)
    (others : List Char) :
    (Cursor.mk position (first :: others)).next =
      (Cursor.mk (position + first.utf8Size) others).next := by
  rw [next_of_isBlank known]
  cases others with
  | nil => simp [advance]
  | cons second later =>
      cases again : Text.isBlank second with
      | false => simp [advance, again]
      | true =>
          rw [next_of_isBlank again]
          simp [advance, again, Nat.add_assoc]

/-- A blank changes nothing but the places of the tokens after it. -/
theorem tokens_of_isBlank
    {first : Char}
    (known : Text.isBlank first = true)
    (position : Nat)
    (others : List Char) :
    (Cursor.mk position (first :: others)).tokens =
      (Cursor.mk (position + first.utf8Size) others).tokens := by
  rw [tokens_eq, next_cons_of_isBlank known, ← tokens_eq]

end Cursor

/-- Whatever follows fits. -/
def Anything (_ : List Char) : Prop :=
  True

/-- Before whatever fits, the text is read as tokens that are accepted. -/
def Spells
    (text : List Char)
    (fits : List Char → Prop)
    (accepts : List Token → Prop) :
    Prop :=
  ∀ position rest, fits rest → ∃ tokens after,
    accepts tokens ∧
      (Cursor.mk position (text ++ rest)).tokens =
        (Cursor.mk after rest).tokens.map (tokens ++ ·)

/-- Tokens of which there is one, with the given kind and lexeme. -/
def IsToken (kind : Kind) (lexeme : String) (tokens : List Token) : Prop :=
  ∃ token, tokens = [token] ∧ token.kind = kind ∧ token.text = lexeme

/-- Tokens that are accepted by one and then by the other. -/
def Joined (first second : List Token → Prop) (tokens : List Token) : Prop :=
  ∃ front back, tokens = front ++ back ∧ first front ∧ second back

namespace Spells

variable {front back text : List Char} {fits narrower : List Char → Prop}
variable {accepts wider first second : List Token → Prop}

/-- A text that spells tokens is read as them. -/
theorem tokenize
    (spells : Spells text fits accepts)
    (ended : fits []) :
    ∃ tokens, accepts tokens ∧ Token.tokenize text = .ok tokens := by
  obtain ⟨tokens, after, accepted, read⟩ := spells 0 [] ended
  rw [List.append_nil, Cursor.tokens_nil] at read
  refine ⟨tokens, accepted, ?_⟩
  rw [Token.tokenize, Cursor.start, read]
  simp [Except.map]

theorem imp
    (spells : Spells text fits accepts)
    (implies : ∀ tokens, accepts tokens → wider tokens) :
    Spells text fits wider := by
  intro position rest follows
  obtain ⟨tokens, after, accepted, read⟩ := spells position rest follows
  exact ⟨tokens, after, implies tokens accepted, read⟩

/-- A text that needs nothing of what follows spells the same before whatever fits. -/
theorem anywhere
    (spells : Spells text Anything accepts) :
    Spells text fits accepts :=
  fun position rest _ => spells position rest trivial

theorem nil : Spells [] fits (· = []) := by
  intro position rest _
  refine ⟨[], position, rfl, ?_⟩
  rw [List.nil_append]
  cases (Cursor.mk position rest).tokens <;> rfl

/-- Texts one after the other spell the tokens of both, if the second fits behind the
first. -/
theorem append
    (spells : Spells front fits first)
    (continued : Spells back narrower second)
    (meets : ∀ rest, narrower rest → fits (back ++ rest)) :
    Spells (front ++ back) narrower (Joined first second) := by
  intro position rest follows
  obtain ⟨frontTokens, middle, frontAccepted, frontRead⟩ := spells position _ (meets rest follows)
  obtain ⟨backTokens, after, backAccepted, backRead⟩ := continued middle rest follows
  refine ⟨frontTokens ++ backTokens, after, ⟨_, _, rfl, frontAccepted, backAccepted⟩, ?_⟩
  rw [List.append_assoc, frontRead, backRead]
  cases (Cursor.mk after rest).tokens <;> simp [Except.map]

/-- A blank in front of a text is passed over. -/
theorem blank
    (spells : Spells text fits accepts) :
    Spells (' ' :: text) fits accepts := by
  intro position rest follows
  rw [List.cons_append, Cursor.tokens_of_isBlank (by decide)]
  exact spells _ rest follows

end Spells

/-! ## Lexemes -/

/-- A lexeme that a rule chooses before whatever fits spells its token. -/
theorem spells_of_choose?
    (lexeme : String)
    (action : Action)
    {fits : List Char → Prop}
    {kind : Kind}
    (nonempty : lexeme.toList ≠ [])
    (emitted : action.kind? = some kind)
    (chosen : ∀ rest, fits rest →
      Rule.choose? (lexeme.toList ++ rest) = some (action, lexeme.toList.length)) :
    Spells lexeme.toList fits (IsToken kind lexeme) := by
  intro position rest follows
  have read := Cursor.tokens_of_choose? nonempty (chosen rest follows) emitted position
  rw [String.ofList_toList] at read
  exact ⟨_, _, ⟨_, rfl, rfl, rfl⟩, read⟩

/-- A name spells one identifier. -/
theorem spells_name
    {name : String}
    (known : isName name = true) :
    Spells name.toList Breaks (IsToken .identifier name) := by
  apply spells_of_choose? name (.emit .identifier)
  · intro empty
    simp [isName, empty] at known
  · rfl
  · exact fun rest follows => Rule.choose?_of_isName known follows

/-- A quoted text spells one string. -/
theorem spells_quoted
    {text : String}
    (known : isQuoted text = true) :
    Spells text.toList Anything (IsToken .stringLiteral text) := by
  apply spells_of_choose? text (.emit .stringLiteral)
  · intro empty
    simp [isQuoted, empty] at known
  · rfl
  · exact fun rest _ => Rule.choose?_of_isQuoted known rest

/-- A numeral spells one number. -/
theorem spells_number
    {text : List Char}
    (whole : Pattern.number.measure text = some text.length) :
    Spells text Breaks (IsToken .number (String.ofList text)) := by
  have spelled : (String.ofList text).toList = text := String.toList_ofList
  rw [← spelled] at whole ⊢
  rw [String.ofList_toList]
  apply spells_of_choose? _ (.emit .number)
  · have positive := Pattern.number.positive whole
    exact List.ne_nil_of_length_pos positive
  · rfl
  · intro rest follows
    apply Rule.choose?_of_number
    rw [Pattern.measure_number_append
      (fun next ahead => Pattern.isNumeralPart_of_mem_breaks (follows next ahead)), whole]

theorem spells_sign (operator : Sign) :
    Spells operator.symbol.toList Anything (IsToken .operator operator.symbol) := by
  cases operator <;> exact spells_of_choose? _ (.emit .operator) (by decide) rfl fun _ _ => rfl

/-- The symbol of an operation spells one operator. -/
theorem spells_arithmetic (operator : Arithmetic) :
    Spells operator.symbol.toList Anything (IsToken .operator operator.symbol) := by
  cases operator <;> exact spells_of_choose? _ (.emit .operator) (by decide) rfl fun _ _ => rfl

/-- The symbol of a comparison spells one comparison, where no other symbol follows. -/
theorem spells_comparison (operator : Comparison) :
    Spells operator.symbol.toList Spaced (IsToken .comparison operator.symbol) := by
  cases operator <;> refine spells_of_choose? _ (.emit .comparison) (by decide) rfl ?_ <;>
    rintro _ ⟨others, rfl⟩ <;> rfl

/-- The kind of the word that a connective is. -/
def connectiveKind : Connective → Kind
  | .and => .andWord
  | .or => .orWord

/-- The word of a connective spells one connective, where it ends. -/
theorem spells_connective (operator : Connective) :
    Spells operator.symbol.toList Spaced (IsToken (connectiveKind operator) operator.symbol) := by
  cases operator <;> refine spells_of_choose? _ (.word _) (by decide) rfl ?_ <;>
    rintro _ ⟨others, rfl⟩ <;> rfl

/-- The marks that are tokens of a kind of their own. -/
def markKind? : Char → Option Kind
  | '(' => some .leftParenthesis
  | ')' => some .rightParenthesis
  | '[' => some .leftBracket
  | ']' => some .rightBracket
  | ',' => some .comma
  | '.' => some .dot
  | _ => none

theorem spells_mark
    (mark : Char)
    {kind : Kind}
    (known : markKind? mark = some kind) :
    Spells [mark] Anything (IsToken kind mark.toString) := by
  unfold markKind? at known
  split at known <;> first
    | contradiction
    | cases known
      exact spells_of_choose? _ (.emit _) (by decide) rfl fun _ _ => rfl

/-- Tokens that are accepted, between two of the given kinds. -/
def Enclosed
    (openingKind closingKind : Kind)
    (accepts : List Token → Prop)
    (tokens : List Token) :
    Prop :=
  ∃ opening inner closing, tokens = opening :: inner ++ [closing] ∧
    opening.kind = openingKind ∧ accepts inner ∧ closing.kind = closingKind

theorem Enclosed.imp
    {openingKind closingKind : Kind}
    {accepts wider : List Token → Prop}
    {tokens : List Token}
    (enclosed : Enclosed openingKind closingKind accepts tokens)
    (implies : ∀ inner, accepts inner → wider inner) :
    Enclosed openingKind closingKind wider tokens := by
  obtain ⟨opening, inner, closing, split, opens, accepted, closes⟩ := enclosed
  exact ⟨opening, inner, closing, split, opens, implies inner accepted, closes⟩

/-- A text between two marks spells its tokens between those of the marks. -/
theorem Spells.enclosed
    (opening closing : Char)
    {openingKind closingKind : Kind}
    {content : List Char}
    {accepts : List Token → Prop}
    (opens : markKind? opening = some openingKind)
    (closes : markKind? closing = some closingKind)
    (break_ahead : closing ∈ breaks)
    (inside : Spells content Breaks accepts) :
    Spells (opening :: (content ++ [closing])) Anything
      (Enclosed openingKind closingKind accepts) := by
  have ends := inside.append (spells_mark closing closes) fun rest _ =>
    breaks_cons break_ahead rest
  apply ((spells_mark opening opens).append ends fun _ _ => trivial).imp
  rintro _ ⟨_, _, rfl, ⟨first, rfl, firstKind, _⟩, inner, _, rfl, accepted,
    ⟨last, rfl, lastKind, _⟩⟩
  exact ⟨first, inner, last, rfl, firstKind, accepted, lastKind⟩

/-- The words of a conditional. -/
def conditionalKind? : String → Option Kind
  | "if" => some .ifWord
  | "then" => some .thenWord
  | "else" => some .elseWord
  | _ => none

theorem spells_conditionalWord
    (word : String)
    {kind : Kind}
    (known : conditionalKind? word = some kind) :
    Spells word.toList Spaced (IsToken kind word) := by
  unfold conditionalKind? at known
  split at known <;> first
    | contradiction
    | cases known
      refine spells_of_choose? _ (.word _) (by decide) rfl ?_
      rintro _ ⟨others, rfl⟩
      rfl

/-- Tokens that are accepted, with the words of a conditional in front of them. -/
def Branching
    (condition first second : List Token → Prop)
    (tokens : List Token) :
    Prop :=
  ∃ ifToken conditionTokens thenToken trueTokens elseToken falseTokens,
    tokens = ifToken :: conditionTokens ++ thenToken :: trueTokens ++ elseToken :: falseTokens ∧
      ifToken.kind = .ifWord ∧ condition conditionTokens ∧
      thenToken.kind = .thenWord ∧ first trueTokens ∧
      elseToken.kind = .elseWord ∧ second falseTokens

/-- Texts with the words of a conditional in front of them spell their tokens behind these. -/
theorem spells_branching
    {condition whenTrue whenFalse : List Char}
    {accepts first second : List Token → Prop}
    (conditionSpells : Spells condition Breaks accepts)
    (trueSpells : Spells whenTrue Breaks first)
    (falseSpells : Spells whenFalse Breaks second) :
    Spells
      (['i', 'f', ' '] ++ condition ++ [' ', 't', 'h', 'e', 'n', ' '] ++ whenTrue ++
        [' ', 'e', 'l', 's', 'e', ' '] ++ whenFalse)
      Breaks (Branching accepts first second) := by
  have spaced (text rest : List Char) : Spaced (' ' :: text ++ rest) := ⟨text ++ rest, rfl⟩
  have breaks_ahead (text rest : List Char) : Breaks (' ' :: text ++ rest) :=
    (spaced text rest).breaks
  have fromElse := (spells_conditionalWord "else" rfl).append falseSpells.blank
    fun rest _ => spaced _ rest
  have fromTrue := trueSpells.append fromElse.blank fun rest _ => breaks_ahead _ rest
  have fromThen := (spells_conditionalWord "then" rfl).append fromTrue.blank
    fun rest _ => spaced _ rest
  have fromCondition := conditionSpells.append fromThen.blank fun rest _ => breaks_ahead _ rest
  have whole := (spells_conditionalWord "if" rfl).append fromCondition.blank
    fun rest _ => spaced _ rest
  have text : "if".toList ++ ' ' :: (condition ++ ' ' :: ("then".toList ++ ' ' :: (whenTrue ++
      ' ' :: ("else".toList ++ ' ' :: whenFalse)))) =
      ['i', 'f', ' '] ++ condition ++ [' ', 't', 'h', 'e', 'n', ' '] ++ whenTrue ++
        [' ', 'e', 'l', 's', 'e', ' '] ++ whenFalse := by
    simp
  rw [text] at whole
  apply whole.imp
  rintro _ ⟨_, _, rfl, ⟨ifToken, rfl, ifKind, _⟩, conditionTokens, _, rfl, accepted,
    _, _, rfl, ⟨thenToken, rfl, thenKind, _⟩, trueTokens, _, rfl, trueAccepted,
    _, falseTokens, rfl, ⟨elseToken, rfl, elseKind, _⟩, falseAccepted⟩
  refine ⟨ifToken, conditionTokens, thenToken, trueTokens, elseToken, falseTokens, ?_, ifKind,
    accepted, thenKind, trueAccepted, elseKind, falseAccepted⟩
  simp only [List.append_assoc, List.cons_append, List.nil_append]

end Token
end ModelEquation
