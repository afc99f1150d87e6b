import Mathlib.Data.List.Nodup
import ModelEquation.Proofs.Number.Whole
import ModelEquation.Proofs.Text.Blank
import ModelEquation.Proofs.Token.Run
import ModelEquation.Proofs.Token.Stuck

/-!
# Lexemes of a text

Where all of a text is read as tokens, the lexeme of a token is what its kind asks for:
an identifier is a dotted name and no reserved word, a string is a quoted text, and a
numeral denotes no number with a sign.

The name rule may well take the letters of a reserved word. The rule of that word did
not apply before it, and not because of a dot, which the name would have taken as well;
so a word character beyond ASCII follows. No rule applies to such a character, and the
text is not read any further.
-/

namespace ModelEquation

/-! ## Numerals without a sign -/

section Unsigned

variable {literal : List Char} (unsigned : Decimal.splitSign literal = (false, literal))
include unsigned

/-- What a literal without a sign denotes as an integer is not negative. -/
theorem Number.toInt_nonneg_of_integer?
    {value : Int64}
    (denoted : Number.integer? literal = some value) :
    0 ≤ value.toInt := by
  unfold Number.integer? at denoted
  split at denoted
  · contradiction
  · simp only [Number.digitwise?, unsigned] at denoted
    split at denoted
    · rw [Number.foldlM_appendDigit?, Number.checked_eq_some_iff] at denoted
      rw [denoted, Number.signed_false]
      exact Int.natCast_nonneg _
    · contradiction

/-- What a literal without a sign denotes as a double is not negative. -/
theorem Binary64.isNegative_of_ofText?
    {value : Binary64}
    (denoted : Binary64.ofText? literal = some value) :
    value.isNegative = false := by
  simp only [Binary64.ofText?, unsigned] at denoted
  split at denoted
  · cases denoted
    exact Binary64.isNegative_ofRatio _ _ _
  · unfold Binary64.ofWord? at denoted
    dsimp only at denoted
    split at denoted
    · cases denoted
      rfl
    · split at denoted
      · cases denoted
        rfl
      · contradiction

end Unsigned

/-- A literal that starts with a digit denotes no number with a sign. -/
theorem Number.isLiteral_of_ofText?
    {first : Char}
    {others : List Char}
    {value : Number}
    (digit : first.isDigit = true)
    (denoted : Number.ofText? (first :: others) = some value) :
    value.isLiteral = true := by
  have unsigned := Number.splitSign_of_isDigit digit others
  unfold Number.ofText? at denoted
  split at denoted
  · next whole found =>
      cases denoted
      exact decide_eq_true (Number.toInt_nonneg_of_integer? unsigned found)
  · obtain ⟨double, kept, rfl⟩ := Option.map_eq_some_iff.mp denoted
    obtain ⟨read, finite⟩ := Option.filter_eq_some_iff.mp kept
    simp [Number.isLiteral, finite, Binary64.isNegative_of_ofText? unsigned read]

namespace Token

namespace Rule

open Pattern (isNamePart isNameStart continuesWord)

variable {text : List Char} {length : Nat}

/-! ## The rule that was chosen -/

/-- The action that is chosen is that of the rule which applies. -/
theorem measure?_of_choose?
    {rule : Rule}
    (known : rule ∈ table)
    (chosen : choose? text = some (rule.action, length)) :
    rule.measure? text = some length := by
  have distinct : (table.map Rule.action).Nodup := by decide
  obtain ⟨other, member, applies⟩ := List.exists_of_findSome?_eq_some chosen
  obtain ⟨measured, found, same⟩ := Option.map_eq_some_iff.mp applies
  have equal : other = rule :=
    List.inj_on_of_nodup_map distinct member known (Prod.mk.inj same).1
  rw [← equal, found, (Prod.mk.inj same).2]

/-- No rule before the one that is chosen applies. -/
theorem measure?_eq_none_of_choose?
    {before after : List Rule}
    {action : Action}
    (split : table = before ++ after)
    (others : ∀ rule ∈ before, rule.action ≠ action)
    (chosen : choose? text = some (action, length)) :
    ∀ rule ∈ before, rule.measure? text = none := by
  rw [choose?, split, List.findSome?_append] at chosen
  intro rule member
  cases earlier : before.findSome? fun rule =>
      (rule.measure? text).map fun length => (rule.action, length) with
  | none => exact Option.map_eq_none_iff.mp (List.findSome?_eq_none_iff.mp earlier rule member)
  | some result =>
      rw [earlier, Option.some_or] at chosen
      cases chosen
      obtain ⟨first, known, applies⟩ := List.exists_of_findSome?_eq_some earlier
      obtain ⟨_, _, same⟩ := Option.map_eq_some_iff.mp applies
      exact absurd (Prod.mk.inj same).1 (others first known)

/-- No rule applies to a word character beyond ASCII. -/
theorem choose?_eq_none_of_isWordCharacter
    {character : Char}
    (beyond : 0x80 ≤ character.toNat)
    (word : Text.isWordCharacter character = true)
    (others : List Char) :
    choose? (character :: others) = none := by
  have other (mark : Char) (ascii : mark.toNat < 0x80) : character ≠ mark := by
    rintro rfl
    omega
  have noMark : character ∉ certainMarks := by
    have ascii : certainMarks.all (fun mark => decide (mark.toNat < 0x80)) = true := by decide
    rw [List.all_eq_true] at ascii
    exact fun member => other character (of_decide_eq_true (ascii character member)) rfl
  have noName : (character.isAlphanum || character == '_') = false := by
    by_contra known
    have ascii := ascii_of_alphanumeric ((Bool.not_eq_false _).mp known)
    omega
  rw [choose?_cons_eq_none_iff]
  exact ⟨Text.isBlank_eq_false_of_isWordCharacter beyond word, noName, noMark,
    fun same => absurd same (other '"' (by decide)),
    fun either => either.elim (fun same => absurd same (other '=' (by decide)))
      fun same => absurd same (other '!' (by decide))⟩

/-! ## Names -/

/-- The rule of a word applies to its letters unless a word character or a dot follows. -/
theorem measure?_word_append
    (kind : Kind)
    (letter : Char)
    (letters rest : List Char) :
    measure? ⟨.word kind, .word letter letters⟩ (letter :: letters ++ rest) =
      if continuesWord rest || startsWithDot rest then none else some (letters.length + 1) := by
  have starts : (letter :: letters).isPrefixOf (letter :: letters ++ rest) = true := by simp
  have behind : (letter :: letters ++ rest).drop (letters.length + 1) = rest := by simp
  simp only [measure?, Pattern.word, starts, behind, Bool.true_and]
  cases continuesWord rest <;> cases ends : startsWithDot rest <;> simp [Option.filter, ends]

/-- Where the letters of a word are taken for a name, a word character beyond ASCII
follows. -/
theorem isWordCharacter_of_passed
    {kind : Kind}
    {letter : Char}
    {letters rest : List Char}
    (stops : ∀ next ∈ rest.head?, isNamePart next = false)
    (passed : measure? ⟨.word kind, .word letter letters⟩ (letter :: letters ++ rest) = none) :
    ∃ next others, rest = next :: others ∧ 0x80 ≤ next.toNat ∧
      Text.isWordCharacter next = true := by
  rw [measure?_word_append] at passed
  cases rest with
  | nil => simp [continuesWord, startsWithDot] at passed
  | cons next others =>
      have ended : isNamePart next = false := stops next rfl
      have noDot : next ≠ '.' := by
        rintro rfl
        exact absurd ended (by decide)
      have word : Text.isWordCharacter next = true := by
        simpa [continuesWord, startsWithDot, noDot] using passed
      refine ⟨next, others, rfl, Nat.le_of_not_lt fun ascii => ?_, word⟩
      rw [Text.isWordCharacter_of_ascii ascii] at word
      simp [isNamePart, word] at ended

/-- The lexeme of the name rule, and what follows it. -/
theorem split_of_choose?_name
    (chosen : choose? text = some (.emit .identifier, length)) :
    ∃ first others rest, text = first :: others ++ rest ∧ length = (first :: others).length ∧
      isNameStart first = true ∧ (∀ part ∈ others, isNamePart part = true) ∧
      ∀ next ∈ rest.head?, isNamePart next = false := by
  have named : (⟨.emit .identifier, .name⟩ : Rule) ∈ table := by simp [table]
  have measured := measure?_of_choose? named chosen
  simp only [measure?, Pattern.name] at measured
  split at measured
  · contradiction
  · next first later =>
      split at measured
      · next starts =>
          cases measured
          refine ⟨first, later.takeWhile isNamePart, later.dropWhile isNamePart, ?_, ?_, starts,
            List.all_eq_true.mp List.all_takeWhile, ?_⟩
          · rw [List.cons_append, List.takeWhile_append_dropWhile]
          · rw [List.length_cons, Nat.add_comm]
          · intro next following
            have stops := List.head?_dropWhile_not isNamePart later
            rwa [following] at stops
      · contradiction

/-- The words with a rule before that of the names. -/
theorem exists_rule_of_mem_reserved
    {word : String}
    (known : word ∈ reserved) :
    ∃ kind letter letters, word.toList = letter :: letters ∧
      (⟨.word kind, .word letter letters⟩ : Rule) ∈ table.take 15 := by
  simp only [reserved, List.mem_cons, List.not_mem_nil, or_false] at known
  rcases known with rfl | rfl | rfl | rfl | rfl | rfl
  · exact ⟨.ifWord, 'i', ['f'], rfl, by simp [table]⟩
  · exact ⟨.thenWord, 't', ['h', 'e', 'n'], rfl, by simp [table]⟩
  · exact ⟨.elseWord, 'e', ['l', 's', 'e'], rfl, by simp [table]⟩
  · exact ⟨.andWord, 'a', ['n', 'd'], rfl, by simp [table]⟩
  · exact ⟨.orWord, 'o', ['r'], rfl, by simp [table]⟩
  · exact ⟨.notWord, 'n', ['o', 't'], rfl, by simp [table]⟩

/-- The name rule takes a reserved word only where nothing can be read behind it. -/
theorem choose?_eq_none_of_reserved
    {word : String}
    (known : word ∈ reserved)
    {rest : List Char}
    (stops : ∀ next ∈ rest.head?, isNamePart next = false)
    (chosen : choose? (word.toList ++ rest) = some (.emit .identifier, length)) :
    rest ≠ [] ∧ choose? rest = none := by
  obtain ⟨kind, letter, letters, spelled, earlier⟩ := exists_rule_of_mem_reserved known
  rw [spelled] at chosen
  have passed := measure?_eq_none_of_choose? (List.take_append_drop 15 table).symm (by decide)
    chosen _ earlier
  obtain ⟨next, others, rfl, beyond, continues⟩ := isWordCharacter_of_passed stops passed
  exact ⟨by simp, choose?_eq_none_of_isWordCharacter beyond continues others⟩

/-! ## Quoted texts and numerals -/

/-- A text without quotes is quoted by the two around it. -/
theorem isQuoted_of_body
    {body : List Char}
    (free : ∀ character ∈ body, (character != '"') = true) :
    isQuoted (String.ofList ('"' :: (body ++ ['"']))) = true := by
  have taken : (body ++ ['"']).takeWhile (· != '"') = body := by
    rw [List.takeWhile_append_of_pos free]
    simp
  simp [isQuoted, taken]

/-- The lexeme of the rule of quoted texts is one. -/
theorem isQuoted_of_choose?
    (chosen : choose? text = some (.emit .stringLiteral, length)) :
    isQuoted (String.ofList (text.take length)) = true := by
  have named : (⟨.emit .stringLiteral, .quoted⟩ : Rule) ∈ table := by simp [table]
  have measured : Pattern.quoted.measure text = some length := measure?_of_choose? named chosen
  obtain ⟨body, rest, rfl, rfl, free⟩ := Pattern.split_of_measure_quoted measured
  rw [Pattern.take_quoted]
  exact isQuoted_of_body free

/-- The lexeme of the rule of numerals starts with a digit. -/
theorem isDigit_of_choose?
    (chosen : choose? text = some (.emit .number, length)) :
    ∃ first others, text.take length = first :: others ∧ first.isDigit = true := by
  have named : (⟨.emit .number, .number⟩ : Rule) ∈ table := by simp [table]
  have measured := measure?_of_choose? named chosen
  have positive := positive_of_measure? measured
  cases text with
  | nil => simp [measure?, Pattern.number, Pattern.digitCount] at measured
  | cons first others =>
      refine ⟨first, others.take (length - 1), ?_, ?_⟩
      · rw [← Nat.succ_pred_eq_of_pos positive]
        rfl
      · by_contra other
        simp [measure?, Pattern.number, Pattern.digitCount, other] at measured

end Rule

/-! ## Tokens -/

/-- The lexeme of the token is what its kind asks for. -/
structure IsLexed (token : Token) : Prop where
  name : token.kind = .identifier → isName token.text = true
  quoted : token.kind = .stringLiteral → isQuoted token.text = true
  literal : token.kind = .number →
    ∀ value, Number.ofText? token.text.toList = some value → value.isLiteral = true

namespace Cursor

open Pattern (isNamePart isNameStart)

variable {cursor after : Cursor} {token : Token} {tokens : List Token}

/-- Where no rule applies in front of the end, the text is not read. -/
theorem tokens_ne_ok_of_choose?_eq_none
    (nonempty : cursor.rest ≠ [])
    (refused : Rule.choose? cursor.rest = none) :
    cursor.tokens ≠ .ok tokens := by
  obtain ⟨character, others, content⟩ := List.exists_cons_of_ne_nil nonempty
  have stuck : cursor.StuckOn character := ⟨by rw [content]; rfl, refused⟩
  simp [tokens_of_stuckOn stuck]

/-- What the name rule takes is no reserved word if the text behind it is read. -/
theorem isName_of_choose?
    {length : Nat}
    (chosen : Rule.choose? cursor.rest = some (.emit .identifier, length))
    (read : (cursor.advance length).tokens = .ok tokens) :
    isName (String.ofList (cursor.rest.take length)) = true := by
  obtain ⟨first, others, rest, split, rfl, starts, parts, stops⟩ :=
    Rule.split_of_choose?_name chosen
  have lexeme : cursor.rest.take (first :: others).length = first :: others := by
    rw [split, List.take_left]
  rw [lexeme]
  refine (isName_iff _).mpr ⟨first, others, String.toList_ofList, starts, parts, fun known => ?_⟩
  have behind : (cursor.advance (first :: others).length).rest = rest := by
    rw [advance, split, List.drop_left]
  rw [split] at chosen
  have refused := Rule.choose?_eq_none_of_reserved known stops
    (by rwa [String.toList_ofList])
  refine tokens_ne_ok_of_choose?_eq_none ?_ ?_ read
  · rw [behind]
    exact refused.1
  · rw [behind]
    exact refused.2

/-- The lexeme of a token that a rule emits is what its kind asks for, if the rest is read. -/
theorem isLexed_of_choose?
    {action : Action}
    {kind : Kind}
    {length : Nat}
    (chosen : Rule.choose? cursor.rest = some (action, length))
    (emitted : action.kind? = some kind)
    (read : (cursor.advance length).tokens = .ok tokens) :
    IsLexed ⟨kind, String.ofList (cursor.rest.take length), cursor.position⟩ := by
  have actions : ∀ action ∈ Rule.table.map Rule.action,
      ∀ kind ∈ [Kind.identifier, .stringLiteral, .number],
        action.kind? = some kind → action = .emit kind := by decide
  have listed : action ∈ Rule.table.map Rule.action := by
    obtain ⟨rule, known, applies⟩ := List.exists_of_findSome?_eq_some chosen
    obtain ⟨_, _, same⟩ := Option.map_eq_some_iff.mp applies
    exact List.mem_map.mpr ⟨rule, known, (Prod.mk.inj same).1⟩
  constructor
  · rintro rfl
    obtain rfl := actions action listed .identifier (by simp) emitted
    exact isName_of_choose? chosen read
  · rintro rfl
    obtain rfl := actions action listed .stringLiteral (by simp) emitted
    exact Rule.isQuoted_of_choose? chosen
  · rintro rfl value denoted
    obtain rfl := actions action listed .number (by simp) emitted
    obtain ⟨first, others, lexeme, digit⟩ := Rule.isDigit_of_choose? chosen
    rw [String.toList_ofList, lexeme] at denoted
    exact Number.isLiteral_of_ofText? digit denoted

theorem isLexed_of_next
    (taken : cursor.next = (.ok (some token), after))
    (read : after.tokens = .ok tokens) :
    token.IsLexed := by
  fun_induction next cursor with
  | case1 => simp at taken
  | case2 => simp at taken
  | case3 cursor character others content action length chosen kind known =>
      cases taken
      exact isLexed_of_choose? chosen known read
  | case4 cursor character others content action length chosen known hypothesis =>
      exact hypothesis taken

/-- Every token that is read to the end of the text is what its kind asks for. -/
theorem isLexed_of_tokens
    (read : cursor.tokens = .ok tokens) :
    ∀ token ∈ tokens, token.IsLexed := by
  fun_induction Cursor.tokens cursor generalizing tokens with
  | case1 => contradiction
  | case2 =>
      cases read
      simp
  | case3 cursor token after taken hypothesis =>
      cases rest : after.tokens with
      | error fault => simp [rest, Except.map] at read
      | ok others =>
          simp only [rest, Except.map, Except.ok.injEq] at read
          subst read
          exact List.forall_mem_cons.mpr ⟨isLexed_of_next taken rest, hypothesis rest⟩

end Cursor

/-- Every token of a text that is read to its end has the lexeme of its kind. -/
theorem isLexed_of_tokenize
    {text : List Char}
    {tokens : List Token}
    (read : tokenize text = .ok tokens) :
    ∀ token ∈ tokens, token.IsLexed :=
  Cursor.isLexed_of_tokens read

/-- A reserved word with a letter beyond ASCII behind it is no name. -/
example : tokenize "ifé".toList = .error ⟨2, 'é'⟩ := by
  with_unfolding_all rfl

end Token
end ModelEquation
