import ModelEquation.Proofs.Token.Enclosed
import ModelEquation.Proofs.Token.Longest

/-!
# Texts spaced anew

A lexeme that becomes a token is one of the same kind on its own, whatever stood behind it in
its text. What its pattern measures there it measures again where nothing follows, since only
the boundary of a word looks further, and a word ends where its text does. Nothing longer can
be measured, and where words and names are told apart the lexeme tells its kind.

The tokens of a text may therefore be put apart by other blanks. They are read again with
their kinds and lexemes, at the places where they are put.
-/

namespace ModelEquation
namespace Token

open Pattern (isNameStart)
open Text (AllBlank byteLength)

/-! ## Lexemes on their own -/

namespace Regex

/-- The expression does not look beyond the part that it matches. -/
def boundless : Regex → Bool
  | nothing => true
  | one _ => true
  | boundary => false
  | sequence first second => first.boundless && second.boundless
  | either first second => first.boundless && second.boundless
  | many body => body.boundless

theorem Matches.elsewhere
    {regex : Regex}
    {before part after : List Char}
    (matched : regex.Matches before part after)
    (free : regex.boundless = true)
    (front back : List Char) :
    regex.Matches front part back := by
  induction matched generalizing front back with
  | nothing => exact .nothing
  | one known => exact .one known
  | boundary => contradiction
  | sequence _ _ first second =>
      obtain ⟨freeFirst, freeSecond⟩ := Bool.and_eq_true_iff.mp free
      exact .sequence (first freeFirst _ _) (second freeSecond _ _)
  | first _ hypothesis => exact .first (hypothesis (Bool.and_eq_true_iff.mp free).1 _ _)
  | second _ hypothesis => exact .second (hypothesis (Bool.and_eq_true_iff.mp free).2 _ _)
  | done => exact .done
  | again _ _ body more => exact .again (body free _ _) (more free _ _)

end Regex

namespace Pattern

/-- What is measured in a text is measured again where nothing follows it. -/
def Recurs (pattern : Pattern) : Prop :=
  ∀ {text : List Char} {length : Nat}, pattern.measure text = some length →
    pattern.measure (text.take length) = some length

/-- A pattern that looks at nothing beyond its match takes the match alone, too. -/
theorem recurs_of_boundless
    {pattern : Pattern}
    {regex : Regex}
    (measures : pattern.Measures regex)
    (closes : pattern.Closes)
    (free : regex.boundless = true) :
    pattern.Recurs := by
  intro text length measured
  obtain ⟨part, after, rfl, rfl, matched⟩ := measures.found measured
  obtain ⟨longest, again, longer⟩ := measures.longest (matched.elsewhere free [] [])
  have bounded := closes.bounded again
  rw [List.append_nil] at again bounded
  rw [List.take_left, again, Nat.le_antisymm bounded longer]

/-- A word is taken alone as it is in the text. -/
theorem word_recurs
    (first : Char)
    (others : List Char) :
    (word first others).Recurs := by
  intro text length measured
  obtain ⟨rest, rfl, rfl, _⟩ := split_of_measure_word measured
  rw [List.take_left]
  simp [word, continuesWord]

end Pattern

namespace Rule

/-- Every rule takes alone what it takes in a text. -/
theorem recurs_of_mem_table : ∀ rule ∈ table, rule.pattern.Recurs := by
  intro rule known
  obtain ⟨place, there⟩ := List.mem_iff_getElem?.mp known
  obtain ⟨entry, written, same, measures⟩ := exists_written_of_rule there
  by_cases named : rule.action.opening = some .identifier
  · obtain rfl | ⟨kind, letter, letters, rfl, _, _⟩ := named_of_mem_table rule known named
    · exact Pattern.recurs_of_boundless Pattern.name_measures Pattern.name_closes rfl
    · exact Pattern.word_recurs letter letters
  · have free : ∀ entry ∈ Regex.written, entry.1.opening ≠ some .identifier →
        entry.2.boundless = true := by decide
    exact Pattern.recurs_of_boundless measures (closes_of_mem_table rule known)
      (free entry (List.mem_of_getElem? written) (same ▸ named))

section Alone

variable {text : List Char} {action : Action} {length : Nat}

/-- In a lexeme of its own all of it is chosen, by a rule whose lexemes start alike. -/
theorem choose?_take
    (chosen : choose? text = some (action, length)) :
    ∃ again, choose? (text.take length) = some (again, length) ∧
      again.opening = action.opening := by
  obtain ⟨rule, known, rfl, found⟩ := exists_rule_of_chosen chosen
  have measured := recurs_of_mem_table rule known (measure_of_measure? found)
  cases choice : choose? (text.take length) with
  | none => exact absurd choice (choose?_ne_none_of_measure known measured)
  | some result =>
      obtain ⟨again, size⟩ := result
      have bounded := length_le_of_choose? choice
      rw [List.length_take] at bounded
      obtain rfl : length = size := by
        rcases lt_or_eq_of_choose? choice known measured with less | ⟨same, _⟩ <;> omega
      obtain ⟨first, others, lexeme⟩ := List.exists_cons_of_ne_nil (ne_nil_of_measure known measured)
      rw [lexeme] at choice measured
      exact ⟨again, rfl, (opening_of_choose? choice).symm.trans
        (opens_of_mem_table rule known measured)⟩

/-- Where a word or name is chosen, one starts. -/
theorem isNameStart_of_choose?
    (chosen : choose? text = some (action, length))
    (named : action.opening = some .identifier) :
    ∀ first ∈ text.head?, isNameStart first = true := by
  intro first ahead
  obtain ⟨others, rfl⟩ := List.head?_eq_some_iff.mp ahead
  exact isNameStart_of_opening ((opening_of_choose? chosen).trans named)

theorem mem_actions_of_choose?
    (chosen : choose? text = some (action, length)) :
    action ∈ table.map Rule.action := by
  obtain ⟨rule, known, rfl, _⟩ := exists_rule_of_chosen chosen
  exact List.mem_map_of_mem known

end Alone

end Rule

/-- The lexeme of the token is one of its kind where nothing stands behind it. -/
def StandsAlone (token : Token) : Prop :=
  ∃ action, action.kind? = some token.kind ∧
    Rule.choose? token.text.toList = some (action, token.text.toList.length)

/-- What becomes of a lexeme becomes of it on its own, if what stands behind it is read. -/
theorem Cursor.exists_choose?_take
    {cursor : Cursor}
    {action : Action}
    {length : Nat}
    {kind : Kind}
    {tokens : List Token}
    (chosen : Rule.choose? cursor.rest = some (action, length))
    (emits : action.kind? = some kind)
    (read : (cursor.advance length).tokens = .ok tokens) :
    ∃ again, Rule.choose? (cursor.rest.take length) = some (again, length) ∧
      again.kind? = some kind := by
  obtain ⟨again, choice, alike⟩ := Rule.choose?_take chosen
  refine ⟨again, choice, ?_⟩
  by_cases named : action.opening = some .identifier
  case neg =>
    rw [← alike] at named
    rw [Rule.action_eq_of_opening_eq (Rule.mem_actions_of_choose? choice)
      (Rule.mem_actions_of_choose? chosen) alike named, emits]
  case pos =>
    obtain ⟨other, emitsAgain⟩ : ∃ other, again.kind? = some other := by
      cases again with
      | emit kind => exact ⟨kind, rfl⟩
      | word kind => exact ⟨kind, rfl⟩
      | skip =>
          rw [named] at alike
          contradiction
    have bounded := Rule.length_le_of_choose? choice
    have ended : ((Cursor.mk 0 (cursor.rest.take length)).advance length).tokens = .ok [] := by
      rw [advance, List.drop_eq_nil_of_le (List.length_take_le ..), tokens_nil]
    obtain ⟨_, kindHere⟩ :=
      run_of_choose? (Rule.isNameStart_of_choose? chosen named) chosen emits read
    have kindAlone : other =
        Rule.namedKind (String.ofList ((cursor.rest.take length).take length)) :=
      (run_of_choose? (Rule.isNameStart_of_choose? choice (alike.trans named)) choice emitsAgain
        ended).2
    rw [emitsAgain, kindAlone, kindHere, List.take_take, Nat.min_self]

/-- Every lexeme of a text is one of its kind on its own. -/
theorem standsAlone_of_tokenize
    {text : List Char}
    {tokens : List Token}
    (read : tokenize text = .ok tokens) :
    ∀ token ∈ tokens, token.StandsAlone := by
  intro token member
  obtain ⟨_, cursor, action, length, later, _, _, chosen, emits, lexeme, behind⟩ :=
    exists_lexeme_of_tokenize read member
  obtain ⟨again, choice, emitsAgain⟩ := Cursor.exists_choose?_take chosen emits behind
  refine ⟨again, emitsAgain, ?_⟩
  rw [lexeme, String.toList_ofList, choice,
    List.length_take_of_le (Rule.length_le_of_choose? chosen)]

namespace StandsAlone

variable {token : Token} (alone : token.StandsAlone)
include alone

/-- No token is blank. -/
theorem not_allBlank : ¬ AllBlank token.text.toList := by
  obtain ⟨action, emits, chosen⟩ := alone
  intro blank
  cases lexeme : token.text.toList with
  | nil =>
      rw [lexeme] at chosen
      contradiction
  | cons first others =>
      rw [lexeme] at chosen blank
      rw [Rule.choose?_of_isBlank (blank first (List.mem_cons_self ..)), Option.some.injEq,
        Prod.mk.injEq] at chosen
      rw [← chosen.1] at emits
      contradiction

/-- In front of a delimiter the lexeme is read as the token. -/
theorem tokens_append
    {more : List Char}
    (delimited : Delimited more)
    (position : Nat) :
    (Cursor.mk position (token.text.toList ++ more)).tokens =
      (Cursor.mk (position + byteLength token.text.toList) more).tokens.map
        ({ token with position } :: ·) := by
  have visible := alone.not_allBlank
  obtain ⟨action, emits, chosen⟩ := alone
  have followed := Rule.choose?_append visible delimited (Rule.unquoted_of_choose? chosen more)
  have read := Cursor.tokens_of_choose? (Text.ne_nil_of_not_allBlank visible)
    (followed.trans chosen) emits position
  rwa [String.ofList_toList] at read

end StandsAlone

/-! ## Spaced texts -/

/-- The lexemes with the given gaps in front of them, and a last gap behind. -/
def spaced (last : List Char) : List (List Char × Token) → List Char
  | [] => last
  | (gap, token) :: others => gap ++ (token.text.toList ++ spaced last others)

/-- The tokens at the places where they are put in a text that starts at an offset. -/
def placed (offset : Nat) : List (List Char × Token) → List Token
  | [] => []
  | (gap, token) :: others =>
      { token with position := offset + byteLength gap } ::
        placed (offset + byteLength gap + byteLength token.text.toList) others

/-- The gaps are blank, and none but the first is empty. -/
structure WellSpaced (last : List Char) (entries : List (List Char × Token)) : Prop where
  blank : ∀ entry ∈ entries, AllBlank entry.1
  apart : ∀ entry ∈ entries.tail, entry.1 ≠ []
  blankLast : AllBlank last

section Spaced

variable {last : List Char} {entries : List (List Char × Token)}

theorem WellSpaced.tail
    {entry : List Char × Token}
    (wellSpaced : WellSpaced last (entry :: entries)) :
    WellSpaced last entries where
  blank := (List.forall_mem_cons.mp wellSpaced.blank).2
  apart := fun other member => wellSpaced.apart other (List.mem_of_mem_tail member)
  blankLast := wellSpaced.blankLast

/-- Behind a lexeme a blank follows, or nothing. -/
theorem WellSpaced.delimited
    {entry : List Char × Token}
    (wellSpaced : WellSpaced last (entry :: entries)) :
    Delimited (spaced last entries) := by
  cases entries with
  | nil => exact (closing_of_allBlank wellSpaced.blankLast).delimited
  | cons next others =>
      have blank := (List.forall_mem_cons.mp wellSpaced.tail.blank).1
      obtain ⟨first, gap, nonempty⟩ :=
        List.exists_cons_of_ne_nil (wellSpaced.apart next (List.mem_cons_self ..))
      rw [nonempty] at blank
      intro character ahead
      rw [spaced, nonempty] at ahead
      cases ahead
      simp [isDelimiter, isClosing, blank first (List.mem_cons_self ..)]

/-- Lexemes that are such on their own are read again in every spaced text. -/
theorem tokens_spaced
    (alone : ∀ entry ∈ entries, entry.2.StandsAlone)
    (wellSpaced : WellSpaced last entries)
    (offset : Nat) :
    (Cursor.mk offset (spaced last entries)).tokens = .ok (placed offset entries) := by
  induction entries generalizing offset with
  | nil =>
      have read := Cursor.tokens_blanks_append wellSpaced.blankLast offset []
      rwa [List.append_nil, Cursor.tokens_nil] at read
  | cons entry others hypothesis =>
      obtain ⟨first, later⟩ := List.forall_mem_cons.mp alone
      rw [spaced, Cursor.tokens_blanks_append (wellSpaced.blank entry (List.mem_cons_self ..)),
        first.tokens_append wellSpaced.delimited, hypothesis later wellSpaced.tail]
      rfl

/-- The tokens keep their kinds and lexemes. -/
theorem map_placed
    {α : Type}
    {view : Token → α}
    (placeless : ∀ token position, view { token with position } = view token)
    (offset : Nat) :
    (placed offset entries).map view = entries.map (view ∘ Prod.snd) := by
  induction entries generalizing offset with
  | nil => rfl
  | cons entry others hypothesis =>
      rw [placed, List.map_cons, hypothesis, placeless]
      rfl

end Spaced

/-- The tokens of a text, spaced anew, are read again where they are put. -/
theorem tokenize_spaced
    {text last : List Char}
    {entries : List (List Char × Token)}
    (read : tokenize text = .ok (entries.map Prod.snd))
    (wellSpaced : WellSpaced last entries) :
    tokenize (spaced last entries) = .ok (placed 0 entries) := by
  have alone := standsAlone_of_tokenize read
  exact tokens_spaced (fun entry member => alone _ (List.mem_map_of_mem member)) wellSpaced 0

end Token
end ModelEquation
