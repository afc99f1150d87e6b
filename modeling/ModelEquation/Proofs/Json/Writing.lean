import ModelEquation.Json.Document
import ModelEquation.Proofs.Json.Outcome
import ModelEquation.Proofs.Json.Span

/-!
# Texts that write a tree

A text that writes a tree nests as deep as the tree does, since the brackets in its strings do
not count and its blanks are neutral. Under given options the whole text is refused for its
nesting, or read as the tree says.
-/

namespace ModelEquation
namespace Json

open TextReader

/-! ## Nesting -/

/-- Digits that denote a number are each hexadecimal. -/
theorem isSome_of_hexValues?
    {digits : List Char}
    {value : Nat}
    (denoted : hexValues? digits = some value) :
    ∀ digit ∈ digits, (hexValue? digit).isSome = true := by
  unfold hexValues? at denoted
  generalize (0 : Nat) = start at denoted
  induction digits generalizing start with
  | nil => simp
  | cons first others hypothesis =>
      rw [List.foldlM_cons] at denoted
      obtain ⟨next, found, later⟩ := Option.bind_eq_some_iff.mp denoted
      obtain ⟨known, present, _⟩ := Option.map_eq_some_iff.mp found
      exact List.forall_mem_cons.mpr ⟨by rw [present]; rfl, hypothesis next later⟩

/-- The content of a string ends in the string. -/
theorem IsContent.neutral
    {content : List Char}
    (formed : IsContent content) :
    Neutral .inString content := by
  induction formed with
  | nil => exact neutral_nil .inString
  | @plain character rest noQuote noBackslash printable later hypothesis =>
      have single : Neutral .inString [character] :=
        neutral_inString (by simp [noQuote, noBackslash])
      exact single.append hypothesis
  | mark known later hypothesis => exact neutral_escaped hypothesis _
  | @unit first second third fourth value rest denoted later hypothesis =>
      have digits : Neutral .inString [first, second, third, fourth] := by
        refine neutral_inString fun digit member => ?_
        have known := isSome_of_hexValues? denoted digit member
        constructor <;> rintro rfl <;> exact absurd known (by decide)
      exact neutral_escaped (digits.append hypothesis) 'u'

/-- A string is neutral. -/
theorem IsString.neutral
    {text : List Char}
    (formed : IsString text) :
    Neutral .outside text := by
  obtain ⟨content, rfl, inside⟩ := formed
  exact neutral_between_quotes inside.neutral

theorem IsDigits.isNumeric
    {text : List Char}
    (formed : IsDigits text) :
    ∀ character ∈ text, isNumeric character = true := by
  intro digit member
  simp [Json.isNumeric, formed.all digit member]

/-- A number consists of the characters of numbers. -/
theorem IsNumeral.isNumeric
    {text : List Char}
    (formed : IsNumeral text) :
    ∀ character ∈ text, isNumeric character = true := by
  obtain ⟨signs, _, rfl, signed, whole, places, power, rfl, formedWhole, fractional,
    exponential⟩ := formed
  simp only [List.forall_mem_append]
  refine ⟨?_, formedWhole.isNumeric, ?_, ?_⟩
  · rcases signed with rfl | rfl <;> simp [Json.isNumeric]
  · rcases fractional with rfl | ⟨digits, rfl, formed⟩
    · simp
    · exact List.forall_mem_cons.mpr ⟨rfl, formed.isNumeric⟩
  · rcases exponential with rfl | ⟨mark, sign, digits, rfl, marked, signed, formed⟩
    · simp
    · refine List.forall_mem_cons.mpr ⟨by rcases marked with rfl | rfl <;> rfl, ?_⟩
      refine List.forall_mem_append.mpr ⟨?_, formed.isNumeric⟩
      rcases signed with rfl | rfl | rfl <;> simp [Json.isNumeric]

/-- A scalar is neutral. -/
theorem IsScalar.neutral
    {text : List Char}
    (formed : IsScalar text) :
    Neutral .outside text := by
  cases formed with
  | word known => rcases known with rfl | rfl | rfl <;> exact neutral_of_isPlain (by decide)
  | numeral formed =>
      exact neutral_of_isPlain (List.all_eq_true.mpr fun character member =>
        isPlain_of_isNumeric (formed.isNumeric character member))
  | string formed => exact formed.neutral

theorem IsGap.neutral
    {gap : List Char}
    (blank : IsGap gap) :
    Neutral .outside gap :=
  neutral_of_isPlain (List.all_eq_true.mpr fun character member =>
    isPlain_of_isBlank (blank character member))

/-- Every text of the lexemes is a span that reaches as far as said. -/
def Reaches (lexemes : List (List Char)) (reach : Nat) : Prop :=
  ∀ ⦃text⦄, Spaced lexemes text → Spans text reach

theorem reaches_nil : Reaches [] 0 := by
  intro text spaced
  cases spaced
  exact spans_nil

theorem Reaches.append
    {front back : List (List Char)}
    {first second : Nat}
    (fronts : Reaches front first)
    (backs : Reaches back second) :
    Reaches (front ++ back) (max first second) := by
  intro text spaced
  obtain ⟨_, _, rfl, before, behind⟩ := spaced.split
  exact (fronts before).append (backs behind)

theorem Reaches.cons
    {lexeme : List Char}
    {lexemes : List (List Char)}
    {reach : Nat}
    (neutral : Neutral .outside lexeme)
    (later : Reaches lexemes reach) :
    Reaches (lexeme :: lexemes) reach := by
  intro text spaced
  cases spaced with
  | cons blank rest => exact ((later rest).neutral_append blank.neutral).neutral_append neutral

/-- Brackets or braces open one more. -/
theorem Reaches.enclosed
    {inside : List (List Char)}
    {reach : Nat}
    (inner : Reaches inside reach)
    {opening closing : Char}
    (brackets : (opening, closing) = ('[', ']') ∨ (opening, closing) = ('{', '}')) :
    Reaches ([opening] :: (inside ++ [[closing]])) (reach + 1) := by
  intro text spaced
  cases spaced with
  | @cons _ gap _ _ blank rest =>
      obtain ⟨body, last, rfl, within, ends⟩ := rest.split
      cases ends with
      | @cons _ after _ _ blankAfter later =>
          cases later
          have spans := ((inner within).neutral_append blank.neutral).enclosed brackets
          simpa using spans.append_neutral blankAfter.neutral

/-- Parts one after the other with commas between them. -/
theorem reaches_separated
    {first : List (List Char)}
    {others : List (List (List Char))}
    {reach further : Nat}
    (now : Reaches first reach)
    (later : Reaches (Tree.separated others) further) :
    Reaches (Tree.separated (first :: others)) (max reach further) := by
  cases others with
  | nil => simpa [Tree.separated] using now.append later
  | cons second others =>
      have comma : Neutral .outside [','] := neutral_of_isPlain (by decide)
      simpa [Tree.separated] using now.append (Reaches.cons comma later)

namespace Tree

mutual

/-- The lexemes of a tree reach as far as the tree does. -/
theorem reaches_lexemes : (tree : Tree) → Reaches tree.lexemes tree.depth
  | .scalar lexeme => Reaches.cons lexeme.formed.neutral reaches_nil
  | .array items => (reaches_itemLexemes items).enclosed (.inl rfl)
  | .object members => (reaches_memberLexemes members).enclosed (.inr rfl)

theorem reaches_itemLexemes :
    (items : List Tree) → Reaches (separated (itemLexemes items)) (itemDepth items)
  | [] => reaches_nil
  | item :: rest => reaches_separated (reaches_lexemes item) (reaches_itemLexemes rest)

theorem reaches_memberLexemes :
    (members : List (Name × Tree)) →
      Reaches (separated (memberLexemes members)) (memberDepth members)
  | [] => reaches_nil
  | (name, item) :: rest => by
      have colon : Neutral .outside [':'] := neutral_of_isPlain (by decide)
      exact reaches_separated
        (Reaches.cons name.formed.neutral (Reaches.cons colon (reaches_lexemes item)))
        (reaches_memberLexemes rest)

end

variable {tree : Tree} {text : List Char}

/-- A text that writes a tree nests as deep as the tree. -/
theorem Writes.nesting_eq (writes : tree.Writes text) : nesting text = tree.depth := by
  obtain ⟨gap, body, rfl, blank, spaced⟩ := writes
  exact ((tree.reaches_lexemes spaced).neutral_append blank.neutral).nesting_eq

/-! ## Whole texts -/

/-- A whole text is read as the tree that it writes. -/
theorem Writes.document_eq
    {α : Type}
    {reader : TextReader α}
    {outcome : Except Failure α}
    (writes : tree.Writes text)
    (reads : Reads Follows reader tree.lexemes outcome) :
    document reader text = outcome := by
  obtain ⟨gap, body, rfl, blank, spaced⟩ := writes
  have ahead : Unblank (body ++ []) := by
    obtain ⟨first, head, opening⟩ := tree.leads.head? spaced []
    intro next found
    rw [head] at found
    exact Option.some.inj found ▸ opening.1
  have leading := settles_blanks blank _ ahead
  have read := reads spaced [] follows_nil
  rw [List.append_nil] at leading read
  simp only [document, Reader.run_bind, leading, Except.map, read]
  cases outcome <;> rfl

/-- Under given options a text that writes a tree is refused for its nesting or read as the tree
says. -/
theorem Writes.read_eq
    {α : Type}
    {reader : Nat → TextReader α}
    {outcome : Except Failure α}
    (writes : tree.Writes text)
    (reads : ∀ budget, tree.depth ≤ budget →
      Reads Follows (reader budget) tree.lexemes outcome)
    (options : Options) :
    Json.read reader options text =
      if nestingLimit options < tree.depth then .error (.tooNested (nestingLimit options))
      else outcome.mapError Fault.failure := by
  have enough : tree.depth ≤ text.length := writes.nesting_eq ▸ nesting_le_length text
  rw [Json.read, writes.nesting_eq, writes.document_eq (reads text.length enough)]

end Tree

end Json
end ModelEquation
