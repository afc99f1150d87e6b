import ModelEquation.Token.Rule

/-!
# Regular expressions of the lexical rules

The lexemes of a rule are the matches of a regular expression, which is made of characters
with a property, sequences, choices and repetitions. A match is a part of a text; only the
boundary of a word asks what stands in front of the part and behind it. Nothing is said here
about how a match is found, nor which one if there are several.
-/

namespace ModelEquation
namespace Token

/-- A regular expression over characters. -/
inductive Regex
  | nothing
  | one (property : Char → Bool)
  | boundary
  | sequence (first second : Regex)
  | either (first second : Regex)
  | many (body : Regex)

/-- Whether a text ends with a word character. -/
def endsWord (text : List Char) : Bool :=
  text.getLast?.any Text.isWordCharacter

namespace Regex

/-- The expression matches the part of a text that stands between two others. -/
inductive Matches : Regex → List Char → List Char → List Char → Prop
  | nothing {before after : List Char} : Matches .nothing before [] after
  | one {property : Char → Bool} {before after : List Char} {character : Char}
      (known : property character = true) :
      Matches (.one property) before [character] after
  | boundary {before after : List Char}
      (differs : endsWord before ≠ Pattern.continuesWord after) :
      Matches .boundary before [] after
  | sequence {first second : Regex} {before front back after : List Char}
      (matchesFirst : Matches first before front (back ++ after))
      (matchesSecond : Matches second (before ++ front) back after) :
      Matches (.sequence first second) before (front ++ back) after
  | first {first second : Regex} {before part after : List Char}
      (matchesFirst : Matches first before part after) :
      Matches (.either first second) before part after
  | second {first second : Regex} {before part after : List Char}
      (matchesSecond : Matches second before part after) :
      Matches (.either first second) before part after
  | done {body : Regex} {before after : List Char} : Matches (.many body) before [] after
  | again {body : Regex} {before front back after : List Char}
      (matchesBody : Matches body before front (back ++ after))
      (matchesMore : Matches (.many body) (before ++ front) back after) :
      Matches (.many body) before (front ++ back) after

/-- The expression matches as many characters at the front of the text. -/
def MatchesAt (regex : Regex) (text : List Char) (length : Nat) : Prop :=
  ∃ part after, text = part ++ after ∧ part.length = length ∧ regex.Matches [] part after

/-! ## Expressions in terms of others -/

/-- One match or more. -/
def oneOrMore (body : Regex) : Regex :=
  sequence body (many body)

/-- A match or nothing. -/
def optional (body : Regex) : Regex :=
  either body nothing

/-- One of the characters. -/
def among (members : List Char) : Regex :=
  one members.contains

/-- The characters, in their order. -/
def literal : List Char → Regex
  | [] => nothing
  | first :: others => sequence (one (· == first)) (literal others)

/-- One of the expressions. -/
def anyOf : List Regex → Regex
  | [] => one fun _ => false
  | [last] => last
  | first :: others => either first (anyOf others)

/-! ## The expressions of the rules -/

/-- A mark, a sign or none, and digits. -/
def exponent : Regex :=
  sequence (among ['e', 'E'])
    (sequence (optional (among ['+', '-'])) (oneOrMore (one Char.isDigit)))

/-- Digits, a point or none, digits or none, and an exponent or none. -/
def number : Regex :=
  sequence (oneOrMore (one Char.isDigit))
    (sequence (optional (among ['.'])) (sequence (many (one Char.isDigit)) (optional exponent)))

/-- The comparison symbols, those of two characters first. -/
def comparison : Regex :=
  anyOf [literal ['>', '='], literal ['<', '='], literal ['=', '='], literal ['!', '='],
    literal ['>'], literal ['<']]

/-- The letters of a word, up to its end. -/
def word (letters : List Char) : Regex :=
  sequence (literal letters) boundary

/-- A letter or underscore, then letters, digits, underscores and dots. -/
def name : Regex :=
  sequence (one Pattern.isNameStart) (many (one Pattern.isNamePart))

/-- Characters other than double quotes, between two of them. -/
def quoted : Regex :=
  sequence (among ['"']) (sequence (many (one (· != '"'))) (among ['"']))

/-- The expressions in the order in which they are tried, with what becomes of the lexemes. -/
def written : List (Action × Regex) :=
  [(.emit .number, number),
    (.emit .operator, among ['+', '-', '*', '/']),
    (.emit .leftParenthesis, among ['(']),
    (.emit .rightParenthesis, among [')']),
    (.emit .leftBracket, among ['[']),
    (.emit .rightBracket, among [']']),
    (.emit .comma, among [',']),
    (.word .ifWord, word ['i', 'f']),
    (.word .thenWord, word ['t', 'h', 'e', 'n']),
    (.word .elseWord, word ['e', 'l', 's', 'e']),
    (.skip, oneOrMore (one Text.isBlank)),
    (.emit .comparison, comparison),
    (.word .andWord, word ['a', 'n', 'd']),
    (.word .orWord, word ['o', 'r']),
    (.word .notWord, word ['n', 'o', 't']),
    (.emit .identifier, name),
    (.emit .stringLiteral, quoted),
    (.emit .dot, among ['.'])]

/-! ## What the expressions match -/

section Matched

variable {first second body : Regex} {property : Char → Bool}
variable {before part after : List Char}

@[simp] theorem matches_nothing_iff :
    Matches .nothing before part after ↔ part = [] := by
  constructor
  · rintro ⟨⟩
    rfl
  · rintro rfl
    exact .nothing

@[simp] theorem matches_one_iff :
    Matches (.one property) before part after ↔
      ∃ character, part = [character] ∧ property character = true := by
  constructor
  · intro matched
    cases matched with
    | one known => exact ⟨_, rfl, known⟩
  · rintro ⟨character, rfl, known⟩
    exact .one known

@[simp] theorem matches_boundary_iff :
    Matches .boundary before part after ↔
      part = [] ∧ endsWord before ≠ Pattern.continuesWord after := by
  constructor
  · intro matched
    cases matched with
    | boundary differs => exact ⟨rfl, differs⟩
  · rintro ⟨rfl, differs⟩
    exact .boundary differs

/-- A sequence matches two parts one behind the other, each in sight of the other one. -/
theorem matches_sequence_iff :
    Matches (.sequence first second) before part after ↔
      ∃ front back, part = front ++ back ∧ Matches first before front (back ++ after) ∧
        Matches second (before ++ front) back after := by
  constructor
  · intro matched
    cases matched with
    | sequence matchesFirst matchesSecond => exact ⟨_, _, rfl, matchesFirst, matchesSecond⟩
  · rintro ⟨front, back, rfl, matchesFirst, matchesSecond⟩
    exact .sequence matchesFirst matchesSecond

theorem matches_either_iff :
    Matches (.either first second) before part after ↔
      Matches first before part after ∨ Matches second before part after := by
  constructor
  · intro matched
    cases matched with
    | first matchesFirst => exact .inl matchesFirst
    | second matchesSecond => exact .inr matchesSecond
  · rintro (matchesFirst | matchesSecond)
    · exact .first matchesFirst
    · exact .second matchesSecond

theorem matches_optional_iff :
    Matches (optional body) before part after ↔ part = [] ∨ Matches body before part after := by
  rw [optional, matches_either_iff, matches_nothing_iff, or_comm]

theorem matches_among_iff {members : List Char} :
    Matches (among members) before part after ↔
      ∃ character, part = [character] ∧ character ∈ members := by
  simp [among]

/-- A run of characters with a property. -/
theorem matches_many_one_iff :
    Matches (.many (.one property)) before part after ↔
      ∀ character ∈ part, property character = true := by
  constructor
  · intro matched
    generalize same : Regex.many (.one property) = regex at matched
    induction matched with
    | done => simp
    | again matchesBody _ _ hypothesis =>
        cases same
        obtain ⟨character, rfl, known⟩ := matches_one_iff.mp matchesBody
        exact List.forall_mem_cons.mpr ⟨known, hypothesis rfl⟩
    | _ => contradiction
  · intro known
    induction part generalizing before with
    | nil => exact .done
    | cons character others hypothesis =>
        obtain ⟨here, later⟩ := List.forall_mem_cons.mp known
        exact .again (.one here) (hypothesis later)

/-- Repeated characters of one property match a part of these characters, unless it is empty. -/
theorem matches_oneOrMore_one_iff :
    Matches (oneOrMore (.one property)) before part after ↔
      part ≠ [] ∧ ∀ character ∈ part, property character = true := by
  rw [oneOrMore, matches_sequence_iff]
  constructor
  · rintro ⟨front, back, rfl, matchesFirst, matchesMore⟩
    obtain ⟨character, rfl, known⟩ := matches_one_iff.mp matchesFirst
    exact ⟨by simp, List.forall_mem_cons.mpr ⟨known, matches_many_one_iff.mp matchesMore⟩⟩
  · rintro ⟨nonempty, known⟩
    obtain ⟨first, others, rfl⟩ := List.exists_cons_of_ne_nil nonempty
    obtain ⟨here, later⟩ := List.forall_mem_cons.mp known
    exact ⟨[first], others, rfl, .one here, matches_many_one_iff.mpr later⟩

theorem matches_literal_iff {letters : List Char} :
    Matches (literal letters) before part after ↔ part = letters := by
  induction letters generalizing before part with
  | nil => exact matches_nothing_iff
  | cons first others hypothesis =>
      rw [literal, matches_sequence_iff]
      constructor
      · rintro ⟨front, back, rfl, matchesFirst, matchesOthers⟩
        obtain ⟨character, rfl, known⟩ := matches_one_iff.mp matchesFirst
        rw [hypothesis.mp matchesOthers, beq_iff_eq.mp known]
        rfl
      · rintro rfl
        exact ⟨[first], others, rfl, .one (beq_self_eq_true first), hypothesis.mpr rfl⟩

/-- A choice matches what one of its expressions does. -/
theorem matches_anyOf_iff {choices : List Regex} :
    Matches (anyOf choices) before part after ↔
      ∃ choice ∈ choices, Matches choice before part after := by
  induction choices with
  | nil => simp [anyOf]
  | cons first others hypothesis =>
      cases others with
      | nil => simp [anyOf]
      | cons second later =>
          change Matches (.either first (anyOf (second :: later))) before part after ↔ _
          rw [matches_either_iff, hypothesis]
          simp only [List.mem_cons, exists_eq_or_imp]

end Matched

end Regex
end Token
end ModelEquation
