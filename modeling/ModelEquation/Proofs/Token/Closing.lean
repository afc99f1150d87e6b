import ModelEquation.Proofs.Text.Blank
import ModelEquation.Proofs.Token.Run
import ModelEquation.Proofs.Token.Stuck

/-!
# Texts in front of blanks, semicolons and marks

Blanks, semicolons and the marks at which lexemes end are delimiters: they end every lexeme in
front of them. A text that has something but blanks is therefore read in the same way when
something follows that starts with a delimiter: the rule that is chosen in the text is the one
that is chosen without it. Only a double quote that stays open in the text looks further, for
another one in what follows.
-/

namespace ModelEquation
namespace Token

open Text (AllBlank)

/-- A blank or a semicolon. -/
def isClosing (character : Char) : Bool :=
  Text.isBlank character || character == ';'

/-- The text has blanks and semicolons only. -/
def Closing (text : List Char) : Prop :=
  ∀ character ∈ text, isClosing character = true

/-- Blanks close every lexeme. -/
theorem closing_of_allBlank
    {text : List Char}
    (blank : Text.AllBlank text) :
    Closing text := by
  intro character member
  simp [isClosing, blank character member]

/-- A blank, a semicolon or a mark at which lexemes end. -/
def isDelimiter (character : Char) : Bool :=
  isClosing character || breaks.contains character

/-- What follows a text is empty or starts with a delimiter. -/
def Delimited (more : List Char) : Prop :=
  ∀ character ∈ more.head?, isDelimiter character = true

/-- What closes every lexeme starts with a delimiter. -/
theorem Closing.delimited
    {text : List Char}
    (closing : Closing text) :
    Delimited text := by
  intro character ahead
  simp [isDelimiter, closing character (List.mem_of_head? ahead)]

theorem delimited_of_breaks
    {text : List Char}
    (breaks : Breaks text) :
    Delimited text := by
  intro character ahead
  simp [isDelimiter, breaks character ahead]

/-- A character that has a property is none of those that do not have it. -/
theorem notMem_of_excluded
    {property : Char → Bool}
    {character : Char}
    (known : property character = true)
    {marks : List Char}
    (excluded : marks.any property = false) :
    character ∉ marks :=
  fun member => List.any_eq_false.mp excluded character member known

/-! ## The characters that end lexemes -/

section Characters

variable {character : Char} (delimiter : isDelimiter character = true)
include delimiter

theorem isWordCharacter_of_isDelimiter : Text.isWordCharacter character = false := by
  refine Bool.eq_false_iff.mpr fun word => ?_
  simp only [isDelimiter, isClosing, Bool.or_eq_true, beq_iff_eq, List.contains_iff_mem]
    at delimiter
  rcases delimiter with (blank | rfl) | mark
  · rcases Nat.lt_or_ge character.toNat 0x80 with ascii | beyond
    · rw [Text.isWordCharacter_of_ascii ascii] at word
      simp only [Text.isBlank, Bool.or_eq_true, Bool.and_eq_true, decide_eq_true_eq,
        beq_iff_eq] at blank
      simp only [Char.isAlphanum, Bool.or_eq_true, beq_iff_eq] at word
      have code : 48 ≤ character.toNat := by
        rcases word with (letter | digit) | rfl
        · have bounds := Rule.bounds_of_isAlpha letter
          omega
        · exact (Char.isDigit_iff_toNat.mp digit).1
        · decide
      omega
    · rw [Text.isBlank_eq_false_of_isWordCharacter beyond word] at blank
      contradiction
  · contradiction
  · have none_word : breaks.any Text.isWordCharacter = false := by decide
    exact List.any_eq_false.mp none_word character mark word

theorem isNamePart_of_isDelimiter : Pattern.isNamePart character = false := by
  refine Bool.eq_false_iff.mpr fun part => ?_
  have noDot : character ∉ ['.'] := notMem_of_excluded delimiter (by decide)
  have word := Rule.isWordCharacter_of_isNamePart part (by simpa using noDot)
  rw [isWordCharacter_of_isDelimiter delimiter] at word
  contradiction

theorem isNumeralPart_of_isDelimiter : Pattern.isNumeralPart character = false := by
  have noDigit : character.isDigit = false := by
    have noPart := isNamePart_of_isDelimiter delimiter
    simp only [Pattern.isNamePart, Char.isAlphanum, Bool.or_eq_false_iff] at noPart
    exact noPart.1.1.2
  have noMark : character ∉ ['.', 'e', 'E', '+', '-'] := notMem_of_excluded delimiter (by decide)
  simpa [Pattern.isNumeralPart, noDigit] using noMark

end Characters

/-! ## Patterns -/

/-- A double quote at the front of the text is closed in the text, or not even in what follows. -/
def Unquoted (text more : List Char) : Prop :=
  text.head? = some '"' → '"' ∈ text.tail ∨ '"' ∉ more

/-- Delimiters end the lexemes of the pattern: each lies in the text, none ends with a
semicolon, and what follows behind a delimiter changes none. -/
structure Pattern.Closes (pattern : Pattern) : Prop where
  bounded : ∀ {text : List Char} {length : Nat},
    pattern.measure text = some length → length ≤ text.length
  last : ∀ {text : List Char} {length : Nat},
    pattern.measure text = some length → (text.take length).getLast? ≠ some ';'
  stays : ∀ {text more : List Char}, ¬ AllBlank text → Delimited more →
    Unquoted text more → pattern.measure (text ++ more) = pattern.measure text

namespace Pattern

/-- A lexeme of characters other than a semicolon does not end in one. -/
theorem Within.getLast?_ne
    {property : Char → Bool}
    {pattern : Pattern}
    (within : pattern.Within property)
    (excludes : property ';' = false)
    {text : List Char}
    {length : Nat}
    (measured : pattern.measure text = some length) :
    (text.take length).getLast? ≠ some ';' := by
  intro last
  have inside := within measured ';' (List.mem_of_getLast? last)
  rw [excludes] at inside
  contradiction

/-- A numeral ends in front of a delimiter as it does at the end of the text. -/
theorem number_closes : number.Closes where
  bounded := by
    intro text length measured
    simp only [number] at measured
    split at measured
    · contradiction
    · cases measured
      have digits := digitCount_le text
      have fraction := fractionLength_le (text.drop (digitCount text))
      have exponent := exponentLength_le
        (text.drop (digitCount text + fractionLength (text.drop (digitCount text))))
      simp only [List.length_drop] at fraction exponent
      omega
  last := number_within.getLast?_ne (by decide)
  stays := by
    intro text more _ delimited _
    exact measure_number_append
      (fun next ahead => isNumeralPart_of_isDelimiter (delimited next ahead)) text

theorem single_closes
    {members : List Char}
    (excludes : members.contains ';' = false) :
    (single members).Closes where
  bounded := by
    intro text length measured
    simp only [single] at measured
    split at measured
    · contradiction
    · split at measured
      · cases measured
        exact Nat.le_add_left ..
      · contradiction
  last := (single_within members).getLast?_ne excludes
  stays := by
    intro text more visible _ _
    obtain ⟨first, others, rfl⟩ := List.exists_cons_of_ne_nil (Text.ne_nil_of_not_allBlank visible)
    rfl

theorem comparison_closes : comparison.Closes where
  bounded := by
    intro text length measured
    obtain ⟨first, rest, rfl, rfl, _⟩ | ⟨first, rest, rfl, rfl, _⟩ :=
      split_of_measure_comparison measured
    · exact Nat.le_add_left ..
    · exact Nat.le_add_left ..
  last := by
    intro text length measured last
    obtain ⟨first, rest, rfl, rfl, _⟩ | ⟨first, rest, rfl, rfl, known, _⟩ :=
      split_of_measure_comparison measured
    · simp at last
    · cases last
      exact absurd known (by decide)
  stays := by
    intro text more visible delimited _
    obtain ⟨first, others, rfl⟩ := List.exists_cons_of_ne_nil (Text.ne_nil_of_not_allBlank visible)
    have noEquals : more.head? ≠ some '=' := by
      intro ahead
      have equals : isDelimiter '=' = true := delimited '=' ahead
      contradiction
    have same : (others ++ more).head? = some '=' ↔ others.head? = some '=' := by
      cases others with
      | nil => simpa using noEquals
      | cons second later => rfl
    simp only [List.cons_append, measure_comparison_cons, same]

/-- A word ends in front of a delimiter as it does at the end of the text, since it would go on
with none. -/
theorem word_closes
    {first : Char}
    {others : List Char}
    (letters : (first :: others).any isDelimiter = false) :
    (word first others).Closes where
  bounded := by
    intro text length measured
    obtain ⟨rest, rfl, rfl, _⟩ := split_of_measure_word measured
    simp
  last := by
    refine (word_within first others).getLast?_ne (Bool.eq_false_iff.mpr fun known => ?_)
    exact List.any_eq_false.mp letters ';' (List.contains_iff_mem.mp known) rfl
  stays := by
    intro text more _ delimited _
    have same : (first :: others).isPrefixOf (text ++ more) =
        (first :: others).isPrefixOf text := by
      rw [Bool.eq_iff_iff, List.isPrefixOf_iff_prefix, List.isPrefixOf_iff_prefix]
      refine ⟨fun front => ?_, fun front => front.trans (List.prefix_append text more)⟩
      rcases List.prefix_or_prefix_of_prefix front (List.prefix_append text more) with
        inside | ⟨remaining, split⟩
      · exact inside
      · cases remaining with
        | nil => exact ⟨[], by rw [← split]; simp⟩
        | cons next later =>
            rw [← split, List.prefix_append_right_inj] at front
            obtain ⟨behind, rfl⟩ := front
            refine absurd (delimited next rfl) (List.any_eq_false.mp letters next ?_)
            rw [← split]
            simp
    have stops (rest : List Char) : continuesWord (rest ++ more) = continuesWord rest := by
      cases rest with
      | cons next later => rfl
      | nil =>
          cases more with
          | nil => rfl
          | cons next later => exact isWordCharacter_of_isDelimiter (delimited next rfl)
    simp only [word, same]
    cases starts : (first :: others).isPrefixOf text with
    | false => rfl
    | true =>
        have fits := (List.isPrefixOf_iff_prefix.mp starts).length_le
        rw [List.length_cons] at fits
        rw [List.drop_append_of_le_length fits, stops]

theorem name_closes : name.Closes where
  bounded := by
    intro text length measured
    simp only [name] at measured
    split at measured
    · contradiction
    · next first others =>
        split at measured
        · cases measured
          have taken := (List.takeWhile_prefix isNamePart (l := others)).length_le
          rw [List.length_cons]
          omega
        · contradiction
  last := name_within.getLast?_ne (by decide)
  stays := by
    intro text more visible delimited _
    obtain ⟨first, others, rfl⟩ := List.exists_cons_of_ne_nil (Text.ne_nil_of_not_allBlank visible)
    have stops : ∀ next ∈ more.head?, isNamePart next = false :=
      fun next ahead => isNamePart_of_isDelimiter (delimited next ahead)
    simp only [List.cons_append, name, takeWhile_append_of_stops stops]

/-- A quoted text ends at its own quote, which either stands in the text or is missing in what
follows, too. -/
theorem quoted_closes : quoted.Closes where
  bounded := by
    intro text length measured
    obtain ⟨body, rest, rfl, rfl, _⟩ := split_of_measure_quoted measured
    simp
  last := by
    intro text length measured
    obtain ⟨body, rest, rfl, rfl, _⟩ := split_of_measure_quoted measured
    rw [take_quoted, ← List.cons_append, List.getLast?_concat]
    decide
  stays := by
    intro text more visible _ unquoted
    obtain ⟨first, others, rfl⟩ := List.exists_cons_of_ne_nil (Text.ne_nil_of_not_allBlank visible)
    by_cases quote : first = '"'
    case neg => simp [quoted, quote]
    case pos =>
      subst quote
      have short := (List.takeWhile_prefix (· != '"') (l := others)).length_le
      simp only [List.cons_append, quoted, List.takeWhile_append]
      split
      · next whole =>
          have open_text : '"' ∉ others := by
            intro member
            have same := (List.takeWhile_prefix (· != '"')).eq_of_length whole
            have free : ∀ character ∈ others.takeWhile (· != '"'), (character != '"') = true :=
              List.all_eq_true.mp List.all_takeWhile
            rw [same] at free
            exact absurd (free '"' member) (by decide)
          have open_more : '"' ∉ more := (unquoted rfl).resolve_left open_text
          have free : ∀ next ∈ more, (next != '"') = true := by
            intro next member
            rw [bne_iff_ne]
            rintro rfl
            exact open_more member
          have all : more.takeWhile (· != '"') = more := by
            have taken : (more ++ []).takeWhile (· != '"') = more ++ [] :=
              List.takeWhile_append_of_pos free
            rwa [List.append_nil] at taken
          simp [whole, all]
      · next ended =>
          have ends : (others.takeWhile (· != '"')).length < others.length :=
            Nat.lt_of_le_of_ne short ended
          rw [if_pos ends, if_pos (by rw [List.length_append]; omega)]

theorem blanks_closes : blanks.Closes where
  bounded := by
    intro text length measured
    simp only [blanks] at measured
    split at measured
    · contradiction
    · cases measured
      exact (List.takeWhile_prefix Text.isBlank).length_le
  last := blanks_within.getLast?_ne (by decide)
  stays := by
    intro text more visible _ _
    have ended : (text.takeWhile Text.isBlank).length ≠ text.length := by
      intro whole
      have same := (List.takeWhile_prefix Text.isBlank (l := text)).eq_of_length whole
      have all : AllBlank (text.takeWhile Text.isBlank) :=
        List.all_eq_true.mp List.all_takeWhile
      rw [same] at all
      exact visible all
    simp only [blanks, List.takeWhile_append, if_neg ended]

end Pattern

/-! ## Rules -/

namespace Rule

/-- Delimiters end the lexemes of every rule. -/
theorem closes_of_mem_table : ∀ rule ∈ table, rule.pattern.Closes := by
  simp only [table, List.forall_mem_cons, List.not_mem_nil, false_imp_iff, implies_true, and_true]
  exact ⟨Pattern.number_closes, Pattern.single_closes (by decide),
    Pattern.single_closes (by decide), Pattern.single_closes (by decide),
    Pattern.single_closes (by decide), Pattern.single_closes (by decide),
    Pattern.single_closes (by decide), Pattern.word_closes (by decide),
    Pattern.word_closes (by decide), Pattern.word_closes (by decide), Pattern.blanks_closes,
    Pattern.comparison_closes, Pattern.word_closes (by decide), Pattern.word_closes (by decide),
    Pattern.word_closes (by decide), Pattern.name_closes, Pattern.quoted_closes,
    Pattern.single_closes (by decide)⟩

section Chosen

variable {text : List Char} {action : Action} {length : Nat}

/-- A rule takes no more than there is. -/
theorem length_le_of_choose?
    (chosen : choose? text = some (action, length)) :
    length ≤ text.length := by
  obtain ⟨rule, known, measured⟩ := exists_rule_of_choose? chosen
  exact (closes_of_mem_table rule known).bounded measured

/-- No lexeme ends with a semicolon. -/
theorem getLast?_ne_of_choose?
    (chosen : choose? text = some (action, length)) :
    (text.take length).getLast? ≠ some ';' := by
  obtain ⟨rule, known, measured⟩ := exists_rule_of_choose? chosen
  exact (closes_of_mem_table rule known).last measured

end Chosen

section Followed

variable {text more : List Char}
variable (visible : ¬ AllBlank text) (delimited : Delimited more)
include visible delimited

/-- Every rule takes the same where something follows that closes every lexeme. -/
theorem measure?_append
    (unquoted : Unquoted text more)
    {rule : Rule}
    (known : rule ∈ table) :
    rule.measure? (text ++ more) = rule.measure? text := by
  have closed := closes_of_mem_table rule known
  have noDot (rest : List Char) : startsWithDot (rest ++ more) = startsWithDot rest := by
    cases rest with
    | cons next later => by_cases dot : next = '.' <;> simp [startsWithDot, dot]
    | nil =>
        cases more with
        | nil => rfl
        | cons next later =>
            have other : next ∉ ['.'] := notMem_of_excluded (delimited next rfl) (by decide)
            have noDot : next ≠ '.' := by simpa using other
            simp [startsWithDot, noDot]
  unfold measure?
  rw [closed.stays visible delimited unquoted]
  split
  · cases measured : rule.pattern.measure text with
    | none => rfl
    | some length =>
        rw [Option.filter_some, Option.filter_some,
          List.drop_append_of_le_length (closed.bounded measured), noDot]
  · rfl

/-- The rule that is chosen in a text is chosen in front of a delimiter. -/
theorem choose?_append
    (unquoted : Unquoted text more) :
    choose? (text ++ more) = choose? text := by
  have same : ∀ rules : List Rule, (∀ rule ∈ rules, rule ∈ table) →
      (rules.findSome? fun rule =>
        (rule.measure? (text ++ more)).map fun length => (rule.action, length)) =
      rules.findSome? fun rule =>
        (rule.measure? text).map fun length => (rule.action, length) := by
    intro rules known
    induction rules with
    | nil => rfl
    | cons rule others hypothesis =>
        obtain ⟨first, later⟩ := List.forall_mem_cons.mp known
        rw [List.findSome?_cons, List.findSome?_cons, hypothesis later,
          measure?_append visible delimited unquoted first]
  exact same table fun _ member => member

end Followed

/-- What closes every lexeme closes no quote. -/
theorem unquoted_of_closing
    {text closing : List Char}
    (closes : Closing closing) :
    Unquoted text closing := by
  refine fun _ => .inr fun member => ?_
  exact absurd (closes '"' member) (by decide)

/-- A quote that is chosen as a lexeme is closed in the text. -/
theorem unquoted_of_choose?
    {text : List Char}
    {action : Action}
    {length : Nat}
    (chosen : choose? text = some (action, length))
    (more : List Char) :
    Unquoted text more := by
  intro quote
  obtain ⟨rest, rfl⟩ := List.head?_eq_some_iff.mp quote
  refine .inl (Decidable.byContradiction fun unclosed => ?_)
  have nothing : StartsNothing '"' rest :=
    ⟨by decide, by decide, by decide, fun _ => unclosed, by simp⟩
  rw [(choose?_cons_eq_none_iff ..).mpr nothing] at chosen
  contradiction

end Rule

end Token
end ModelEquation
