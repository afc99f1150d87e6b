import ModelEquation.Proofs.Token.Closing
import ModelEquation.Proofs.Token.Tiling

/-!
# How lexemes start

The first character of a lexeme tells its rule, except that words start like names. What the
rules of words and names measure is told by the run of name characters: a name is all of it, and
the rule of a word applies only where the word is all of it as well.
-/

namespace ModelEquation
namespace Token

open Pattern (isNamePart isNameStart continuesWord)

/-! ## The first character of a lexeme -/

/-- The kind of the lexemes that start as those of the action do; words start as names. -/
def Action.opening : Action → Option Kind
  | .emit kind => some kind
  | .word _ => some .identifier
  | .skip => none

/-- The kind of the lexemes that start with the character; words start as names. -/
def opening (character : Char) : Option Kind :=
  if character.isDigit then some .number
  else if isNameStart character then some .identifier
  else if character == '"' then some .stringLiteral
  else if ['+', '-', '*', '/'].contains character then some .operator
  else if ['<', '>', '=', '!'].contains character then some .comparison
  else markKind? character

/-- Only a character that starts names opens an identifier. -/
theorem isNameStart_of_opening
    {character : Char}
    (named : opening character = some .identifier) :
    isNameStart character = true := by
  by_contra other
  have noMark : markKind? character ≠ some .identifier := by
    unfold markKind?
    split <;> simp
  unfold opening at named
  rw [if_neg other] at named
  split_ifs at named <;> contradiction

namespace Pattern

/-- The first characters of the lexemes are those of the kind. -/
def Opens (pattern : Pattern) (kind : Option Kind) : Prop :=
  ∀ ⦃first : Char⦄ ⦃rest : List Char⦄ ⦃length : Nat⦄,
    pattern.measure (first :: rest) = some length → opening first = kind

/-- A character that starts names opens nothing but an identifier. -/
theorem opening_of_isNameStart
    {character : Char}
    (starts : isNameStart character = true) :
    opening character = some .identifier := by
  have noDigit : ¬ character.isDigit = true := by
    intro digit
    have bounds := Rule.bounds_of_isNameStart starts
    have small : character.toNat ≤ 57 := (Char.isDigit_iff_toNat.mp digit).2
    omega
  rw [opening, if_neg noDigit, if_pos starts]

theorem opening_of_isBlank
    {character : Char}
    (blank : Text.isBlank character = true) :
    opening character = none := by
  have delimiter : isDelimiter character = true := by simp [isDelimiter, isClosing, blank]
  have noPart := isNamePart_of_isDelimiter delimiter
  have noStart : ¬ isNameStart character = true := by
    intro starts
    rw [Rule.isNamePart_of_isNameStart starts] at noPart
    contradiction
  have noDigit : ¬ character.isDigit = true := by
    simp only [isNamePart, Char.isAlphanum, Bool.or_eq_false_iff] at noPart
    simp [noPart]
  have other : character ∉ ['"', '+', '-', '*', '/', '<', '>', '=', '!', '(', ')', '[', ']', ',',
      '.'] :=
    notMem_of_excluded blank (by decide)
  simp only [List.mem_cons, List.not_mem_nil, or_false, not_or] at other
  simp [opening, noDigit, noStart, other, markKind?]

theorem number_opens : number.Opens (some .number) := by
  intro first rest length measured
  have digit : first.isDigit = true := by
    by_contra other
    rw [(measure_number_eq_none_iff first rest).mpr (Bool.eq_false_iff.mpr other)] at measured
    contradiction
  rw [opening, if_pos digit]

/-- A single character opens what all of its kind open. -/
theorem single_opens
    {members : List Char}
    {kind : Option Kind}
    (known : members.all (opening · == kind) = true) :
    (single members).Opens kind := by
  intro first rest length measured
  have member : first ∈ members := by
    by_contra other
    rw [(measure_single_eq_none_iff first rest members).mpr other] at measured
    contradiction
  exact beq_iff_eq.mp (List.all_eq_true.mp known first member)

theorem word_opens
    {letter : Char}
    {letters : List Char}
    (starts : isNameStart letter = true) :
    (word letter letters).Opens (some .identifier) := by
  intro first rest length measured
  refine opening_of_isNameStart (Decidable.byContradiction fun other => ?_)
  rw [measure_word_eq_none first rest letter letters starts (Bool.eq_false_iff.mpr other)]
    at measured
  contradiction

theorem name_opens : name.Opens (some .identifier) := by
  intro first rest length measured
  refine opening_of_isNameStart (Decidable.byContradiction fun other => ?_)
  rw [(measure_name_eq_none_iff first rest).mpr (Bool.eq_false_iff.mpr other)] at measured
  contradiction

theorem blanks_opens : blanks.Opens none := by
  intro first rest length measured
  refine opening_of_isBlank (Decidable.byContradiction fun other => ?_)
  rw [(measure_blanks_eq_none_iff first rest).mpr (Bool.eq_false_iff.mpr other)] at measured
  contradiction

theorem comparison_opens : comparison.Opens (some .comparison) := by
  intro first rest length measured
  have known : first ∈ ['=', '!', '<', '>'] := by
    by_contra other
    have alone : first ∉ ['<', '>'] := fun member =>
      other (List.mem_of_mem_drop (i := 2) member)
    rw [measure_comparison_cons, if_neg fun pair => other pair.2, if_neg alone] at measured
    contradiction
  have all : ['=', '!', '<', '>'].all (opening · == some .comparison) = true := by decide
  exact beq_iff_eq.mp (List.all_eq_true.mp all first known)

theorem quoted_opens : quoted.Opens (some .stringLiteral) := by
  intro first rest length measured
  obtain ⟨body, later, same, _, _⟩ := split_of_measure_quoted measured
  cases same
  decide

end Pattern

namespace Rule

/-- The first character of what a rule takes tells what the rule emits. -/
theorem opens_of_mem_table : ∀ rule ∈ table, rule.pattern.Opens rule.action.opening := by
  simp only [table, List.forall_mem_cons, List.not_mem_nil, false_imp_iff, implies_true, and_true]
  exact ⟨Pattern.number_opens, Pattern.single_opens (by decide), Pattern.single_opens (by decide),
    Pattern.single_opens (by decide), Pattern.single_opens (by decide),
    Pattern.single_opens (by decide), Pattern.single_opens (by decide),
    Pattern.word_opens (by decide), Pattern.word_opens (by decide),
    Pattern.word_opens (by decide), Pattern.blanks_opens, Pattern.comparison_opens,
    Pattern.word_opens (by decide), Pattern.word_opens (by decide),
    Pattern.word_opens (by decide), Pattern.name_opens, Pattern.quoted_opens,
    Pattern.single_opens (by decide)⟩

/-! ## Words and names -/

/-- The kind of a name or word. -/
def namedKind : String → Kind
  | "if" => .ifWord
  | "then" => .thenWord
  | "else" => .elseWord
  | "and" => .andWord
  | "or" => .orWord
  | "not" => .notWord
  | _ => .identifier

/-- A name that is not reserved is an identifier. -/
theorem namedKind_of_notMem
    {text : String}
    (free : text ∉ reserved) :
    namedKind text = .identifier := by
  simp only [reserved, List.mem_cons, List.not_mem_nil, or_false, not_or] at free
  unfold namedKind
  split <;> simp_all

/-- A rule whose lexemes start as names is that of names or that of a word. -/
theorem named_of_mem_table : ∀ rule ∈ table, rule.action.opening = some .identifier →
    rule = ⟨.emit .identifier, .name⟩ ∨
      ∃ kind letter letters, rule = ⟨.word kind, .word letter letters⟩ ∧
        (letter :: letters).all isNamePart = true ∧
        namedKind (String.ofList (letter :: letters)) = kind := by
  simp only [table, List.forall_mem_cons, List.not_mem_nil, false_imp_iff, implies_true, and_true,
    Action.opening, Option.some.injEq, reduceCtorEq, true_and, forall_const]
  exact ⟨.inr ⟨_, _, _, rfl, by decide, by decide⟩, .inr ⟨_, _, _, rfl, by decide, by decide⟩,
    .inr ⟨_, _, _, rfl, by decide, by decide⟩, .inr ⟨_, _, _, rfl, by decide, by decide⟩,
    .inr ⟨_, _, _, rfl, by decide, by decide⟩, .inr ⟨_, _, _, rfl, by decide, by decide⟩,
    .inl trivial⟩

/-- The run of name characters at the front of a text. -/
def run (text : List Char) : List Char :=
  text.takeWhile isNamePart

theorem length_run_append
    {word : List Char}
    (parts : ∀ character ∈ word, isNamePart character = true)
    (rest : List Char) :
    (run (word ++ rest)).length = word.length + (run rest).length := by
  rw [run, List.takeWhile_append_of_pos parts, List.length_append, run]

theorem run_eq_nil_iff (text : List Char) :
    run text = [] ↔ ∀ next ∈ text.head?, isNamePart next = false := by
  cases text with
  | nil => simp [run]
  | cons next others => cases part : isNamePart next <;> simp [run, part]

/-- Where no word character follows, only a dot can go on with a name. -/
theorem startsWithDot_eq_false_iff
    {rest : List Char}
    (stops : continuesWord rest = false) :
    startsWithDot rest = false ↔ run rest = [] := by
  rw [run_eq_nil_iff]
  cases rest with
  | nil => simp [startsWithDot]
  | cons next later =>
      by_cases dot : next = '.'
      · subst dot
        simp [startsWithDot, isNamePart]
      · have noPart : isNamePart next = false := by
          refine Bool.eq_false_iff.mpr fun part => ?_
          rw [continuesWord, isWordCharacter_of_isNamePart part dot] at stops
          contradiction
        simp [startsWithDot, dot, noPart]

/-- The rule of names takes all of the run. -/
theorem length_of_measure_name
    {text : List Char}
    {length : Nat}
    (measured : Pattern.name.measure text = some length) :
    length = (run text).length := by
  simp only [Pattern.name] at measured
  split at measured
  · contradiction
  · next first others =>
      split at measured
      · next starts =>
          cases measured
          rw [run, List.takeWhile_cons_of_pos (isNamePart_of_isNameStart starts),
            List.length_cons, Nat.add_comm]
      · contradiction

/-- No rule takes anything from the empty text. -/
theorem ne_nil_of_measure
    {rule : Rule}
    (known : rule ∈ table)
    {text : List Char}
    {length : Nat}
    (measured : rule.pattern.measure text = some length) :
    text ≠ [] := by
  rintro rfl
  have positive := rule.pattern.positive measured
  have bounded := (closes_of_mem_table rule known).bounded measured
  exact absurd positive (Nat.not_lt.mpr bounded)

section Named

variable {rule : Rule} {text : List Char} {length : Nat}
variable (known : rule ∈ table) (named : rule.action.opening = some .identifier)
include known named

/-- What the rules of words and names measure is no longer than the run, and they apply to
all of the run only. -/
theorem measure?_of_named
    (measured : rule.pattern.measure text = some length) :
    length ≤ (run text).length ∧
      (rule.measure? text = some length ↔ length = (run text).length) := by
  obtain rfl | ⟨kind, letter, letters, rfl, parts, _⟩ := named_of_mem_table rule known named
  · have whole := length_of_measure_name measured
    exact ⟨Nat.le_of_eq whole, fun _ => whole, fun _ => measured⟩
  · obtain ⟨rest, rfl, rfl, stops⟩ := Pattern.split_of_measure_word measured
    rw [length_run_append (List.all_eq_true.mp parts), measure?_word_append, stops, Bool.false_or]
    refine ⟨Nat.le_add_right .., ?_⟩
    have ended := startsWithDot_eq_false_iff stops
    cases dotted : startsWithDot rest with
    | false =>
        have empty := ended.mp dotted
        simp [empty]
    | true =>
        have going : run rest ≠ [] := fun empty => by
          rw [ended.mpr empty] at dotted
          contradiction
        simpa using going

end Named

end Rule
end Token
end ModelEquation
