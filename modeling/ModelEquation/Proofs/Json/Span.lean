import ModelEquation.Proofs.Json.Numeral
import ModelEquation.Proofs.Json.Quoted

/-!
# Spans of a text

A span is a part of a text that starts and ends outside of strings and closes every array and
object that it opens. What matters of it for the nesting of the whole text is how many it opens
one in another. Spans one after the other are a span, and so is a span between brackets.
-/

namespace ModelEquation
namespace Json

/-- In front of any text, the characters change nothing about what the text reaches. -/
def Neutral (place : Place) (taken : List Char) : Prop :=
  ∀ depth rest, nestingFrom place depth (taken ++ rest) = nestingFrom place depth rest

/-- The characters open the given number of arrays and objects one in another, and close all of
them. -/
def Spans (taken : List Char) (reach : Nat) : Prop :=
  ∀ depth rest, nestingFrom .outside depth (taken ++ rest) =
    max (if reach = 0 then 0 else depth + reach) (nestingFrom .outside depth rest)

/-! ## Characters that open nothing -/

/-- Whether a character is neither a bracket nor the start of a string. -/
def isPlain (character : Char) : Bool :=
  character != '"' && character != '{' && character != '[' && character != '}' &&
    character != ']'

theorem neutral_nil (place : Place) : Neutral place [] :=
  fun _ _ => rfl

theorem Neutral.append
    {place : Place}
    {front back : List Char}
    (first : Neutral place front)
    (second : Neutral place back) :
    Neutral place (front ++ back) := by
  intro depth rest
  rw [List.append_assoc, first, second]

/-- Characters that are no brackets and no quotes are neutral. -/
theorem neutral_of_isPlain
    {text : List Char}
    (plain : text.all isPlain = true) :
    Neutral .outside text := by
  intro depth rest
  induction text with
  | nil => rfl
  | cons character others hypothesis =>
      rw [List.all_cons, Bool.and_eq_true] at plain
      obtain ⟨known, later⟩ := plain
      simp only [isPlain, Bool.and_eq_true, bne_iff_ne] at known
      rw [List.cons_append, nestingFrom, hypothesis later]
      simp [known]

/-- In a string, only the double quote and the backslash matter. -/
theorem neutral_inString
    {text : List Char}
    (plain : ∀ character ∈ text, character ≠ '"' ∧ character ≠ '\\') :
    Neutral .inString text := by
  intro depth rest
  induction text with
  | nil => rfl
  | cons character others hypothesis =>
      obtain ⟨known, later⟩ := List.forall_mem_cons.mp plain
      rw [List.cons_append, nestingFrom, hypothesis later]
      simp [known]

/-- Whatever follows a backslash in a string is passed over. -/
theorem neutral_escaped
    {more : List Char}
    (neutral : Neutral .inString more)
    (character : Char) :
    Neutral .inString ('\\' :: character :: more) := by
  intro depth rest
  simpa [nestingFrom] using neutral depth rest

/-- A string is neutral as a whole. -/
theorem neutral_between_quotes
    {inside : List Char}
    (neutral : Neutral .inString inside) :
    Neutral .outside ('"' :: (inside ++ ['"'])) := by
  intro depth rest
  have inner := neutral depth ('"' :: rest)
  simpa [nestingFrom] using inner

theorem isPlain_of_isNumeric
    {character : Char}
    (numeric : isNumeric character = true) :
    isPlain character = true := by
  simp only [isPlain, Bool.and_eq_true, bne_iff_ne]
  refine ⟨⟨⟨⟨?_, ?_⟩, ?_⟩, ?_⟩, ?_⟩ <;> rintro rfl <;> exact absurd numeric (by decide)

theorem isPlain_of_isBlank
    {character : Char}
    (blank : TextReader.isBlank character = true) :
    isPlain character = true := by
  simp only [isPlain, Bool.and_eq_true, bne_iff_ne]
  refine ⟨⟨⟨⟨?_, ?_⟩, ?_⟩, ?_⟩, ?_⟩ <;> rintro rfl <;> exact absurd blank (by decide)

/-- The blanks in front of a text. -/
theorem neutral_takeWhile_isBlank (text : List Char) :
    Neutral .outside (text.takeWhile TextReader.isBlank) := by
  apply neutral_of_isPlain
  rw [List.all_eq_true]
  intro character member
  exact isPlain_of_isBlank (List.all_eq_true.mp List.all_takeWhile character member)

/-! ## Spans -/

/-- Neutral characters are a span that opens nothing. -/
theorem Neutral.spans
    {taken : List Char}
    (neutral : Neutral .outside taken) :
    Spans taken 0 := by
  intro depth rest
  rw [neutral, if_pos rfl, Nat.zero_max]

theorem spans_nil : Spans [] 0 :=
  (neutral_nil .outside).spans

/-- Plain characters open nothing. -/
theorem spans_of_isPlain
    {text : List Char}
    (plain : text.all isPlain = true) :
    Spans text 0 :=
  (neutral_of_isPlain plain).spans

/-- An opening bracket or brace goes one deeper. -/
theorem nestingFrom_opening
    {opening : Char}
    (bracket : opening = '[' ∨ opening = '{')
    (depth : Nat)
    (text : List Char) :
    nestingFrom .outside depth (opening :: text) =
      max (depth + 1) (nestingFrom .outside (depth + 1) text) := by
  rcases bracket with rfl | rfl <;> simp [nestingFrom]

/-- A text nests no deeper than it has characters. -/
theorem nestingFrom_le (place : Place) (depth : Nat) (text : List Char) :
    nestingFrom place depth text ≤ depth + text.length := by
  fun_induction nestingFrom place depth text <;> grind

/-- A text nests no deeper than it is long. -/
theorem nesting_le_length (text : List Char) : nesting text ≤ text.length := by
  simpa [nesting] using nestingFrom_le .outside 0 text

namespace Spans

variable {front back inside : List Char} {first second reach : Nat}

/-- Spans one after the other reach as far as the one that reaches further. -/
theorem append
    (fronts : Spans front first)
    (backs : Spans back second) :
    Spans (front ++ back) (max first second) := by
  intro depth rest
  rw [List.append_assoc, fronts, backs]
  split <;> split <;> split <;> omega

/-- A span in front of which something neutral stands. -/
theorem neutral_append
    (neutral : Neutral .outside front)
    (backs : Spans back reach) :
    Spans (front ++ back) reach := by
  intro depth rest
  rw [List.append_assoc, neutral, backs]

/-- A span behind which something neutral stands. -/
theorem append_neutral
    (fronts : Spans front reach)
    (neutral : Neutral .outside back) :
    Spans (front ++ back) reach := by
  intro depth rest
  rw [List.append_assoc, fronts, neutral]

/-- Brackets or braces around a span open one more. -/
theorem enclosed
    (spans : Spans inside reach)
    {opening closing : Char}
    (brackets : (opening, closing) = ('[', ']') ∨ (opening, closing) = ('{', '}')) :
    Spans (opening :: (inside ++ [closing])) (reach + 1) := by
  intro depth rest
  have opens : opening = '[' ∨ opening = '{' := by
    rcases brackets with same | same <;> cases same <;> simp
  have closes : nestingFrom .outside (depth + 1) (closing :: rest) =
      nestingFrom .outside depth rest := by
    rcases brackets with same | same <;> cases same <;> simp [nestingFrom]
  have within := spans (depth + 1) (closing :: rest)
  rw [closes] at within
  rw [List.cons_append, List.append_assoc, nestingFrom_opening opens, List.singleton_append, within,
    if_neg (Nat.succ_ne_zero reach)]
  split <;> omega

/-- A text that is a span nests as deep as the span reaches. -/
theorem nesting_eq
    {text : List Char}
    (spans : Spans text reach) :
    nesting text = reach := by
  have whole := spans 0 []
  rw [List.append_nil] at whole
  rw [nesting, whole]
  simp only [nestingFrom, Nat.max_zero, Nat.zero_add]
  split <;> omega

end Spans
end Json

/-! ## Texts of numbers -/

open Json (isNumeric)

/-- The digits of a number are characters of numbers. -/
theorem isNumeric_of_mem_toDigits
    {number : Nat}
    {digit : Char}
    (member : digit ∈ Nat.toDigits 10 number) :
    isNumeric digit = true := by
  simp [isNumeric, Nat.isDigit_of_mem_toDigits (by decide) (by decide) member]

/-- Whole numbers are written with characters of numbers. -/
theorem Number.isNumeric_of_mem_wholeText
    (value : Int) :
    ∀ character ∈ Number.wholeText value, isNumeric character = true := by
  intro character member
  unfold Number.wholeText at member
  split at member
  · rcases List.mem_cons.mp member with rfl | digit
    · rfl
    · exact isNumeric_of_mem_toDigits digit
  · exact isNumeric_of_mem_toDigits member

namespace Binary64
namespace Layout

section

variable {digits : List Char}

theorem isNumeric_of_mem_positional
    (numeric : ∀ digit ∈ digits, isNumeric digit = true)
    (point : Int) :
    ∀ character ∈ positional digits point, isNumeric character = true := by
  have zero : isNumeric '0' = true := rfl
  have dot : isNumeric '.' = true := rfl
  have zeros (count : Nat) : ∀ character ∈ List.replicate count '0',
      isNumeric character = true := by
    intro character member
    rw [List.eq_of_mem_replicate member, zero]
  unfold positional
  split
  · simp only [List.forall_mem_cons, List.forall_mem_append]
    exact ⟨zero, dot, zeros _, numeric⟩
  · split
    · simp only [List.forall_mem_cons, List.forall_mem_append]
      exact ⟨⟨numeric, zeros _⟩, dot, zero, by simp⟩
    · simp only [List.forall_mem_cons, List.forall_mem_append]
      exact ⟨fun digit member => numeric digit (List.mem_of_mem_take member), dot,
        fun digit member => numeric digit (List.mem_of_mem_drop member)⟩

theorem isNumeric_of_mem_scientific
    {positiveMark : List Char}
    (marked : ∀ character ∈ positiveMark, isNumeric character = true)
    (numeric : ∀ digit ∈ digits, isNumeric digit = true)
    (exponent : Int) :
    ∀ character ∈ scientific positiveMark digits exponent, isNumeric character = true := by
  have mark : ∀ character ∈ (if exponent < 0 then ['-'] else positiveMark),
      isNumeric character = true := by
    split
    · simp [isNumeric]
    · exact marked
  have power : ∀ digit ∈ Nat.toDigits 10 exponent.natAbs, isNumeric digit = true :=
    fun _ => isNumeric_of_mem_toDigits
  unfold scientific
  simp only [List.forall_mem_cons, List.forall_mem_append]
  refine ⟨⟨?_, rfl, mark⟩, power⟩
  cases digits with
  | nil => simp
  | cons first others =>
      cases others with
      | nil => exact numeric
      | cons second later =>
          obtain ⟨known, numericLater⟩ := List.forall_mem_cons.mp numeric
          exact List.forall_mem_cons.mpr ⟨known, List.forall_mem_cons.mpr ⟨rfl, numericLater⟩⟩

/-- Every decimal is set out in characters of numbers. -/
theorem isNumeric_of_mem_decimal
    {layout : Layout}
    (marked : ∀ character ∈ layout.positiveMark, isNumeric character = true)
    (number : Decimal) :
    ∀ character ∈ layout.decimal number, isNumeric character = true := by
  have numeric : ∀ digit ∈ Nat.toDigits 10 number.coefficient, isNumeric digit = true :=
    fun _ => isNumeric_of_mem_toDigits
  unfold decimal
  split
  · exact List.all_eq_true.mp (by decide)
  · dsimp only
    split
    · exact isNumeric_of_mem_positional numeric _
    · exact isNumeric_of_mem_scientific marked numeric _

end

end Layout
end Binary64

/-- No double opens anything in a text. -/
theorem Json.isPlain_of_mem_doubleText
    (value : Binary64) :
    ∀ character ∈ Json.doubleText value, Json.isPlain character = true := by
  unfold Json.doubleText
  split
  · next finite =>
      intro character member
      apply Json.isPlain_of_isNumeric
      cases value with
      | finite negative significand exponent valid =>
          have digits : ∀ character ∈ Json.layout.decimal
              (Binary64.shortest Json.layout.tie significand exponent),
              isNumeric character = true :=
            Binary64.Layout.isNumeric_of_mem_decimal (by simp [Json.layout, isNumeric]) _
          cases negative with
          | false => exact digits character member
          | true =>
              rcases List.mem_cons.mp member with rfl | digit
              · rfl
              · exact digits character digit
      | infinite negative => contradiction
      | notANumber => contradiction
  · exact List.all_eq_true.mp (by decide)

end ModelEquation
