import ModelEquation.Text.Blank
import ModelEquation.Text.WordCharacter

/-!
# Blanks at the ends of a text

Trimming takes the blanks at the ends of a text and nothing else: the text is what is left
with blanks around it, and a text without blanks at its ends is what is left of every text
that has it between blanks. No blank is a word character.
-/

namespace ModelEquation
namespace Text

/-- The text has blanks only. -/
def AllBlank (text : List Char) : Prop :=
  ∀ character ∈ text, isBlank character = true

/-- The text does not end with a blank. -/
abbrev EndsVisibly (text : List Char) : Prop :=
  ∀ character ∈ text.getLast?, isBlank character = false

/-- The text neither starts nor ends with a blank. -/
structure Trimmed (text : List Char) : Prop where
  first : ∀ character ∈ text.head?, isBlank character = false
  last : EndsVisibly text

theorem allBlank_nil : AllBlank [] := by
  simp [AllBlank]

theorem AllBlank.append
    {front back : List Char}
    (first : AllBlank front)
    (second : AllBlank back) :
    AllBlank (front ++ back) :=
  List.forall_mem_append.mpr ⟨first, second⟩

theorem EndsVisibly.of_append
    {front back : List Char}
    (visible : EndsVisibly (front ++ back)) :
    EndsVisibly back := by
  intro character last
  refine visible character ?_
  rw [List.getLast?_append, Option.mem_def.mp last]
  rfl

theorem ne_nil_of_not_allBlank
    {text : List Char}
    (visible : ¬ AllBlank text) :
    text ≠ [] := by
  rintro rfl
  exact visible allBlank_nil

/-- What ends visibly is not all blank. -/
theorem EndsVisibly.not_allBlank
    {text : List Char}
    (visible : EndsVisibly text)
    (nonempty : text ≠ []) :
    ¬ AllBlank text := by
  intro blank
  have last := visible _ (List.getLast?_eq_some_getLast nonempty)
  rw [blank _ (List.getLast_mem nonempty)] at last
  contradiction

section Trimming

variable {front back core : List Char}

/-- Blanks in front are taken away. -/
theorem trimStart_append
    (blank : AllBlank front)
    (text : List Char) :
    trimStart (front ++ text) = trimStart text :=
  List.dropWhile_append_of_pos blank

theorem trimEnd_append
    (blank : AllBlank back)
    (text : List Char) :
    trimEnd (text ++ back) = trimEnd text := by
  have reversed : ∀ character ∈ back.reverse, isBlank character = true :=
    fun character member => blank character (List.mem_reverse.mp member)
  rw [trimEnd, List.reverse_append, List.dropWhile_append_of_pos reversed, trimEnd]

theorem trimStart_of_first
    (first : ∀ character ∈ core.head?, isBlank character = false) :
    trimStart core = core := by
  cases core with
  | nil => rfl
  | cons character others => simp [trimStart, first character rfl]

theorem trimEnd_of_last
    (last : EndsVisibly core) :
    trimEnd core = core := by
  have reversed : ∀ character ∈ core.reverse.head?, isBlank character = false := by
    rwa [List.head?_reverse]
  rw [trimEnd, ← trimStart, trimStart_of_first reversed, List.reverse_reverse]

/-- What is left of a text between blanks. -/
theorem trim_enclosed
    (blankFront : AllBlank front)
    (trimmed : Trimmed core)
    (blankBack : AllBlank back) :
    trim (front ++ (core ++ back)) = core := by
  rw [trim, trimStart_append blankFront]
  cases core with
  | nil =>
      have empty : trimStart (back ++ []) = [] := trimStart_append blankBack []
      rw [List.append_nil] at empty
      rw [List.nil_append, empty, trimEnd_nil]
  | cons character others =>
      have stays : trimStart (character :: others ++ back) = character :: others ++ back :=
        trimStart_of_first trimmed.first
      rw [stays, trimEnd_append blankBack, trimEnd_of_last trimmed.last]

/-- Only blanks are taken away in front. -/
theorem exists_trimStart (text : List Char) :
    ∃ blanks, text = blanks ++ trimStart text ∧ AllBlank blanks :=
  ⟨text.takeWhile isBlank, List.takeWhile_append_dropWhile.symm,
    List.all_eq_true.mp List.all_takeWhile⟩

/-- Only blanks are taken away at the end. -/
theorem exists_trimEnd (text : List Char) :
    ∃ blanks, text = trimEnd text ++ blanks ∧ AllBlank blanks := by
  obtain ⟨blanks, split, blank⟩ := exists_trimStart text.reverse
  refine ⟨blanks.reverse, ?_, fun character member => blank character (List.mem_reverse.mp member)⟩
  have back := congrArg List.reverse split
  rwa [List.reverse_reverse, List.reverse_append] at back

/-- What is left starts visibly. -/
theorem first_trimStart (text : List Char) :
    ∀ character ∈ (trimStart text).head?, isBlank character = false := by
  intro character first
  have stops := List.head?_dropWhile_not isBlank text
  rw [trimStart] at first
  rwa [first] at stops

/-- What is left ends visibly. -/
theorem endsVisibly_trimEnd (text : List Char) : EndsVisibly (trimEnd text) := by
  intro character last
  rw [trimEnd, List.getLast?_reverse] at last
  exact first_trimStart _ character last

/-- What is left starts and ends visibly. Its first character is the first one before the blanks
at the end are taken away, too. -/
theorem trimmed_trim (text : List Char) : Trimmed (trim text) := by
  constructor
  · intro character first
    obtain ⟨blanks, split, _⟩ := exists_trimEnd (trimStart text)
    refine first_trimStart text character ?_
    rw [split, List.head?_append, ← trim, first]
    rfl
  · exact endsVisibly_trimEnd _

/-- Only blanks are taken away on either side. -/
theorem exists_trim (text : List Char) :
    ∃ front back, text = front ++ (trim text ++ back) ∧ AllBlank front ∧ AllBlank back := by
  obtain ⟨front, split, blankFront⟩ := exists_trimStart text
  obtain ⟨back, ends, blankBack⟩ := exists_trimEnd (trimStart text)
  exact ⟨front, back, by rw [trim, ← ends, ← split], blankFront, blankBack⟩

end Trimming

/-! ## Blanks and word characters -/

/-- The blanks beyond ASCII. -/
def wideBlanks : List Nat :=
  [0x85, 0xA0, 0x1680, 0x2028, 0x2029, 0x202F, 0x205F, 0x3000] ++ List.range' 0x2000 11

/-- A word character beyond ASCII is no blank. -/
theorem isBlank_eq_false_of_isWordCharacter
    {character : Char}
    (beyond : 0x80 ≤ character.toNat)
    (word : isWordCharacter character = true) :
    isBlank character = false := by
  have apart : ∀ code ∈ wideBlanks,
      (wordRanges.any fun range => range.1 ≤ code && code ≤ range.2) = false := by
    decide +kernel
  refine Bool.eq_false_iff.mpr fun blank => ?_
  have listed : character.toNat ∈ wideBlanks := by
    simp only [isBlank, Bool.or_eq_true, Bool.and_eq_true, decide_eq_true_eq, beq_iff_eq] at blank
    simp only [wideBlanks, List.mem_append, List.mem_cons, List.not_mem_nil, or_false,
      List.mem_range'_1]
    omega
  rw [isWordCharacter, if_neg (by omega), apart _ listed] at word
  contradiction

end Text
end ModelEquation
