import ModelEquation.Proofs.Json.Compact
import ModelEquation.Proofs.Json.Span
import ModelEquation.Proofs.Reader.Outcome

/-!
# Nesting of what is read

Whatever a reader of JSON takes, as long as it returns, is a span: the nesting of the text
counts the same arrays and objects that the reader opens, strings, escapes and members that
are passed over included. A text that is read as a value as a whole therefore nests exactly as
deep as the value.
-/

namespace ModelEquation
namespace Json
namespace TextReader

variable {α β : Type}

/-- Where the reader returns, it has taken a span, and how far this reaches has to do with the
value. -/
def Tracks (reader : TextReader α) (reached : α → Nat → Prop) : Prop :=
  ∀ input, reader.Ensures input
    (fun value taken _ => ∃ reach, Spans taken reach ∧ reached value reach) fun _ => True

/-- Where the reader returns, it has taken something that is neutral at the place. -/
def Quiet (place : Place) (reader : TextReader α) : Prop :=
  ∀ input, reader.Ensures input (fun _ taken _ => Neutral place taken) fun _ => True

section Rules

variable {place : Place} {reached : α → Nat → Prop} {wanted : β → Nat → Prop}

theorem quiet_pure (value : α) : Quiet place (pure value) :=
  fun _ => Reader.ensures_pure (neutral_nil place)

theorem quiet_fail (reason : List Char → Failure) : Quiet place (.fail reason : TextReader α) :=
  fun _ => trivial

theorem quiet_bind
    {first : TextReader α}
    {next : α → TextReader β}
    (firsts : Quiet place first)
    (nexts : ∀ value, Quiet place (next value)) :
    Quiet place (first >>= next) := by
  intro input
  refine Reader.ensures_bind ((firsts input).imp fun value taken middle _ neutral => ?_)
  exact (nexts value middle).imp fun _ more _ _ later => neutral.append later

theorem Tracks.imp
    {weaker : α → Nat → Prop}
    {reader : TextReader α}
    (tracks : reader.Tracks reached)
    (implies : ∀ value reach, reached value reach → weaker value reach) :
    reader.Tracks weaker := by
  intro input
  refine (tracks input).imp fun value taken _ _ holds => ?_
  obtain ⟨reach, spans, known⟩ := holds
  exact ⟨reach, spans, implies value reach known⟩

theorem tracks_pure
    {value : α}
    (holds : reached value 0) :
    Tracks (pure value) reached :=
  fun _ => Reader.ensures_pure ⟨0, spans_nil, holds⟩

theorem tracks_fail (reason : List Char → Failure) :
    Tracks (.fail reason : TextReader α) reached :=
  fun _ => trivial

/-- A sequence of readers reaches as far as the one that reaches further. -/
theorem tracks_bind
    {first : TextReader α}
    {next : α → TextReader β}
    (firsts : first.Tracks reached)
    (nexts : ∀ value reach, reached value reach →
      (next value).Tracks fun result more => wanted result (max reach more)) :
    (first >>= next).Tracks wanted := by
  intro input
  refine Reader.ensures_bind ((firsts input).imp fun value taken middle _ holds => ?_)
  obtain ⟨reach, spans, known⟩ := holds
  refine (nexts value reach known middle).imp fun result more _ _ later => ?_
  obtain ⟨own, further, result⟩ := later
  exact ⟨max reach own, spans.append further, result⟩

/-- What is quiet outside of strings reaches nothing. -/
theorem tracks_bind_of_quiet
    {first : TextReader α}
    {next : α → TextReader β}
    (quiet : Quiet .outside first)
    (nexts : ∀ value, (next value).Tracks wanted) :
    (first >>= next).Tracks wanted := by
  have silent : first.Tracks fun _ reach => reach = 0 := fun input =>
    (quiet input).imp fun _ _ _ _ neutral => ⟨0, neutral.spans, rfl⟩
  refine tracks_bind silent fun value reach none => ?_
  subst none
  exact (nexts value).imp fun _ _ holds => by rwa [Nat.zero_max]

/-- A reader of which the value does not matter for what is reached. -/
theorem Quiet.tracks
    {reader : TextReader α}
    (quiet : Quiet .outside reader)
    (returns : reader.Returns fun value => reached value 0) :
    reader.Tracks reached := by
  intro input
  have neutral := quiet input
  unfold Reader.Ensures at neutral ⊢
  split at neutral
  · next value rest ran =>
      obtain ⟨taken, split, holds⟩ := neutral
      exact ⟨taken, split, 0, holds.spans, returns ran⟩
  · trivial

end Rules

/-! ## Characters, words and numbers -/

/-- A character that is expected is all that is taken. -/
theorem ensures_char (expected : Char) (input : List Char) :
    (char expected).Ensures input (fun _ taken _ => taken = [expected]) fun _ => True := by
  unfold char
  apply Reader.ensures_peek_bind
  cases input with
  | nil => trivial
  | cons first others =>
      by_cases same : first = expected
      · rw [if_pos (by simp [same])]
        exact ⟨[first], rfl, by rw [same]⟩
      · rw [if_neg (by simpa using same)]
        trivial

theorem ensures_chars (letters input : List Char) :
    (chars letters).Ensures input (fun _ taken _ => taken = letters) fun _ => True := by
  induction letters generalizing input with
  | nil => exact Reader.ensures_pure rfl
  | cons first others hypothesis =>
      refine Reader.ensures_bind ((ensures_char first input).imp fun _ taken middle _ same => ?_)
      refine (hypothesis middle).imp fun _ more _ _ later => ?_
      rw [same, later]
      rfl

/-- Blanks are neutral. -/
theorem quiet_blanks : Quiet .outside blanks := by
  intro input
  have split : input = input.takeWhile isBlank ++ input.dropWhile isBlank :=
    List.takeWhile_append_dropWhile.symm
  exact ⟨input.takeWhile isBlank, split, neutral_takeWhile_isBlank input⟩

/-- A mark that is neither a bracket nor a quote. -/
theorem quiet_mark
    {expected : Char}
    (plain : isPlain expected = true) :
    Quiet .outside (mark expected) := by
  refine quiet_bind (fun input => ?_) fun _ => quiet_blanks
  refine (ensures_char expected input).imp fun _ taken _ _ same => ?_
  rw [same]
  exact neutral_of_isPlain (by simpa using plain)

theorem quiet_sees (expected : Char) : Quiet .outside (sees expected) :=
  fun _ => ⟨[], rfl, neutral_nil _⟩

theorem quiet_word
    {letters : List Char}
    (plain : letters.all isPlain = true)
    (value : Value) :
    Quiet .outside (word letters value) := by
  refine quiet_bind (fun input => ?_) fun _ => quiet_bind quiet_blanks fun _ => quiet_pure value
  refine (ensures_chars letters input).imp fun _ taken _ _ same => ?_
  rw [same]
  exact neutral_of_isPlain plain

/-- A reader that takes characters of numbers alone. -/
theorem quiet_of_scans
    {reader : TextReader α}
    (scans : ∀ input, Scans [] reader input) :
    Quiet .outside reader := by
  intro input
  unfold Reader.Ensures
  split
  · next value rest ran =>
      obtain ⟨⟨taken, split, numeric⟩, _⟩ := scans input ran
      refine ⟨taken, split, neutral_of_isPlain (List.all_eq_true.mpr ?_)⟩
      exact fun character member => isPlain_of_isNumeric (numeric character member)
  · trivial

/-! ## Strings -/

/-- Hexadecimal digits are neither quotes nor backslashes. -/
theorem neutral_of_hexValues?
    {digits : List Char}
    {value : Nat}
    (denoted : hexValues? digits = some value) :
    Neutral .inString digits := by
  have each (start : Nat) (found : digits.foldlM
      (fun value digit => (hexValue? digit).map (16 * value + ·)) start = some value) :
      ∀ digit ∈ digits, (hexValue? digit).isSome = true := by
    clear denoted
    induction digits generalizing start with
    | nil => simp
    | cons digit others hypothesis =>
        rw [List.foldlM_cons] at found
        obtain ⟨next, first, later⟩ := Option.bind_eq_some_iff.mp found
        obtain ⟨own, known, _⟩ := Option.map_eq_some_iff.mp first
        exact List.forall_mem_cons.mpr ⟨by rw [known]; rfl, hypothesis next later⟩
  refine neutral_inString fun character member => ?_
  have known := each 0 denoted character member
  constructor <;> rintro rfl <;> exact absurd known (by decide)

/-- Hexadecimal digits are neutral inside a string. -/
theorem quiet_codeUnit : Quiet .inString codeUnit := by
  intro input
  unfold Reader.Ensures
  simp only [codeUnit]
  split
  · next value rest ran =>
      split at ran
      · contradiction
      · split at ran
        · next denoted =>
            cases ran
            exact ⟨_, (List.take_append_drop 4 input).symm, neutral_of_hexValues? denoted⟩
        · contradiction
  · trivial

/-- An escaped code point is neutral inside a string. -/
theorem quiet_codePoint : Quiet .inString codePoint := by
  refine quiet_bind quiet_codeUnit fun unit => ?_
  split
  · exact quiet_fail _
  · split
    · refine quiet_bind (fun input => ?_) fun _ => quiet_bind quiet_codeUnit fun partner => ?_
      · refine (ensures_chars ['\\', 'u'] input).imp fun _ taken _ _ same => ?_
        rw [same]
        exact neutral_escaped (neutral_nil _) 'u'
      · split
        · exact quiet_pure _
        · exact quiet_fail _
    · exact quiet_pure _

theorem quiet_anyCodeUnit : Quiet .inString anyCodeUnit :=
  quiet_bind quiet_codeUnit fun _ => quiet_pure _

section Strings

variable {unicode : TextReader Char} (quiet : Quiet .inString unicode)

include quiet

/-- What follows a backslash is one character, and neutral characters after it. -/
theorem ensures_escaped (input : List Char) :
    (escaped unicode).Ensures input
      (fun _ taken _ => Neutral .inString ('\\' :: taken)) fun _ => True := by
  unfold escaped
  apply Reader.ensures_peek_bind
  cases input with
  | nil => trivial
  | cons first others =>
      have alone (value : Char) : (Reader.skip >>= fun _ => pure value : TextReader Char).Ensures
          (first :: others) (fun _ taken _ => Neutral .inString ('\\' :: taken)) fun _ => True :=
        Reader.ensures_skip_bind (Reader.ensures_pure (neutral_escaped (neutral_nil _) first))
      rw [List.head?_cons]
      split
      case h_9 =>
        apply Reader.ensures_skip_bind
        exact (quiet others).imp fun _ more _ _ neutral => neutral_escaped neutral _
      case h_10 => trivial
      all_goals exact alone _

/-- A character of a string and what escapes it are neutral. -/
theorem ensures_character
    {first : Char}
    (inside : first ≠ '"')
    (input : List Char) :
    (character unicode first).Ensures input
      (fun _ taken _ => Neutral .inString (first :: taken)) fun _ => True := by
  unfold character
  split
  · next backslash =>
      rw [backslash]
      exact ensures_escaped quiet input
  · next other =>
      split
      · trivial
      · exact Reader.ensures_pure (neutral_inString (by simp [inside, other]))

/-- The content of a string is neutral. -/
theorem quiet_quotedFrom (reversed : List Char) :
    Quiet .inString (quotedFrom unicode reversed) := by
  intro input
  refine Reader.Ensures.imp (Reader.ensures_extend (fun _ before _ => Neutral .inString before)
    (fun first continuation value before others opened neutral => ?_) (neutral_nil _))
    fun _ taken _ _ holds => holds.1
  split at opened
  · contradiction
  · next inside =>
      cases opened
      refine Reader.ensures_bind
        ((ensures_character quiet inside others).imp fun _ taken _ _ later => ?_)
      apply Reader.ensures_pure
      rw [List.append_nil]
      exact neutral.append later

/-- A string is quiet as a whole. -/
theorem quiet_quoted : Quiet .outside (quoted unicode) := by
  intro input
  rw [quoted_eq]
  refine Reader.ensures_bind ((ensures_char '"' input).imp fun _ start middle _ opened => ?_)
  refine Reader.ensures_bind ((quiet_quotedFrom quiet [] middle).imp
    fun _ inside rest _ neutral => ?_)
  refine Reader.ensures_bind ((ensures_char '"' rest).imp fun _ finish _ _ closed => ?_)
  apply Reader.ensures_pure
  rw [opened, closed, List.append_nil]
  exact neutral_between_quotes neutral

end Strings

end TextReader
end Json
end ModelEquation
