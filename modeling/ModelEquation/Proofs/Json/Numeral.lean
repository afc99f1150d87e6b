import ModelEquation.Json.Reader
import ModelEquation.Json.Writer
import ModelEquation.Proofs.Number.Whole

/-!
# Numbers that are read back

A numeral ends where a mark of punctuation or the end of the text follows, and it
consists of the characters of numbers alone. The text of a whole number of 64 bits is
read as that number. What the text of a double is read as depends on how exactly the
reader scales it: `Binary64.reread?` is that double.
-/

namespace ModelEquation
namespace Json

/-- What may follow a value inside a text: nothing, a comma or a closing bracket. -/
def Follows (rest : List Char) : Prop :=
  ∀ next ∈ rest.head?, next = ',' ∨ next = ']' ∨ next = '}'

theorem follows_nil : Follows [] := by
  simp [Follows]

theorem follows_comma (rest : List Char) : Follows (',' :: rest) := by
  simp [Follows]

theorem follows_bracket (rest : List Char) : Follows (']' :: rest) := by
  simp [Follows]

theorem follows_brace (rest : List Char) : Follows ('}' :: rest) := by
  simp [Follows]

/-- What follows a value starts with a comma or a closing bracket, and with nothing else. -/
theorem Follows.head?_ne
    {rest : List Char}
    (follows : Follows rest)
    (character : Char)
    (other : character ≠ ',' ∧ character ≠ ']' ∧ character ≠ '}') :
    rest.head? ≠ some character := by
  intro starts
  rcases follows character starts with rfl | rfl | rfl <;> simp at other

/-- The characters of which numbers consist. -/
def isNumeric (character : Char) : Bool :=
  character.isDigit || character == '-' || character == '+' || character == '.' ||
    character == 'e' || character == 'E'

namespace TextReader

/-- Where the reader returns a value it has taken only characters of numbers, and
it takes the same when `more` follows. -/
def Scans
    {α : Type}
    (more : List Char)
    (reader : TextReader α)
    (input : List Char) : Prop :=
  ∀ ⦃rest : List Char⦄ ⦃value : α⦄,
    reader.run input = .ok (value, rest) →
    (∃ taken, input = taken ++ rest ∧ ∀ character ∈ taken, isNumeric character = true) ∧
      reader.run (input ++ more) = .ok (value, rest ++ more)

section Rules

variable {α β : Type} {more input : List Char}

theorem scans_pure (value : α) : Scans more (pure value) input := by
  intro rest result ran
  cases ran
  exact ⟨⟨[], rfl, by simp⟩, rfl⟩

theorem scans_fail (reason : List Char → Failure) :
    Scans more (.fail reason : TextReader α) input := by
  intro rest result ran
  cases ran

theorem scans_bind
    {first : TextReader α}
    {next : α → TextReader β}
    (scans : Scans more first input)
    (continued : ∀ value rest, Scans more (next value) rest) :
    Scans more (first >>= next) input := by
  intro rest result ran
  rw [Reader.run_bind] at ran ⊢
  cases firstRan : first.run input with
  | error failure =>
      rw [firstRan] at ran
      contradiction
  | ok middle =>
      rw [firstRan] at ran
      obtain ⟨⟨taken, split, numeric⟩, followed⟩ := scans firstRan
      obtain ⟨⟨later, splitLater, numericLater⟩, last⟩ := continued middle.1 middle.2 ran
      rw [followed]
      refine ⟨⟨taken ++ later, ?_, ?_⟩, last⟩
      · rw [split, splitLater, List.append_assoc]
      · intro character present
        rcases List.mem_append.mp present with early | late
        · exact numeric character early
        · exact numericLater character late

/-- A reader that looks at the next character must treat what follows like the
end of the text. -/
theorem scans_peek_bind
    {next : Option Char → TextReader β}
    (atCharacter : ∀ character others, Scans more (next (some character)) (character :: others))
    (atEnd : Scans more (next none) [])
    (same : next more.head? = next none) :
    Scans more (Reader.peek >>= next) input := by
  cases input with
  | cons character others => exact atCharacter character others
  | nil =>
      intro rest result ran
      obtain ⟨numeric, followed⟩ := atEnd ran
      rw [← same] at followed
      exact ⟨numeric, followed⟩

theorem scans_skip_bind
    {character : Char}
    {others : List Char}
    {next : Unit → TextReader β}
    (numeric : isNumeric character = true)
    (continued : Scans more (next ()) others) :
    Scans more (Reader.skip >>= next) (character :: others) := by
  intro rest result ran
  obtain ⟨⟨taken, split, known⟩, followed⟩ := continued ran
  refine ⟨⟨character :: taken, ?_, ?_⟩, followed⟩
  · rw [split, List.cons_append]
  · intro other present
    rcases List.mem_cons.mp present with rfl | later
    · exact numeric
    · exact known other later

end Rules

section Numbers

variable {more : List Char} (follows : Follows more)
include follows

theorem scans_digits (atEnd : Failure) (input : List Char) : Scans more (digits atEnd) input := by
  have stops : more.takeWhile Char.isDigit = [] ∧ more.dropWhile Char.isDigit = more := by
    cases more with
    | nil => exact ⟨rfl, rfl⟩
    | cons next others => rcases follows next rfl with rfl | rfl | rfl <;> exact ⟨rfl, rfl⟩
  apply scans_bind
  · intro rest taken ran
    cases ran
    refine ⟨⟨_, List.takeWhile_append_dropWhile.symm, ?_⟩, ?_⟩
    · intro character present
      have digit := List.all_eq_true.mp List.all_takeWhile character present
      simp [isNumeric, digit]
    · have whole (same : (input.takeWhile Char.isDigit).length = input.length) :
          input = input.takeWhile Char.isDigit :=
        ((List.takeWhile_prefix Char.isDigit).eq_of_length same).symm
      simp only [takeWhile, List.takeWhile_append, List.dropWhile_append, stops]
      cases left : input.dropWhile Char.isDigit with
      | nil => simpa using whole
      | cons next others => simpa using whole
  · intro found rest
    split
    · exact scans_fail _
    · exact scans_pure _

theorem scans_wholeDigits (atEnd : Failure) (input : List Char) :
    Scans more (wholeDigits atEnd) input := by
  apply scans_bind (scans_digits follows atEnd input)
  intro found rest
  split
  · exact scans_fail _
  · exact scans_pure _

theorem scans_fraction (atEnd : Failure) (input : List Char) :
    Scans more (fraction atEnd) input := by
  apply scans_peek_bind
  · intro character others
    split
    · next point =>
        cases point
        apply scans_skip_bind (by decide)
        apply scans_bind (scans_digits follows atEnd others)
        exact fun found rest => scans_pure _
    · exact scans_pure _
  · exact scans_pure _
  · have noPoint := follows.head?_ne '.' (by decide)
    simp [noPoint]

theorem scans_sign (input : List Char) : Scans more sign input := by
  apply scans_peek_bind
  · intro character others
    split
    · next plus =>
        cases plus
        exact scans_skip_bind (by decide) (scans_pure _)
    · next minus =>
        cases minus
        exact scans_skip_bind (by decide) (scans_pure _)
    · exact scans_pure _
  · exact scans_pure _
  · have noPlus := follows.head?_ne '+' (by decide)
    have noMinus := follows.head?_ne '-' (by decide)
    split <;> simp_all

theorem scans_exponent (atEnd : Failure) (input : List Char) :
    Scans more (exponent atEnd) input := by
  apply scans_peek_bind
  · intro character others
    split
    · next mark =>
        have numeric : isNumeric character = true := by
          simp only [Option.some.injEq, Bool.or_eq_true, decide_eq_true_eq] at mark
          rcases mark with rfl | rfl <;> decide
        apply scans_skip_bind numeric
        apply scans_bind (scans_sign follows others)
        intro down rest
        apply scans_bind (scans_digits follows atEnd rest)
        exact fun found rest => scans_pure _
    · exact scans_pure _
  · exact scans_pure _
  · have noSmall := follows.head?_ne 'e' (by decide)
    have noLarge := follows.head?_ne 'E' (by decide)
    simp [noSmall, noLarge]

/-- A numeral takes only characters of numbers, and the same ones whatever follows. -/
theorem scans_numeral (atEnd : Failure) (input : List Char) :
    Scans more (numeral atEnd) input := by
  have unsigned (negative : Bool) (rest : List Char) :
      Scans more (wholeDigits atEnd >>= fun whole => fraction atEnd >>= fun fraction =>
        exponent atEnd >>= fun exponent =>
          pure (⟨negative, whole, fraction, exponent⟩ : Numeral)) rest := by
    apply scans_bind (scans_wholeDigits follows atEnd rest)
    intro whole rest
    apply scans_bind (scans_fraction follows atEnd rest)
    intro fraction rest
    apply scans_bind (scans_exponent follows atEnd rest)
    exact fun exponent rest => scans_pure _
  apply scans_peek_bind
  · intro character others
    dsimp only
    split
    · next minus =>
        cases minus
        exact scans_skip_bind (by decide) (unsigned _ others)
    · exact unsigned _ (character :: others)
  · exact unsigned _ []
  · have noMinus := follows.head?_ne '-' (by decide)
    simp [noMinus]

/-- A number takes only characters of numbers, and the same ones whatever follows. -/
theorem scans_number (input : List Char) : Scans more number input := by
  apply scans_bind (scans_numeral follows .truncated input)
  intro numeral rest
  split
  · exact scans_pure _
  · exact scans_fail _

end Numbers

/-- A number starts with a minus or a digit. -/
theorem starts_of_run_number
    {text rest : List Char}
    {value : Value}
    (ran : number.run text = .ok (value, rest)) :
    ∃ first others, text = first :: others ∧ (first = '-' ∨ first.isDigit = true) := by
  cases text with
  | nil => contradiction
  | cons first others =>
      refine ⟨first, others, rfl, ?_⟩
      by_cases minus : first = '-'
      · exact .inl minus
      · by_cases digit : first.isDigit = true
        · exact .inr digit
        · simp [number, numeral, wholeDigits, digits, takeWhile, minus, digit] at ran

theorem run_blanks
    {rest : List Char}
    (stops : ∀ next ∈ rest.head?, isBlank next = false) :
    blanks.run rest = .ok ((), rest) := by
  cases rest with
  | nil => rfl
  | cons next others => simp [blanks, takeWhile, stops next rfl]

theorem run_blanks_of_follows
    {rest : List Char}
    (follows : Follows rest) :
    blanks.run rest = .ok ((), rest) := by
  apply run_blanks
  intro next starts
  rcases follows next starts with rfl | rfl | rfl <;> decide

/-- A minus or a digit starts a number. -/
theorem run_scalar_of_starts
    {first : Char}
    (starts : first = '-' ∨ first.isDigit = true)
    (lexis : Lexis)
    (others : List Char) :
    (scalar lexis).run (first :: others) =
      (lexis.number >>= fun value => blanks >>= fun _ => pure value).run (first :: others) := by
  have word (other : Char) (letter : other ≠ '-' ∧ other.isDigit = false) : first ≠ other := by
    rintro rfl
    simp [letter] at starts
  rw [scalar, Reader.run_bind, Reader.run_peek, List.head?_cons]
  dsimp only
  split
  case h_1 same => exact absurd (Option.some.inj same) (word 'n' (by decide))
  case h_2 same => exact absurd (Option.some.inj same) (word 't' (by decide))
  case h_3 same => exact absurd (Option.some.inj same) (word 'f' (by decide))
  case h_4 same => exact absurd (Option.some.inj same) (word '"' (by decide))
  case h_5 same =>
    cases same
    rw [if_pos (by simpa using starts)]
  case h_6 missing => cases missing

/-- A text that is read as a number alone is read as that number before a mark of
punctuation. -/
theorem run_scalar_of_number
    {text more : List Char}
    {value : Value}
    (ran : number.run text = .ok (value, []))
    (follows : Follows more) :
    (scalar .strict).run (text ++ more) = .ok (value, more) := by
  obtain ⟨first, others, rfl, starts⟩ := starts_of_run_number ran
  have followed := (scans_number follows _ ran).2
  rw [List.cons_append] at followed ⊢
  rw [run_scalar_of_starts starts, Lexis.strict, Reader.run_bind, followed]
  simp [run_blanks_of_follows follows]

end TextReader

/-! ## Whole numbers -/

/-- The digits of a number start with a zero only if it is zero. -/
theorem eq_zero_of_head?_toDigits
    (number : Nat)
    (starts : (Nat.toDigits 10 number).head? = some '0') :
    number = 0 := by
  induction number using Nat.strongRecOn with
  | ind number hypothesis =>
      rw [Nat.toDigits_eq_if (by decide)] at starts
      split at starts
      · next small =>
          have all : ∀ digit < 10, some (Nat.digitChar digit) = some '0' → digit = 0 := by decide
          exact all number small (by simpa using starts)
      · rw [List.head?_append] at starts
        obtain ⟨first, others, digits⟩ :=
          List.exists_cons_of_ne_nil (Nat.toDigits_ne_nil (n := number / 10) (b := 10))
        rw [digits] at starts
        have quotient := hypothesis (number / 10) (by omega) (by rw [digits]; exact starts)
        omega

namespace TextReader

theorem run_wholeDigits_toDigits (number : Nat) (atEnd : Failure) :
    (wholeDigits atEnd).run (Nat.toDigits 10 number) = .ok (Nat.toDigits 10 number, []) := by
  have all : ∀ character ∈ Nat.toDigits 10 number, character.isDigit = true :=
    fun character present => Nat.isDigit_of_mem_toDigits (by decide) (by decide) present
  have taken : (Nat.toDigits 10 number ++ []).takeWhile Char.isDigit =
      Nat.toDigits 10 number ++ [] := List.takeWhile_append_of_pos all
  have left : (Nat.toDigits 10 number ++ []).dropWhile Char.isDigit = [] :=
    List.dropWhile_append_of_pos all
  rw [List.append_nil] at taken left
  have single : ¬ ((Nat.toDigits 10 number).head? = some '0' &&
      (Nat.toDigits 10 number).length != 1) = true := by
    intro both
    simp only [Bool.and_eq_true, decide_eq_true_eq, bne_iff_ne] at both
    obtain ⟨starts, long⟩ := both
    rw [eq_zero_of_head?_toDigits number starts, Nat.toDigits_zero] at long
    exact long rfl
  have found : (digits atEnd).run (Nat.toDigits 10 number) =
      .ok (Nat.toDigits 10 number, []) := by
    simp [digits, takeWhile, taken, left]
  rw [wholeDigits, Reader.run_bind, found]
  dsimp only
  rw [if_neg single]
  rfl

/-- The digits of a number are read as a numeral without sign, point and exponent. -/
theorem run_numeral_toDigits (number : Nat) (atEnd : Failure) :
    (numeral atEnd).run (Nat.toDigits 10 number) =
      .ok (⟨false, Nat.toDigits 10 number, none, none⟩, []) := by
  obtain ⟨first, others, digits⟩ :=
    List.exists_cons_of_ne_nil (Nat.toDigits_ne_nil (n := number) (b := 10))
  have first_digit : first.isDigit = true :=
    Nat.isDigit_of_mem_toDigits (n := number) (by decide) (Nat.le_refl 10) (by rw [digits]; simp)
  have noMinus : first ≠ '-' := by
    rintro rfl
    exact absurd first_digit (by decide)
  have whole := run_wholeDigits_toDigits number atEnd
  simp only [digits] at whole ⊢
  simp [numeral, noMinus, whole, fraction, exponent]

theorem run_numeral_minus (number : Nat) (atEnd : Failure) :
    (numeral atEnd).run ('-' :: Nat.toDigits 10 number) =
      .ok (⟨true, Nat.toDigits 10 number, none, none⟩, []) := by
  have whole := run_wholeDigits_toDigits number atEnd
  simp [numeral, whole, fraction, exponent]

end TextReader

/-- The digits of a number denote it where 64 bits are enough, with a sign or without, and a
zero with a sign denotes no whole number. -/
theorem whole?_toDigits (negative : Bool) (magnitude : Nat) :
    Numeral.whole? ⟨negative, Nat.toDigits 10 magnitude, none, none⟩ =
      if negative then
        if magnitude = 0 || magnitude > Nat.pow 2 63 then none else some (-(magnitude : Int))
      else
        if magnitude < UInt64.size then some (magnitude : Int) else none := by
  simp only [Numeral.whole?, Decimal.ofDigits, Nat.ofDigitChars_ten_toDigits, Option.isSome_none,
    Bool.or_self, Bool.false_eq_true, if_false]

/-- The text of a whole number of 64 bits is read as that number. -/
theorem run_number_wholeText
    {value : Int}
    (fits : Number.fitsInteger value = true) :
    TextReader.number.run (Number.wholeText value) = .ok (.whole value, []) := by
  rw [Number.fitsInteger_iff] at fits
  unfold Number.wholeText
  split
  · next negative =>
      have nonzero : value.natAbs ≠ 0 := by omega
      have small : ¬ Nat.pow 2 63 < value.natAbs := by
        change ¬ 9223372036854775808 < value.natAbs
        omega
      have back : -(value.natAbs : Int) = value := by omega
      have whole :
          Numeral.whole? ⟨true, Nat.toDigits 10 value.natAbs, none, none⟩ = some value := by
        rw [whole?_toDigits, if_pos rfl, if_neg (by simp only [nonzero, small]; decide), back]
      simp [TextReader.number, TextReader.run_numeral_minus, Numeral.value?, whole]
  · next positive =>
      have small : value.natAbs < UInt64.size := by
        change value.natAbs < 18446744073709551616
        omega
      have back : (value.natAbs : Int) = value := by omega
      have whole :
          Numeral.whole? ⟨false, Nat.toDigits 10 value.natAbs, none, none⟩ = some value := by
        rw [whole?_toDigits, if_neg (by decide), if_pos small, back]
      simp [TextReader.number, TextReader.run_numeral_toDigits, Numeral.value?, whole]

end Json

/-- The double that the text of a double is read as, if it is read as one. A double
that is not finite has no number for its text. -/
def Binary64.reread? (value : Binary64) : Option Binary64 :=
  match Json.TextReader.number.run (Json.doubleText value) with
  | .ok (.double other, []) => some other
  | _ => none

/-- The text of a double is read as the double that it is read back as. -/
theorem Binary64.run_number_of_reread?
    {value other : Binary64}
    (reread : value.reread? = some other) :
    Json.TextReader.number.run (Json.doubleText value) = .ok (.double other, []) := by
  unfold reread? at reread
  split at reread
  · next ran =>
      rw [ran, Option.some.inj reread]
  · contradiction

end ModelEquation
