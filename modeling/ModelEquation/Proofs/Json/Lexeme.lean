import ModelEquation.Proofs.Json.Numeral
import ModelEquation.Proofs.Json.Quoted
import ModelEquation.Proofs.Json.Tree

/-!
# Reading lexemes

What the readers make of a lexeme, a value or a failure, is settled by the lexeme alone: it is
the same whatever blanks follow and whatever comes behind them. A string may be refused for a
surrogate without its partner, and a number because it is out of range; but where a lexeme ends
is never in question.
-/

namespace ModelEquation
namespace Json

/-- What follows does not start with a blank. -/
def Unblank (rest : List Char) : Prop :=
  ∀ next ∈ rest.head?, TextReader.isBlank next = false

theorem Follows.unblank
    {rest : List Char}
    (follows : Follows rest) :
    Unblank rest := by
  intro next ahead
  rcases follows next ahead with rfl | rfl | rfl <;> decide

namespace TextReader

/-- On the text the reader has one outcome, whatever follows that fits, and takes all of it. -/
def Settles
    {α : Type}
    (fits : List Char → Prop)
    (reader : TextReader α)
    (text : List Char)
    (outcome : Except Failure α) : Prop :=
  ∀ rest, fits rest → reader.run (text ++ rest) = outcome.map (·, rest)

section Rules

variable {α β : Type} {fits : List Char → Prop} {text : List Char}

/-- A text that settles a reader settles what it returns at the end of the text. -/
theorem Settles.outcome_eq
    {reader : TextReader α}
    {outcome : Except Failure α}
    (settles : Settles fits reader text outcome)
    (ends : fits []) :
    outcome = (reader.run text).map Prod.fst := by
  have ran := settles [] ends
  rw [List.append_nil] at ran
  rw [ran]
  cases outcome <;> rfl

/-- A sequence of readers is settled by two texts where the second one fits behind the first. -/
theorem Settles.bind
    {inner : List Char → Prop}
    {first : TextReader α}
    {next : α → TextReader β}
    {more : List Char}
    {outcome : Except Failure α}
    {outcomes : α → Except Failure β}
    (firsts : Settles inner first text outcome)
    (between : ∀ rest, fits rest → inner (more ++ rest))
    (nexts : ∀ value, outcome = .ok value → Settles fits (next value) more (outcomes value)) :
    Settles fits (first >>= next) (text ++ more) (outcome >>= outcomes) := by
  intro rest follows
  rw [List.append_assoc, Reader.run_bind, firsts _ (between rest follows)]
  cases outcome with
  | error failure => rfl
  | ok value => exact nexts value rfl rest follows

end Rules

/-! ## Blanks -/

/-- Blanks are taken as far as they go. -/
theorem settles_blanks
    {gap : List Char}
    (blank : IsGap gap) :
    Settles Unblank blanks gap (.ok ()) := by
  intro rest follows
  have taken : (gap ++ rest).dropWhile isBlank = rest := by
    rw [List.dropWhile_append_of_pos blank]
    cases rest with
    | nil => rfl
    | cons next others => simp [follows next rfl]
  simp [blanks, takeWhile, taken, Except.map]

/-- A mark is taken together with the blanks behind it. -/
theorem settles_mark
    (expected : Char)
    {gap : List Char}
    (blank : IsGap gap) :
    Settles Unblank (mark expected) (expected :: gap) (.ok ()) := by
  intro rest follows
  rw [List.cons_append, mark, Reader.run_bind, run_char]
  exact settles_blanks blank rest follows

/-! ## Strings -/

/-- What the reader makes of the start of a string is settled by the content of the string, and
content is left. -/
def SettlesWithin (reader : TextReader Char) (content : List Char) : Prop :=
  ∃ (left : List Char) (outcome : Except Failure Char),
    IsContent left ∧ left.length ≤ content.length ∧
      ∀ more, reader.run (content ++ '"' :: more) = outcome.map (·, left ++ '"' :: more)

/-- What the reader makes of a code unit is settled by the content of the string. -/
def ReadsUnits (unicode : TextReader Char) : Prop :=
  ∀ {first second third fourth : Char} {value : Nat} {content : List Char},
    hexValues? [first, second, third, fourth] = some value → IsContent content →
      SettlesWithin unicode (first :: second :: third :: fourth :: content)

theorem readsUnits_anyCodeUnit : ReadsUnits anyCodeUnit := by
  intro first second third fourth value content denoted formed
  refine ⟨content, .ok '\x00', formed, Nat.le_add_right _ 4, fun more => ?_⟩
  rw [anyCodeUnit, Reader.run_bind, List.cons_append, List.cons_append, List.cons_append,
    List.cons_append, run_codeUnit denoted]
  rfl

/-- Reads the partner of a high surrogate, which is escaped on its own. -/
def partner (unit : Nat) : TextReader Char := do
  chars ['\\', 'u']
  let partner ← codeUnit
  if 0xDC00 ≤ partner && partner ≤ 0xDFFF then
    pure (Char.ofNat (0x10000 + (unit - 0xD800) * 0x400 + (partner - 0xDC00)))
  else
    refuse .malformed

/-- Only an escaped code unit can be the partner of a surrogate. -/
theorem settlesWithin_partner
    (value : Nat)
    {content : List Char}
    (formed : IsContent content) :
    SettlesWithin (partner value) content := by
  have refused (alone : ∀ more, (partner value).run (content ++ '"' :: more) = .error .malformed) :
      SettlesWithin (partner value) content :=
    ⟨content, .error .malformed, formed, Nat.le_refl _, alone⟩
  cases formed with
  | nil => exact refused fun more => by simp [partner, chars, char, stop]
  | plain noQuote noBackslash printable later =>
      exact refused fun more => by simp [partner, chars, char, stop, noBackslash]
  | @mark character rest known later =>
      have other : character ≠ 'u' := by
        rintro rfl
        exact absurd known (by decide)
      exact refused fun more => by simp [partner, chars, char, stop, other]
  | @unit _ _ _ _ unit rest denoted later =>
      have taken (more : List Char) := run_codeUnit denoted (rest ++ '"' :: more)
      by_cases low : 0xDC00 ≤ unit ∧ unit ≤ 0xDFFF
      · refine ⟨rest, .ok (Char.ofNat (0x10000 + (value - 0xD800) * 0x400 + (unit - 0xDC00))),
          later, Nat.le_add_right _ 6, fun more => ?_⟩
        simp [partner, chars, run_char, taken, low, Except.map]
      · refine ⟨rest, .error .malformed, later, Nat.le_add_right _ 6, fun more => ?_⟩
        simp [partner, chars, run_char, taken, low, refuse, Except.map]

/-- A code unit that is no surrogate is a character, a high surrogate wants its partner, and a
low one is refused. -/
theorem readsUnits_codePoint : ReadsUnits codePoint := by
  intro first second third fourth value content denoted formed
  have unit (more : List Char) := run_codeUnit denoted (content ++ '"' :: more)
  by_cases low : 0xDC00 ≤ value ∧ value ≤ 0xDFFF
  · refine ⟨content, .error .malformed, formed, Nat.le_add_right _ 4, fun more => ?_⟩
    simp [codePoint, unit, low, refuse, Except.map]
  by_cases high : 0xD800 ≤ value ∧ value ≤ 0xDBFF
  · obtain ⟨left, outcome, formedLeft, shorter, reads⟩ := settlesWithin_partner value formed
    refine ⟨left, outcome, formedLeft, Nat.le_trans shorter (Nat.le_add_right _ 4),
      fun more => ?_⟩
    rw [← reads]
    simp [codePoint, unit, low, high, partner]
  · refine ⟨content, .ok (Char.ofNat value), formed, Nat.le_add_right _ 4, fun more => ?_⟩
    simp [codePoint, unit, low, high, Except.map]

/-- One character of a string, or what stands for it. -/
theorem settlesWithin_character
    {unicode : TextReader Char}
    (units : ReadsUnits unicode)
    {first : Char}
    {others : List Char}
    (formed : IsContent (first :: others)) :
    first ≠ '"' ∧ SettlesWithin (character unicode first) others := by
  cases formed with
  | plain noQuote noBackslash printable later =>
      have visible : ¬ first.toNat < 0x20 := Nat.not_lt.mpr printable
      refine ⟨noQuote, others, .ok first, later, Nat.le_refl _, fun more => ?_⟩
      simp [character, noBackslash, visible, Except.map]
  | @mark mark rest known later =>
      have escapes : ∃ meant, ∀ more, (escaped unicode).run (mark :: more) = .ok (meant, more) := by
        simp only [List.mem_cons, List.not_mem_nil, or_false] at known
        rcases known with rfl | rfl | rfl | rfl | rfl | rfl | rfl | rfl <;>
          exact ⟨_, fun _ => rfl⟩
      obtain ⟨meant, reads⟩ := escapes
      exact ⟨by decide, rest, .ok meant, later, Nat.le_succ _, fun more => reads _⟩
  | unit denoted later =>
      obtain ⟨left, outcome, formedLeft, shorter, reads⟩ := units denoted later
      refine ⟨by decide, left, outcome, formedLeft, Nat.le_succ_of_le shorter, fun more => ?_⟩
      rw [← reads]
      rfl

/-- A character that does not end the string is read, and then the others. -/
theorem run_quotedFrom_cons
    (unicode : TextReader Char)
    {first : Char}
    (noQuote : first ≠ '"')
    (reversed others : List Char) :
    (quotedFrom unicode reversed).run (first :: others) =
      (character unicode first >>= fun meant => quotedFrom unicode (meant :: reversed)).run
        others := by
  have unrolled : (quotedFrom unicode reversed).run (first :: others) =
      ((character unicode first >>= fun meant => pure (meant :: reversed)) >>=
        quotedFrom unicode).run others := by
    apply Reader.run_extend_eq_bind
    exact if_neg noQuote
  rw [unrolled, Reader.run_bind, Reader.run_bind, Reader.run_bind]
  cases (character unicode first).run others <;> rfl

/-- What is read of a string, from some of its characters on, is settled by the others. A
character may take more than one step of the content, so the induction is on its length. -/
theorem exists_settles_quotedFrom
    {unicode : TextReader Char}
    (units : ReadsUnits unicode)
    {content : List Char}
    (formed : IsContent content)
    (reversed : List Char) :
    ∃ outcome : Except Failure (List Char), ∀ more,
      (quotedFrom unicode reversed).run (content ++ '"' :: more) =
        outcome.map (·, '"' :: more) := by
  induction length : content.length using Nat.strongRecOn generalizing content reversed with
  | ind size hypothesis =>
      cases content with
      | nil =>
          refine ⟨.ok reversed, fun more => ?_⟩
          apply Reader.run_extend_of_closed
          rfl
      | cons first others =>
          obtain ⟨noQuote, left, outcome, formedLeft, shorter, reads⟩ :=
            settlesWithin_character units formed
          cases outcome with
          | error failure =>
              refine ⟨.error failure, fun more => ?_⟩
              rw [List.cons_append, run_quotedFrom_cons unicode noQuote, Reader.run_bind, reads]
              rfl
          | ok meant =>
              obtain ⟨result, later⟩ := hypothesis left.length
                (length ▸ Nat.lt_succ_of_le shorter) formedLeft (meant :: reversed) rfl
              refine ⟨result, fun more => ?_⟩
              rw [List.cons_append, run_quotedFrom_cons unicode noQuote, Reader.run_bind, reads,
                ← later]
              rfl

/-- A string is settled by its lexeme. -/
theorem exists_settles_quoted
    {unicode : TextReader Char}
    (units : ReadsUnits unicode)
    {text : List Char}
    (formed : IsString text) :
    ∃ outcome, Settles (fun _ => True) (quoted unicode) text outcome := by
  obtain ⟨content, rfl, inside⟩ := formed
  obtain ⟨outcome, reads⟩ := exists_settles_quotedFrom units inside []
  refine ⟨outcome.map fun reversed => String.ofList reversed.reverse, fun rest _ => ?_⟩
  rw [quoted_eq, List.cons_append, List.append_assoc, Reader.run_bind, run_char]
  simp only [List.singleton_append, Reader.run_bind, reads]
  cases outcome with
  | error failure => rfl
  | ok reversed => simp [run_char, Except.map]

/-! ## Numbers -/

/-- What follows does not go on with a number. -/
def Unnumeric (rest : List Char) : Prop :=
  ∀ next ∈ rest.head?, isNumeric next = false

theorem unnumeric_of_gap
    {gap rest : List Char}
    (blank : IsGap gap)
    (follows : Follows rest) :
    Unnumeric (gap ++ rest) := by
  intro next ahead
  cases gap with
  | nil => rcases follows next ahead with rfl | rfl | rfl <;> decide
  | cons first others =>
      have same : first = next := Option.some.inj ahead
      subst same
      have known := blank first (List.mem_cons_self ..)
      simp only [isBlank, Bool.or_eq_true, beq_iff_eq] at known
      rcases known with ((rfl | rfl) | rfl) | rfl <;> decide

/-- Characters of a kind end where another one follows. -/
theorem settles_takeWhile
    {property : Char → Bool}
    {text : List Char}
    (all : ∀ character ∈ text, property character = true) :
    Settles (fun rest => ∀ next ∈ rest.head?, property next = false) (takeWhile property) text
      (.ok text) := by
  intro rest stops
  have none : rest.takeWhile property = [] ∧ rest.dropWhile property = rest := by
    cases rest with
    | nil => exact ⟨rfl, rfl⟩
    | cons next others => simp [stops next rfl]
  simp only [takeWhile, List.takeWhile_append_of_pos all, List.dropWhile_append_of_pos all, none,
    List.append_nil, Except.map]

section Numerals

variable {text : List Char} (atEnd : Failure)

/-- Digits are taken as far as they go. -/
theorem settles_digits
    (formed : IsDigits text) :
    Settles (fun rest => ∀ next ∈ rest.head?, next.isDigit = false) (digits atEnd) text
      (.ok text) := by
  intro rest stops
  rw [digits, Reader.run_bind, settles_takeWhile formed.all rest stops]
  simp [Except.map, formed.nonempty]

theorem settles_wholeDigits
    (formed : IsWhole text) :
    Settles (fun rest => ∀ next ∈ rest.head?, next.isDigit = false) (wholeDigits atEnd) text
      (.ok text) := by
  intro rest stops
  have allowed : ¬ (text.head? = some '0' && text.length != 1) = true := by
    intro both
    simp only [Bool.and_eq_true, decide_eq_true_eq, bne_iff_ne] at both
    rw [formed.leading both.1] at both
    exact both.2 rfl
  rw [wholeDigits, Reader.run_bind, settles_digits atEnd formed.toIsDigits rest stops]
  simp only [Except.map, if_neg allowed]
  rfl

/-- A fraction ends where neither a digit nor a point follows. -/
theorem exists_settles_fraction
    (formed : IsFraction text) :
    ∃ found, Settles (fun rest => ∀ next ∈ rest.head?, next.isDigit = false ∧ next ≠ '.')
      (fraction atEnd) text (.ok found) := by
  rcases formed with rfl | ⟨places, rfl, formed⟩
  · refine ⟨none, fun rest stops => ?_⟩
    have noPoint : rest.head? ≠ some '.' := fun ahead => (stops '.' ahead).2 rfl
    simp [fraction, noPoint, Except.map]
  · refine ⟨some places, fun rest stops => ?_⟩
    have read := settles_digits atEnd formed rest fun next ahead => (stops next ahead).1
    simp [fraction, read, Except.map]

/-- An exponent ends in front of anything but a character of numbers. -/
theorem exists_settles_exponent
    (formed : IsExponent text) :
    ∃ found, Settles Unnumeric (exponent atEnd) text (.ok found) := by
  rcases formed with rfl | ⟨mark, signs, power, rfl, marked, signed, formed⟩
  · refine ⟨none, fun rest stops => ?_⟩
    have noMark : rest.head? ≠ some 'e' ∧ rest.head? ≠ some 'E' :=
      ⟨fun ahead => absurd (stops 'e' ahead) (by decide),
        fun ahead => absurd (stops 'E' ahead) (by decide)⟩
    simp [exponent, noMark, Except.map]
  · have taken : ∃ down, ∀ rest,
        sign.run (signs ++ (power ++ rest)) = .ok (down, power ++ rest) := by
      rcases signed with rfl | rfl | rfl
      · obtain ⟨first, others, rfl⟩ := List.exists_cons_of_ne_nil formed.nonempty
        have digit := formed.all first (List.mem_cons_self ..)
        have noSign : first ≠ '+' ∧ first ≠ '-' := by
          constructor <;> rintro rfl <;> exact absurd digit (by decide)
        refine ⟨false, fun rest => ?_⟩
        simp only [sign, Reader.run_bind, Reader.run_peek, List.nil_append, List.cons_append,
          List.head?_cons]
        split <;> simp_all
      · exact ⟨false, fun rest => rfl⟩
      · exact ⟨true, fun rest => rfl⟩
    obtain ⟨down, signed⟩ := taken
    refine ⟨some (down, power), fun rest stops => ?_⟩
    have noDigit : ∀ next ∈ rest.head?, next.isDigit = false := by
      intro next ahead
      have other := stops next ahead
      simp only [isNumeric, Bool.or_eq_false_iff] at other
      exact other.1.1.1.1.1
    have read := settles_digits atEnd formed rest noDigit
    rcases marked with rfl | rfl <;> simp [exponent, signed, read, Except.map]

/-- The parts of a number are settled by its lexeme. -/
theorem exists_settles_numeral
    (formed : IsNumeral text) :
    ∃ parts, Settles Unnumeric (numeral atEnd) text (.ok parts) := by
  obtain ⟨signs, _, rfl, signed, whole, places, power, rfl, formedWhole, fractional,
    exponential⟩ := formed
  obtain ⟨found, readFraction⟩ := exists_settles_fraction atEnd fractional
  obtain ⟨foundPower, readExponent⟩ := exists_settles_exponent atEnd exponential
  have startsPower (rest : List Char) (stops : Unnumeric rest) :
      ∀ next ∈ (power ++ rest).head?, next.isDigit = false ∧ next ≠ '.' := by
    rcases exponential with rfl | ⟨mark, _, _, rfl, marked, _⟩
    · intro next ahead
      have other := stops next ahead
      simp only [isNumeric, Bool.or_eq_false_iff, beq_eq_false_iff_ne] at other
      exact ⟨other.1.1.1.1.1, other.1.1.2⟩
    · rcases marked with rfl | rfl <;> simp
  have startsPlaces (rest : List Char) (stops : Unnumeric rest) :
      ∀ next ∈ (places ++ (power ++ rest)).head?, next.isDigit = false := by
    rcases fractional with rfl | ⟨_, rfl, _⟩
    · exact fun next ahead => (startsPower rest stops next ahead).1
    · simp
  have unsigned (negative : Bool) : Settles Unnumeric
      (wholeDigits atEnd >>= fun whole => fraction atEnd >>= fun places =>
        exponent atEnd >>= fun power => pure (⟨negative, whole, places, power⟩ : Numeral))
      (whole ++ (places ++ power)) (.ok ⟨negative, whole, found, foundPower⟩) := by
    intro rest stops
    rw [List.append_assoc, List.append_assoc, Reader.run_bind,
      settles_wholeDigits atEnd formedWhole _ (startsPlaces rest stops)]
    simp only [Except.map, Reader.run_bind, readFraction _ (startsPower rest stops),
      readExponent rest stops, Reader.run_pure]
  rcases signed with rfl | rfl
  · obtain ⟨first, others, rfl⟩ := List.exists_cons_of_ne_nil formedWhole.nonempty
    have noMinus : first ≠ '-' := by
      rintro rfl
      exact absurd (formedWhole.all '-' (List.mem_cons_self ..)) (by decide)
    refine ⟨⟨false, first :: others, found, foundPower⟩, fun rest stops => ?_⟩
    rw [← unsigned false rest stops]
    simp [numeral, noMinus]
  · refine ⟨⟨true, whole, found, foundPower⟩, fun rest stops => ?_⟩
    rw [← unsigned true rest stops]
    simp [numeral]

end Numerals

/-! ## Scalars -/

/-- The readers of numbers and code units are settled by lexemes. -/
structure Regular (lexis : Lexis) : Prop where
  number : ∀ {text}, IsNumeral text → ∃ outcome, Settles Unnumeric lexis.number text outcome
  unicode : ReadsUnits lexis.unicode

/-- In strict reading numbers and code units are settled by lexemes. -/
theorem regular_strict : Regular .strict where
  number := by
    intro text formed
    obtain ⟨parts, reads⟩ := exists_settles_numeral .truncated formed
    refine ⟨parts.value?.elim (.error .malformed) .ok, fun rest stops => ?_⟩
    simp only [Lexis.strict, number, Reader.run_bind, reads rest stops, Except.map]
    cases parts.value? <;> rfl
  unicode := readsUnits_codePoint

/-- In lenient reading numbers and code units are settled by lexemes. -/
theorem regular_lenient : Regular .lenient where
  number := by
    intro text formed
    obtain ⟨parts, reads⟩ := exists_settles_numeral .malformed formed
    refine ⟨.ok .null, fun rest stops => ?_⟩
    rw [Lexis.lenient, anyNumber, Reader.run_bind, reads rest stops]
    rfl
  unicode := readsUnits_anyCodeUnit

section Scalars

variable {lexis : Lexis} (regular : Regular lexis)
include regular

/-- A string and the blanks behind it. -/
theorem exists_settles_string
    {text : List Char}
    (formed : IsString text) :
    ∃ outcome, ∀ gap, IsGap gap → Settles Unblank (string lexis) (text ++ gap) outcome := by
  obtain ⟨outcome, reads⟩ := exists_settles_quoted regular.unicode formed
  refine ⟨outcome, fun gap blank rest stops => ?_⟩
  rw [List.append_assoc, string, Reader.run_bind, reads _ trivial]
  cases outcome with
  | error failure => rfl
  | ok text =>
      simp only [Except.map, Reader.run_bind, settles_blanks blank rest stops]
      rfl

omit regular in
theorem settles_word
    (letters : List Char)
    (result : Value)
    {gap : List Char}
    (blank : IsGap gap) :
    Settles Unblank (word letters result) (letters ++ gap) (.ok result) := by
  intro rest stops
  rw [List.append_assoc, word, Reader.run_bind, run_chars]
  simp only [Reader.run_bind, settles_blanks blank rest stops]
  rfl

/-- A scalar and the blanks behind it. -/
theorem exists_settles_scalar
    {text : List Char}
    (formed : IsScalar text) :
    ∃ outcome, ∀ gap, IsGap gap → Settles Follows (scalar lexis) (text ++ gap) outcome := by
  cases formed with
  | word known =>
      rcases known with rfl | rfl | rfl
      · exact ⟨.ok .null, fun gap blank rest follows =>
          settles_word ['n', 'u', 'l', 'l'] .null blank rest follows.unblank⟩
      · exact ⟨.ok (.boolean true), fun gap blank rest follows =>
          settles_word ['t', 'r', 'u', 'e'] (.boolean true) blank rest follows.unblank⟩
      · exact ⟨.ok (.boolean false), fun gap blank rest follows =>
          settles_word ['f', 'a', 'l', 's', 'e'] (.boolean false) blank rest follows.unblank⟩
  | numeral formed =>
      obtain ⟨outcome, reads⟩ := regular.number formed
      obtain ⟨first, others, rfl, starts⟩ := formed.starts
      refine ⟨outcome, fun gap blank rest follows => ?_⟩
      rw [List.append_assoc, List.cons_append, run_scalar_of_starts starts, ← List.cons_append,
        Reader.run_bind, reads _ (unnumeric_of_gap blank follows)]
      cases outcome with
      | error failure => rfl
      | ok value =>
          simp only [Except.map, Reader.run_bind, settles_blanks blank rest follows.unblank]
          rfl
  | string formed =>
      obtain ⟨outcome, reads⟩ := exists_settles_string regular formed
      obtain ⟨content, rfl, _⟩ := formed
      refine ⟨outcome.map .string, fun gap blank rest follows => ?_⟩
      have read := reads gap blank rest follows.unblank
      rw [List.cons_append, List.cons_append] at read ⊢
      rw [scalar, Reader.run_bind, Reader.run_peek, List.head?_cons]
      simp only [Reader.run_bind, read]
      cases outcome <;> rfl

end Scalars

end TextReader
end Json
end ModelEquation
