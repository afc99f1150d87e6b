import ModelEquation.Json.Nesting
import ModelEquation.Json.Quoted
import ModelEquation.Json.Writer
import ModelEquation.Proofs.Reader.Loop

/-!
# Strings that are read back

The characters that stand for one character in a string are read as that
character, and so a quoted text is read as the text, whatever follows it. The
brackets and braces of a quoted text do not count for nesting.
-/

namespace ModelEquation
namespace Json

/-- The characters of a text that are escaped by their code alone. -/
theorem escape_of_control
    {character : Char}
    (control : character.toNat < 0x20)
    (backspace : character ≠ '\x08')
    (feed : character ≠ '\x0c')
    (newline : character ≠ '\n')
    (carriage : character ≠ '\r')
    (tabulator : character ≠ '\t') :
    escape character =
      ['\\', 'u', '0', '0', Nat.digitChar (character.toNat / 16),
        Nat.digitChar (character.toNat % 16)] := by
  have quote : character ≠ '"' := by
    rintro rfl
    exact absurd control (by decide)
  have backslash : character ≠ '\\' := by
    rintro rfl
    exact absurd control (by decide)
  unfold escape
  split <;> simp_all

namespace TextReader

/-- The four digits of the code of a control character denote it. -/
theorem hexValues?_of_control
    {code : Nat}
    (control : code < 0x20) :
    hexValues? ['0', '0', Nat.digitChar (code / 16), Nat.digitChar (code % 16)] = some code := by
  have all : ∀ code < 0x20,
      hexValues? ['0', '0', Nat.digitChar (code / 16), Nat.digitChar (code % 16)] = some code := by
    decide
  exact all code control

/-- Four hexadecimal digits are read as the number that they denote. -/
theorem run_codeUnit
    {first second third fourth : Char}
    {value : Nat}
    (denoted : hexValues? [first, second, third, fourth] = some value)
    (rest : List Char) :
    codeUnit.run (first :: second :: third :: fourth :: rest) = .ok (value, rest) := by
  have long : ¬ Text.byteLength (first :: second :: third :: fourth :: rest) < 4 := by
    have one := first.utf8Size_pos
    have two := second.utf8Size_pos
    have three := third.utf8Size_pos
    have four := fourth.utf8Size_pos
    simp only [Text.byteLength_cons]
    omega
  simp only [codeUnit, if_neg long, List.take_succ_cons, List.take_zero, denoted,
    List.drop_succ_cons, List.drop_zero]

/-- A control character is read from its code. -/
theorem run_codePoint_of_control
    {character : Char}
    (control : character.toNat < 0x20)
    (rest : List Char) :
    codePoint.run
        ('0' :: '0' :: Nat.digitChar (character.toNat / 16) ::
          Nat.digitChar (character.toNat % 16) :: rest) =
      .ok (character, rest) := by
  have unit := run_codeUnit (hexValues?_of_control control) rest
  have low : ¬ 0xDC00 ≤ character.toNat := by omega
  have high : ¬ 0xD800 ≤ character.toNat := by omega
  simp [codePoint, unit, low, high, Char.ofNat_toNat]

/-- What stands for a character in a string is read as the character. -/
theorem run_character_of_escape
    (character : Char) :
    ∃ first others,
      escape character = first :: others ∧ first ≠ '"' ∧
        ∀ rest, (TextReader.character codePoint first).run (others ++ rest) =
          .ok (character, rest) := by
  by_cases quote : character = '"'
  · subst quote
    exact ⟨'\\', ['"'], rfl, by decide, fun rest => rfl⟩
  by_cases backslash : character = '\\'
  · subst backslash
    exact ⟨'\\', ['\\'], rfl, by decide, fun rest => rfl⟩
  by_cases backspace : character = '\x08'
  · subst backspace
    exact ⟨'\\', ['b'], rfl, by decide, fun rest => rfl⟩
  by_cases feed : character = '\x0c'
  · subst feed
    exact ⟨'\\', ['f'], rfl, by decide, fun rest => rfl⟩
  by_cases newline : character = '\n'
  · subst newline
    exact ⟨'\\', ['n'], rfl, by decide, fun rest => rfl⟩
  by_cases carriage : character = '\r'
  · subst carriage
    exact ⟨'\\', ['r'], rfl, by decide, fun rest => rfl⟩
  by_cases tabulator : character = '\t'
  · subst tabulator
    exact ⟨'\\', ['t'], rfl, by decide, fun rest => rfl⟩
  by_cases control : character.toNat < 0x20
  · refine ⟨'\\', _, escape_of_control control backspace feed newline carriage tabulator,
      by decide, fun rest => ?_⟩
    exact run_codePoint_of_control control rest
  · refine ⟨character, [], ?_, quote, fun rest => ?_⟩
    · unfold escape
      split <;> simp_all
    · simp [TextReader.character, backslash, control]

/-- The characters of a string after some that have been read. -/
def quotedFrom (unicode : TextReader Char) : List Char → TextReader (List Char) :=
  Reader.extend fun first =>
    if first = '"' then none
    else some fun reversed => do
      pure ((← character unicode first) :: reversed)

theorem quoted_eq (unicode : TextReader Char) :
    quoted unicode =
      (char '"' >>= fun _ => quotedFrom unicode [] >>= fun reversed =>
        char '"' >>= fun _ => pure (String.ofList reversed.reverse)) := rfl

theorem run_char (expected : Char) (rest : List Char) :
    (char expected).run (expected :: rest) = .ok ((), rest) := by
  simp [char]

theorem run_chars (letters rest : List Char) :
    (chars letters).run (letters ++ rest) = .ok ((), rest) := by
  induction letters with
  | nil => rfl
  | cons first others hypothesis =>
      rw [List.cons_append, chars, Reader.run_bind, run_char]
      exact hypothesis

/-- Escaped text in front of a double quote is read as the text. -/
theorem run_quotedFrom (reversed text rest : List Char) :
    (quotedFrom codePoint reversed).run (text.flatMap escape ++ '"' :: rest) =
      .ok (text.reverse ++ reversed, '"' :: rest) := by
  induction text generalizing reversed with
  | nil =>
      apply Reader.run_extend_of_closed
      rfl
  | cons character others hypothesis =>
      obtain ⟨first, more, escaped, other, reads⟩ := run_character_of_escape character
      have round :
          (quotedFrom codePoint reversed).run
              (first :: (more ++ (others.flatMap escape ++ '"' :: rest))) =
            (quotedFrom codePoint (character :: reversed)).run
              (others.flatMap escape ++ '"' :: rest) := by
        apply Reader.run_extend_of_ran
        · exact if_neg other
        · rw [Reader.run_bind, reads]
          rfl
      rw [List.flatMap_cons, escaped, List.append_assoc, List.cons_append, round, hypothesis,
        List.reverse_cons, List.append_assoc]
      rfl

/-- A quoted text is read as the text. -/
theorem run_quoted (text rest : List Char) :
    (quoted codePoint).run (quote text ++ rest) = .ok (String.ofList text, rest) := by
  have loop := run_quotedFrom [] text rest
  simp [quoted_eq, quote, run_char, loop]

end TextReader

/-! ## Nesting -/

/-- A hexadecimal digit neither closes a string nor escapes anything. -/
theorem digitChar_ne_of_lt
    {digit : Nat}
    (small : digit < 16) :
    Nat.digitChar digit ≠ '"' ∧ Nat.digitChar digit ≠ '\\' := by
  have all : ∀ digit < 16, Nat.digitChar digit ≠ '"' ∧ Nat.digitChar digit ≠ '\\' := by
    decide
  exact all digit small

/-- What stands for a character in a string opens and closes nothing. -/
theorem nestingFrom_escape
    (depth : Nat)
    (character : Char)
    (rest : List Char) :
    nestingFrom .inString depth (escape character ++ rest) = nestingFrom .inString depth rest := by
  unfold escape
  split
  case h_8 quote backslash _ _ _ _ _ =>
    split
    · next control =>
        have first := digitChar_ne_of_lt (show character.toNat / 16 < 16 by omega)
        have second := digitChar_ne_of_lt (show character.toNat % 16 < 16 by omega)
        simp [nestingFrom, first, second]
    · have noQuote : character ≠ '"' := quote
      have noBackslash : character ≠ '\\' := backslash
      simp [nestingFrom, noQuote, noBackslash]
  all_goals simp [nestingFrom]

/-- A quoted text opens nothing. -/
theorem nestingFrom_quote
    (depth : Nat)
    (text rest : List Char) :
    nestingFrom .outside depth (quote text ++ rest) = nestingFrom .outside depth rest := by
  have inside : nestingFrom .inString depth (text.flatMap escape ++ '"' :: rest) =
      nestingFrom .outside depth rest := by
    induction text with
    | nil => simp [nestingFrom]
    | cons character others hypothesis =>
        rw [List.flatMap_cons, List.append_assoc, nestingFrom_escape, hypothesis]
  simpa [quote, nestingFrom] using inside

end Json
end ModelEquation
