import ModelEquation.Token.Rule

/-!
# Lexemes in front of a break

Where a blank, a comma or a bracket follows, a lexeme ends, and a dotted name that is
not reserved is taken as a whole. The rules for the words do not interfere, since each
of them asks for the end of the name as well. A quoted text and a run of blanks end by
themselves.
-/

namespace ModelEquation
namespace Token

/-- The marks at which every lexeme of canonical text ends. -/
def breaks : List Char :=
  [' ', ',', '(', ')', '[', ']']

/-- The text is at its end or continues with a mark at which lexemes end. -/
def Breaks (rest : List Char) : Prop :=
  ∀ next ∈ rest.head?, next ∈ breaks

/-- The text continues with a blank. -/
def Spaced (rest : List Char) : Prop :=
  ∃ others, rest = ' ' :: others

theorem breaks_nil : Breaks [] := by
  simp [Breaks]

theorem breaks_cons
    {mark : Char}
    (known : mark ∈ breaks)
    (others : List Char) :
    Breaks (mark :: others) := by
  simpa [Breaks] using known

theorem Spaced.breaks
    {rest : List Char}
    (spaced : Spaced rest) :
    Breaks rest := by
  obtain ⟨others, rfl⟩ := spaced
  exact breaks_cons (by decide) others

/-- A lexeme that goes on while a property holds ends where a character without it follows. -/
theorem takeWhile_append_of_stops
    {property : Char → Bool}
    {rest : List Char}
    (stops : ∀ next ∈ rest.head?, property next = false)
    (text : List Char) :
    (text ++ rest).takeWhile property = text.takeWhile property := by
  induction text with
  | nil =>
      cases rest with
      | nil => rfl
      | cons next others => simp [stops next rfl]
  | cons character others hypothesis =>
      cases known : property character <;> simp [known, hypothesis]

/-- The words with a rule of their own. -/
def reserved : List String :=
  ["if", "then", "else", "and", "or", "not"]

/-- Whether a text is a dotted name that is not reserved. -/
def isName (text : String) : Bool :=
  match text.toList with
  | [] => false
  | first :: others =>
      Pattern.isNameStart first && others.all Pattern.isNamePart && !reserved.contains text

/-- A name starts like one, goes on like one and is not reserved. -/
theorem isName_iff (text : String) :
    isName text = true ↔
      ∃ first others, text.toList = first :: others ∧ Pattern.isNameStart first = true ∧
        (∀ character ∈ others, Pattern.isNamePart character = true) ∧ text ∉ reserved := by
  unfold isName
  split
  · next empty => simp [empty]
  · next first others spelled => simp [spelled, and_assoc]

/-- Whether a text is a double quote, characters other than it, and a double quote. -/
def isQuoted (text : String) : Bool :=
  match text.toList with
  | '"' :: rest => rest == rest.takeWhile (· != '"') ++ ['"']
  | _ => false

namespace Pattern

/-- The rule of strings takes a quoted text. -/
theorem measure_quoted
    {body rest : List Char}
    (free : ∀ character ∈ body, (character != '"') = true) :
    quoted.measure ('"' :: (body ++ '"' :: rest)) = some (body.length + 2) := by
  have taken : (body ++ '"' :: rest).takeWhile (· != '"') = body := by
    rw [List.takeWhile_append_of_pos free]
    simp
  simp [quoted, taken]

end Pattern

namespace Rule

open Pattern (isNamePart isNameStart continuesWord)

/-! ## Choosing a rule -/

/-- The first rule that applies is chosen. -/
theorem choose?_of_passed
    {text : List Char}
    (before after : List Rule)
    {rule : Rule}
    {length : Nat}
    (split : table = before ++ rule :: after)
    (passed : ∀ earlier ∈ before, earlier.measure? text = none)
    (applies : rule.measure? text = some length) :
    choose? text = some (rule.action, length) := by
  have none_before : (before.findSome? fun rule =>
      (rule.measure? text).map fun length => (rule.action, length)) = none := by
    apply List.findSome?_eq_none_iff.mpr
    intro earlier member
    rw [passed earlier member, Option.map_none]
  rw [choose?, split, List.findSome?_append, none_before, Option.none_or, List.findSome?_cons,
    applies]
  rfl

/-- The marks that stand alone or begin a comparison. -/
def marks : List Char :=
  ['+', '-', '*', '/', '(', ')', '[', ']', ',', '>', '<', '=', '!']

section Passed

variable {first : Char} (others : List Char)

/-- The rule of numerals does not apply to other characters than digits. -/
theorem measure?_number_of_code
    (other : first.toNat < 48 ∨ 57 < first.toNat) :
    measure? ⟨.emit .number, .number⟩ (first :: others) = none := by
  have bounds : '0'.val.toNat = 48 ∧ '9'.val.toNat = 57 := by decide
  have code : first.toNat = first.val.toNat := rfl
  have noDigit : first.isDigit = false := by
    simp only [Char.isDigit, ge_iff_le, Bool.and_eq_false_iff, decide_eq_false_iff_not,
      UInt32.le_iff_toNat_le]
    omega
  simp [measure?, Pattern.number, Pattern.digitCount, noDigit]

/-- The rules of marks apply to marks only. -/
theorem measure?_single
    {kind : Kind}
    {members : List Char}
    (noMark : ∀ mark ∈ marks, first ≠ mark)
    (among : ∀ member ∈ members, member ∈ marks) :
    measure? ⟨.emit kind, .single members⟩ (first :: others) = none := by
  have missing : first ∉ members := fun member => noMark first (among first member) rfl
  simp [measure?, Pattern.single, missing]

theorem measure?_word_of_ne
    {kind : Kind}
    {letter : Char}
    {letters : List Char}
    (other : letter ≠ first) :
    measure? ⟨.word kind, .word letter letters⟩ (first :: others) = none := by
  simp [measure?, Pattern.word, other]

end Passed

/-- A numeral is taken by the rule of numerals, which comes first. -/
theorem choose?_of_number
    {text : List Char}
    {length : Nat}
    (measured : Pattern.number.measure text = some length) :
    choose? text = some (.emit .number, length) := by
  simp [choose?, table, measure?, measured]

/-! ## Names -/

/-- Where the letters of the name rule lie. -/
theorem bounds_of_isAlpha
    {character : Char}
    (letter : character.isAlpha = true) :
    65 ≤ character.toNat ∧ character.toNat ≤ 122 := by
  change (decide ('A'.val ≤ character.val ∧ character.val ≤ 'Z'.val) ||
    decide ('a'.val ≤ character.val) && decide (character.val ≤ 'z'.val)) = true at letter
  simp only [Bool.or_eq_true, Bool.and_eq_true, decide_eq_true_eq,
    UInt32.le_iff_toNat_le] at letter
  have marks : 'A'.val.toNat = 65 ∧ 'Z'.val.toNat = 90 ∧ 'a'.val.toNat = 97 ∧
      'z'.val.toNat = 122 := by decide
  change 65 ≤ character.val.toNat ∧ character.val.toNat ≤ 122
  omega

/-- Letters, digits and underscores are ASCII. -/
theorem ascii_of_alphanumeric
    {character : Char}
    (known : (character.isAlphanum || character == '_') = true) :
    character.toNat < 0x80 := by
  simp only [Char.isAlphanum, Bool.or_eq_true, beq_iff_eq] at known
  rcases known with (letter | digit) | rfl
  · have bounds := bounds_of_isAlpha letter
    omega
  · have small : character.toNat ≤ 57 := (Char.isDigit_iff_toNat.mp digit).2
    omega
  · decide

/-- A part of a name other than the dot is a word character. -/
theorem isWordCharacter_of_isNamePart
    {character : Char}
    (part : isNamePart character = true)
    (other : character ≠ '.') :
    Text.isWordCharacter character = true := by
  have known : (character.isAlphanum || character == '_') = true := by
    simpa [isNamePart, other] using part
  rw [Text.isWordCharacter_of_ascii (ascii_of_alphanumeric known), known]

theorem isNamePart_of_mem_breaks
    {mark : Char}
    (known : mark ∈ breaks) :
    isNamePart mark = false := by
  have none_part : breaks.any isNamePart = false := by decide
  simpa using List.any_eq_false.mp none_part mark known

/-- What goes on as a name after a word does not let the rule of the word apply. -/
theorem measure?_word_of_continues
    {kind : Kind}
    {first next : Char}
    {others later : List Char}
    (part : isNamePart next = true) :
    measure? ⟨.word kind, .word first others⟩ (first :: others ++ next :: later) = none := by
  by_cases dot : next = '.'
  · subst dot
    simp only [measure?, Pattern.word]
    split <;> simp [Option.filter, startsWithDot]
  · simp [measure?, Pattern.word, continuesWord, isWordCharacter_of_isNamePart part dot]

/-- The rule of a word does not apply where another name stands. -/
theorem measure?_word_of_name
    {kind : Kind}
    {first : Char}
    {others name rest : List Char}
    (letters : ∀ character ∈ first :: others, isNamePart character = true)
    (parts : ∀ character ∈ name, isNamePart character = true)
    (different : name ≠ first :: others)
    (follows : Breaks rest) :
    measure? ⟨.word kind, .word first others⟩ (name ++ rest) = none := by
  by_cases starts : first :: others <+: name ++ rest
  case neg => simp [measure?, Pattern.word, starts]
  case pos =>
    obtain ⟨left, split⟩ := starts
    rcases List.append_eq_append_iff.mp split with ⟨more, known, tail⟩ | ⟨more, known, tail⟩
    · cases more with
      | nil => exact absurd (by simpa using known) different
      | cons next later =>
          have part := parts next (by simp [known])
          rw [known, List.append_assoc]
          exact measure?_word_of_continues part
    · cases more with
      | nil => exact absurd (by simpa using known.symm) different
      | cons next later =>
          have part := letters next (by simp [known])
          have stops := isNamePart_of_mem_breaks (follows next (by simp [tail]))
          rw [part] at stops
          contradiction

theorem isNamePart_of_isNameStart
    {character : Char}
    (starts : isNameStart character = true) :
    isNamePart character = true := by
  simp only [isNameStart, Bool.or_eq_true] at starts
  rcases starts with letter | underscore
  · simp [isNamePart, Char.isAlphanum, letter]
  · simp [isNamePart, underscore]

theorem bounds_of_isNameStart
    {character : Char}
    (starts : isNameStart character = true) :
    65 ≤ character.toNat ∧ character.toNat ≤ 122 := by
  simp only [isNameStart, Bool.or_eq_true, beq_iff_eq] at starts
  rcases starts with letter | rfl
  · exact bounds_of_isAlpha letter
  · decide

/-- No rule but those of the words and of the names applies to a letter. -/
theorem choose?_of_isNameStart
    {first : Char}
    {others : List Char}
    (starts : isNameStart first = true)
    (words : ∀ kind word letter letters,
      word ∈ reserved → word.toList = letter :: letters →
        measure? ⟨.word kind, .word letter letters⟩ (first :: others) = none) :
    choose? (first :: others) =
      some (.emit .identifier, 1 + (others.takeWhile isNamePart).length) := by
  obtain ⟨low, high⟩ := bounds_of_isNameStart starts
  have noBlank : Text.isBlank first = false := by
    simp only [Text.isBlank, Bool.or_eq_false_iff, Bool.and_eq_false_iff, decide_eq_false_iff_not,
      beq_eq_false_iff_ne]
    omega
  have noMark : ∀ mark ∈ marks, first ≠ mark := by
    have none_starts : marks.any isNameStart = false := by decide
    rintro mark known rfl
    exact List.any_eq_false.mp none_starts first known starts
  have blanks : measure? ⟨.skip, .blanks⟩ (first :: others) = none := by
    simp [measure?, Pattern.blanks, noBlank]
  have comparison : measure? ⟨.emit .comparison, .comparison⟩ (first :: others) = none := by
    simp only [marks, List.mem_cons, List.not_mem_nil, or_false, forall_eq_or_imp,
      forall_eq] at noMark
    simp [measure?, Pattern.comparison, noMark]
  have name : measure? ⟨.emit .identifier, .name⟩ (first :: others) =
      some (1 + (others.takeWhile isNamePart).length) := by
    simp [measure?, Pattern.name, starts]
  refine choose?_of_passed (table.take 15) (table.drop 16) rfl ?_ name
  simp only [table, List.take_succ_cons, List.take_zero, List.forall_mem_cons,
    List.not_mem_nil, false_imp_iff, implies_true, and_true]
  exact ⟨measure?_number_of_code others (by omega), measure?_single others noMark (by simp [marks]),
    measure?_single others noMark (by simp [marks]), measure?_single others noMark (by simp [marks]),
    measure?_single others noMark (by simp [marks]), measure?_single others noMark (by simp [marks]),
    measure?_single others noMark (by simp [marks]), words .ifWord "if" _ _ (by decide) rfl,
    words .thenWord "then" _ _ (by decide) rfl, words .elseWord "else" _ _ (by decide) rfl,
    blanks, comparison, words .andWord "and" _ _ (by decide) rfl,
    words .orWord "or" _ _ (by decide) rfl, words .notWord "not" _ _ (by decide) rfl⟩

theorem isNamePart_of_mem_reserved
    {word : String}
    (known : word ∈ reserved) :
    ∀ character ∈ word.toList, isNamePart character = true := by
  have all_parts : reserved.all (fun word => word.toList.all isNamePart) = true := by decide
  exact List.all_eq_true.mp (List.all_eq_true.mp all_parts word known)

/-- Before a break a name that is not reserved is one lexeme. -/
theorem choose?_of_isName
    {text : String}
    {rest : List Char}
    (known : isName text = true)
    (follows : Breaks rest) :
    choose? (text.toList ++ rest) = some (.emit .identifier, text.toList.length) := by
  obtain ⟨first, others, spelled, starts, parts, free⟩ := (isName_iff text).mp known
  have allParts : ∀ character ∈ first :: others, isNamePart character = true :=
    List.forall_mem_cons.mpr ⟨isNamePart_of_isNameStart starts, parts⟩
  have taken : (others ++ rest).takeWhile isNamePart = others := by
    rw [List.takeWhile_append_of_pos parts]
    have ends := takeWhile_append_of_stops
      (fun next ahead => isNamePart_of_mem_breaks (follows next ahead)) []
    rw [List.nil_append] at ends
    rw [ends, List.takeWhile_nil, List.append_nil]
  rw [spelled, List.cons_append, choose?_of_isNameStart starts, taken, List.length_cons,
    Nat.add_comm]
  intro kind word letter letters member same
  rw [← List.cons_append]
  refine measure?_word_of_name ?_ allParts ?_ follows
  · rw [← same]
    exact isNamePart_of_mem_reserved member
  · rw [← same, ← spelled]
    intro equal
    exact free (String.toList_inj.mp equal ▸ member)

/-- A quoted text is one lexeme whatever follows. -/
theorem choose?_of_isQuoted
    {text : String}
    (known : isQuoted text = true)
    (rest : List Char) :
    choose? (text.toList ++ rest) = some (.emit .stringLiteral, text.toList.length) := by
  unfold isQuoted at known
  split at known
  case h_1 content spelled =>
    have free : ∀ character ∈ content.takeWhile (· != '"'), (character != '"') = true :=
      List.all_eq_true.mp List.all_takeWhile
    have split : content = content.takeWhile (· != '"') ++ ['"'] := beq_iff_eq.mp known
    generalize content.takeWhile (· != '"') = body at free split
    have whole : text.toList ++ rest = '"' :: (body ++ '"' :: rest) := by
      simp [spelled, split]
    have length : text.toList.length = body.length + 2 := by
      simp [spelled, split]
    have applies : Pattern.quoted.measure ('"' :: (body ++ '"' :: rest)) =
        some (body.length + 2) := Pattern.measure_quoted free
    rw [whole, length]
    refine choose?_of_passed (table.take 16) (table.drop 17) rfl ?_ applies
    simp only [table, List.take_succ_cons, List.take_zero, List.forall_mem_cons,
      List.not_mem_nil, false_imp_iff, implies_true, and_true]
    exact ⟨rfl, rfl, rfl, rfl, rfl, rfl, rfl, rfl, rfl, rfl, rfl, rfl, rfl, rfl, rfl, rfl⟩
  case h_2 => contradiction

/-! ## Blanks -/

/-- A run of blanks is one lexeme. -/
theorem choose?_of_isBlank
    {first : Char}
    (known : Text.isBlank first = true)
    (others : List Char) :
    choose? (first :: others) = some (.skip, 1 + (others.takeWhile Text.isBlank).length) := by
  have noNumber : first.toNat < 48 ∨ 57 < first.toNat := by
    simp only [Text.isBlank, Bool.or_eq_true, Bool.and_eq_true, decide_eq_true_eq,
      beq_iff_eq] at known
    omega
  have other {mark : Char} (visible : Text.isBlank mark = false) : mark ≠ first := by
    rintro rfl
    rw [known] at visible
    contradiction
  have noMark : ∀ mark ∈ marks, first ≠ mark := by
    have none_blank : marks.any Text.isBlank = false := by decide
    rintro mark member rfl
    exact List.any_eq_false.mp none_blank first member known
  have applies : measure? ⟨.skip, .blanks⟩ (first :: others) =
      some (1 + (others.takeWhile Text.isBlank).length) := by
    simp [measure?, Pattern.blanks, known, Nat.add_comm]
  refine choose?_of_passed (table.take 10) (table.drop 11) rfl ?_ applies
  simp only [table, List.take_succ_cons, List.take_zero, List.forall_mem_cons,
    List.not_mem_nil, false_imp_iff, implies_true, and_true]
  exact ⟨measure?_number_of_code others noNumber, measure?_single others noMark (by simp [marks]),
    measure?_single others noMark (by simp [marks]), measure?_single others noMark (by simp [marks]),
    measure?_single others noMark (by simp [marks]), measure?_single others noMark (by simp [marks]),
    measure?_single others noMark (by simp [marks]), measure?_word_of_ne others (other (by decide)),
    measure?_word_of_ne others (other (by decide)), measure?_word_of_ne others (other (by decide))⟩

end Rule
end Token
end ModelEquation
