import ModelEquation.Json.Reader

/-!
# JSON texts as trees

The grammar of JSON apart from any reader. A tree has the lexemes of words, numbers and strings
at its leaves and as the names of its members, each in a form that the grammar allows. A text
writes a tree if it has the lexemes of the tree one after the other, with blanks wherever the
grammar allows them: in front, behind and between any two lexemes.
-/

namespace ModelEquation
namespace Json

/-- Blanks that may stand between two lexemes. -/
def IsGap (text : List Char) : Prop :=
  ∀ character ∈ text, TextReader.isBlank character = true

theorem isGap_nil : IsGap [] := by
  simp [IsGap]

theorem IsGap.append
    {front back : List Char}
    (first : IsGap front)
    (second : IsGap back) :
    IsGap (front ++ back) :=
  List.forall_mem_append.mpr ⟨first, second⟩

/-! ## Lexemes -/

/-- At least one digit and nothing else. -/
structure IsDigits (text : List Char) : Prop where
  nonempty : text ≠ []
  all : ∀ digit ∈ text, digit.isDigit = true

/-- Digits without a superfluous zero in front. -/
structure IsWhole (text : List Char) : Prop extends IsDigits text where
  leading : text.head? = some '0' → text = ['0']

/-- Nothing, or a point and digits. -/
def IsFraction (text : List Char) : Prop :=
  text = [] ∨ ∃ digits, text = '.' :: digits ∧ IsDigits digits

/-- Nothing, or a mark, an optional sign and digits. -/
def IsExponent (text : List Char) : Prop :=
  text = [] ∨ ∃ mark sign digits, text = mark :: (sign ++ digits) ∧ (mark = 'e' ∨ mark = 'E') ∧
    (sign = [] ∨ sign = ['+'] ∨ sign = ['-']) ∧ IsDigits digits

/-- A number without a sign: digits, and optionally a fraction and an exponent. -/
def IsMagnitude (text : List Char) : Prop :=
  ∃ whole fraction exponent, text = whole ++ (fraction ++ exponent) ∧
    IsWhole whole ∧ IsFraction fraction ∧ IsExponent exponent

/-- A number, with or without a minus. -/
def IsNumeral (text : List Char) : Prop :=
  ∃ sign magnitude, text = sign ++ magnitude ∧ (sign = [] ∨ sign = ['-']) ∧ IsMagnitude magnitude

/-- A number starts with a minus or a digit. -/
theorem IsNumeral.starts
    {text : List Char}
    (formed : IsNumeral text) :
    ∃ first others, text = first :: others ∧ (first = '-' ∨ first.isDigit = true) := by
  obtain ⟨sign, magnitude, rfl, rfl | rfl, whole, _, _, rfl, formedWhole, _⟩ := formed
  · obtain ⟨first, others, rfl⟩ := List.exists_cons_of_ne_nil formedWhole.nonempty
    exact ⟨first, _, rfl, .inr (formedWhole.all first (List.mem_cons_self ..))⟩
  · exact ⟨'-', _, rfl, .inl rfl⟩

/-- What stands between the quotes of a string: characters beyond the control characters,
escaped marks and code units of four hexadecimal digits. -/
inductive IsContent : List Char → Prop
  | nil : IsContent []
  | plain {character : Char} {rest : List Char}
      (noQuote : character ≠ '"')
      (noBackslash : character ≠ '\\')
      (printable : 0x20 ≤ character.toNat)
      (later : IsContent rest) :
      IsContent (character :: rest)
  | mark {character : Char} {rest : List Char}
      (known : character ∈ ['"', '\\', '/', 'b', 'f', 'n', 'r', 't'])
      (later : IsContent rest) :
      IsContent ('\\' :: character :: rest)
  | unit {first second third fourth : Char} {value : Nat} {rest : List Char}
      (denoted : TextReader.hexValues? [first, second, third, fourth] = some value)
      (later : IsContent rest) :
      IsContent ('\\' :: 'u' :: first :: second :: third :: fourth :: rest)

/-- Content between double quotes. -/
def IsString (text : List Char) : Prop :=
  ∃ content, text = '"' :: (content ++ ['"']) ∧ IsContent content

/-- A word, a number or a string. -/
inductive IsScalar (text : List Char) : Prop
  | word (known : text = ['n', 'u', 'l', 'l'] ∨ text = ['t', 'r', 'u', 'e'] ∨
      text = ['f', 'a', 'l', 's', 'e'])
  | numeral (formed : IsNumeral text)
  | string (formed : IsString text)

/-- A scalar starts with a character that neither is blank nor opens or closes anything. -/
theorem IsScalar.starts
    {text : List Char}
    (formed : IsScalar text) :
    ∃ first others, text = first :: others ∧ TextReader.isBlank first = false ∧
      first ∉ ['[', ']', '{', '}'] := by
  cases formed with
  | word known => rcases known with rfl | rfl | rfl <;> exact ⟨_, _, rfl, by decide⟩
  | numeral formed =>
      obtain ⟨first, others, rfl, known⟩ := formed.starts
      refine ⟨first, others, rfl, ?_, ?_⟩
      · refine Bool.eq_false_iff.mpr fun blank => ?_
        simp only [TextReader.isBlank, Bool.or_eq_true, beq_iff_eq] at blank
        rcases blank with ((rfl | rfl) | rfl) | rfl <;> exact absurd known (by decide)
      · simp only [List.mem_cons, List.not_mem_nil, or_false]
        rintro (rfl | rfl | rfl | rfl) <;> exact absurd known (by decide)
  | string formed =>
      obtain ⟨content, rfl, _⟩ := formed
      exact ⟨_, _, rfl, by decide⟩

/-- The lexeme of a value that is neither an array nor an object. -/
structure Scalar where
  text : List Char
  formed : IsScalar text

/-- The lexeme of the name of a member. -/
structure Name where
  text : List Char
  formed : IsString text

/-! ## Trees -/

/-- What a JSON text consists of, apart from its blanks. -/
inductive Tree
  | scalar (lexeme : Scalar)
  | array (items : List Tree)
  | object (members : List (Name × Tree))

namespace Tree

/-- Lexemes of parts with commas between the parts. -/
def separated : List (List (List Char)) → List (List Char)
  | [] => []
  | first :: others => first ++ others.flatMap fun part => [','] :: part

mutual

/-- The lexemes of a tree in their order. -/
def lexemes : Tree → List (List Char)
  | .scalar lexeme => [lexeme.text]
  | .array items => ['['] :: (separated (itemLexemes items) ++ [[']']])
  | .object members => ['{'] :: (separated (memberLexemes members) ++ [['}']])

/-- The lexemes of each item of an array. -/
def itemLexemes : List Tree → List (List (List Char))
  | [] => []
  | item :: rest => item.lexemes :: itemLexemes rest

/-- The lexemes of each member of an object. -/
def memberLexemes : List (Name × Tree) → List (List (List Char))
  | [] => []
  | (name, item) :: rest => (name.text :: [':'] :: item.lexemes) :: memberLexemes rest

end

theorem lexemes_ne_nil (tree : Tree) : tree.lexemes ≠ [] := by
  cases tree <;> simp [lexemes]

/-- The lexemes of items are those of each of them. -/
theorem itemLexemes_eq_map (items : List Tree) : itemLexemes items = items.map lexemes := by
  induction items with
  | nil => rfl
  | cons item rest hypothesis => rw [itemLexemes, hypothesis, List.map_cons]

/-- The lexemes of a member: its name, a colon and its value. -/
def memberLexeme (member : Name × Tree) : List (List Char) :=
  member.1.text :: [':'] :: member.2.lexemes

/-- The lexemes of members are those of each of them. -/
theorem memberLexemes_eq_map (members : List (Name × Tree)) :
    memberLexemes members = members.map memberLexeme := by
  induction members with
  | nil => rfl
  | cons member rest hypothesis =>
      rw [memberLexemes, hypothesis, List.map_cons]
      rfl

mutual

/-- How many arrays and objects stand one in another. -/
def depth : Tree → Nat
  | .scalar _ => 0
  | .array items => itemDepth items + 1
  | .object members => memberDepth members + 1

/-- The greatest depth of the items of an array. -/
def itemDepth : List Tree → Nat
  | [] => 0
  | item :: rest => max item.depth (itemDepth rest)

/-- The greatest depth of the members of an object. -/
def memberDepth : List (Name × Tree) → Nat
  | [] => 0
  | (_, item) :: rest => max item.depth (memberDepth rest)

end

/-- The tree of a member is no deeper than all members. -/
theorem depth_le_of_mem_members
    {member : Name × Tree}
    {members : List (Name × Tree)}
    (present : member ∈ members) :
    member.2.depth ≤ memberDepth members := by
  induction members with
  | nil => cases present
  | cons first others hypothesis =>
      rw [memberDepth]
      rcases List.mem_cons.mp present with rfl | later
      · exact Nat.le_max_left _ _
      · exact Nat.le_trans (hypothesis later) (Nat.le_max_right _ _)

end Tree

/-! ## Texts -/

/-- The text has the lexemes one after the other, with blanks after each of them. -/
inductive Spaced : List (List Char) → List Char → Prop
  | nil : Spaced [] []
  | cons {lexeme gap rest : List Char} {lexemes : List (List Char)}
      (blank : IsGap gap)
      (later : Spaced lexemes rest) :
      Spaced (lexeme :: lexemes) (lexeme ++ (gap ++ rest))

/-- The text consists of the lexemes of the tree, with blanks in front, behind and between. -/
def Tree.Writes (tree : Tree) (text : List Char) : Prop :=
  ∃ gap body, text = gap ++ body ∧ IsGap gap ∧ Spaced tree.lexemes body

namespace Spaced

variable {front back : List (List Char)} {first second text : List Char}

theorem single
    (lexeme : List Char)
    {gap : List Char}
    (blank : IsGap gap) :
    Spaced [lexeme] (lexeme ++ gap) := by
  have spaced : Spaced [lexeme] (lexeme ++ (gap ++ [])) := .cons blank .nil
  rwa [List.append_nil] at spaced

theorem alone (lexeme : List Char) : Spaced [lexeme] lexeme := by
  have spaced := single lexeme isGap_nil
  rwa [List.append_nil] at spaced

theorem append
    (fronts : Spaced front first)
    (backs : Spaced back second) :
    Spaced (front ++ back) (first ++ second) := by
  induction fronts with
  | nil => exact backs
  | cons blank later hypothesis =>
      rw [List.append_assoc, List.append_assoc]
      exact .cons blank hypothesis

/-- A text of lexemes splits where the lexemes do. -/
theorem split
    (spaced : Spaced (front ++ back) text) :
    ∃ first second, text = first ++ second ∧ Spaced front first ∧ Spaced back second := by
  induction front generalizing text with
  | nil => exact ⟨[], text, rfl, .nil, spaced⟩
  | cons lexeme front hypothesis =>
      cases spaced with
      | @cons _ gap rest _ blank later =>
          obtain ⟨first, second, rfl, fronts, backs⟩ := hypothesis later
          exact ⟨lexeme ++ (gap ++ first), second, by simp, .cons blank fronts, backs⟩

end Spaced

end Json
end ModelEquation
