import ModelEquation.Text.Width

/-!
# Byte positions

A byte position lies in a text where a character starts or the text ends; a position inside
a character splits nothing. What stands between two positions and which character stands at
one are read from such splits, and are the same in a text that goes on at both ends.
-/

namespace ModelEquation
namespace Text

/-- The texts before and after a byte position, if it does not lie inside a character. -/
def splitAt? : List Char → Nat → Option (List Char × List Char)
  | text, 0 => some ([], text)
  | [], _ + 1 => none
  | character :: others, before + 1 =>
      if character.utf8Size ≤ before + 1 then
        (splitAt? others (before + 1 - character.utf8Size)).map fun (front, back) =>
          (character :: front, back)
      else
        none

/-- The text from one byte position to another. -/
def slice? (text : List Char) (start finish : Nat) : Option (List Char) := do
  let (_, rest) ← splitAt? text start
  let (part, _) ← splitAt? rest (finish - start)
  if start ≤ finish then some part else none

/-- The character that starts at a byte position. -/
def characterAt? (text : List Char) (position : Nat) : Option Char := do
  let (_, rest) ← splitAt? text position
  rest.head?

section Splits

variable {text front back part : List Char} {character : Char} {position start finish : Nat}

/-- A text is split at the length of its front into front and back. -/
theorem splitAt?_append (front back : List Char) :
    splitAt? (front ++ back) (byteLength front) = some (front, back) := by
  induction front with
  | nil => cases back <;> rfl
  | cons character others hypothesis =>
      obtain ⟨width, size⟩ := Nat.exists_eq_add_of_lt character.utf8Size_pos
      have place : byteLength (character :: others) = width + byteLength others + 1 := by
        rw [byteLength_cons]
        omega
      have left : width + byteLength others + 1 - character.utf8Size = byteLength others := by
        omega
      rw [place, List.cons_append, splitAt?, if_pos (by omega), left, hypothesis]
      rfl

/-- A split at a byte position is one into texts of which the first has as many bytes. -/
theorem splitAt?_eq_some_iff :
    splitAt? text position = some (front, back) ↔
      text = front ++ back ∧ byteLength front = position := by
  constructor
  · intro found
    fun_induction splitAt? text position generalizing front back with
    | case1 text =>
        cases found
        exact ⟨rfl, rfl⟩
    | case2 => contradiction
    | case3 character others before fits hypothesis =>
        obtain ⟨⟨inner, outer⟩, known, same⟩ := Option.map_eq_some_iff.mp found
        cases same
        obtain ⟨whole, width⟩ := hypothesis known
        refine ⟨congrArg (character :: ·) whole, ?_⟩
        rw [byteLength_cons, width]
        omega
    | case4 => contradiction
  · rintro ⟨rfl, rfl⟩
    exact splitAt?_append front back

/-- A slice is what stands between two positions. -/
theorem slice?_eq_some_iff :
    slice? text start finish = some part ↔
      ∃ front back, text = front ++ (part ++ back) ∧ byteLength front = start ∧
        start + byteLength part = finish := by
  constructor
  · intro found
    obtain ⟨⟨front, rest⟩, first, later⟩ := Option.bind_eq_some_iff.mp found
    obtain ⟨⟨inner, back⟩, second, ordered⟩ := Option.bind_eq_some_iff.mp later
    obtain ⟨rfl, place⟩ := splitAt?_eq_some_iff.mp first
    obtain ⟨rfl, width⟩ := splitAt?_eq_some_iff.mp second
    dsimp only at ordered
    split at ordered
    · cases ordered
      exact ⟨front, back, rfl, place, by omega⟩
    · contradiction
  · rintro ⟨front, back, rfl, rfl, rfl⟩
    simp [slice?, splitAt?_append]

/-- A character stands at the length of what is in front of it. -/
theorem characterAt?_eq_some_iff :
    characterAt? text position = some character ↔
      ∃ front back, text = front ++ character :: back ∧ byteLength front = position := by
  constructor
  · intro found
    obtain ⟨⟨front, rest⟩, first, starts⟩ := Option.bind_eq_some_iff.mp found
    obtain ⟨rfl, place⟩ := splitAt?_eq_some_iff.mp first
    obtain ⟨back, rfl⟩ := List.head?_eq_some_iff.mp starts
    exact ⟨front, back, rfl, place⟩
  · rintro ⟨front, back, rfl, rfl⟩
    simp [characterAt?, splitAt?_append]

end Splits

/-! ## Texts in a longer text -/

section Within

variable {part : List Char} {character : Char} {position start finish : Nat}

/-- What stands in a text stands further on in a text that begins before it. -/
theorem slice?_within
    {text : List Char}
    (front back : List Char)
    (found : slice? text start finish = some part) :
    slice? (front ++ (text ++ back)) (start + byteLength front) (finish + byteLength front) =
      some part := by
  obtain ⟨before, after, rfl, rfl, rfl⟩ := slice?_eq_some_iff.mp found
  refine slice?_eq_some_iff.mpr ⟨front ++ before, after ++ back, by simp, ?_, ?_⟩
  · rw [byteLength_append, Nat.add_comm]
  · omega

/-- A character of a part stands in the whole, shifted by what is in front of the part. -/
theorem characterAt?_within
    {text : List Char}
    (front back : List Char)
    (found : characterAt? text position = some character) :
    characterAt? (front ++ (text ++ back)) (position + byteLength front) = some character := by
  obtain ⟨before, after, rfl, rfl⟩ := characterAt?_eq_some_iff.mp found
  refine characterAt?_eq_some_iff.mpr ⟨front ++ before, after ++ back, by simp, ?_⟩
  rw [byteLength_append, Nat.add_comm]

end Within

/-- A position inside a character of two bytes splits nothing. -/
example : splitAt? "é=".toList 1 = none ∧ characterAt? "é=".toList 2 = some '=' := by decide

end Text
end ModelEquation
