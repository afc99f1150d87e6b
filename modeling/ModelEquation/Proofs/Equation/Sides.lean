import ModelEquation.Proofs.Equation.Separator
import ModelEquation.Proofs.Token.Closing

/-!
# The sides of an equation

A text is split where its only bare separator stands. The expression is what is left of the
text behind it between blanks in front and a terminator: blanks with at most one semicolon
among them. Conversely, an output and an expression with a separator between them are the
sides of the text that they make up, whatever terminator is put behind.
-/

namespace ModelEquation
namespace Equation

open Text (AllBlank Trimmed byteLength trim trimEnd trimStart)
open Token (Closing)

/-- Blanks with at most one semicolon among them. -/
def IsTerminator (text : List Char) : Prop :=
  AllBlank text ∨ ∃ front back, text = front ++ ';' :: back ∧ AllBlank front ∧ AllBlank back

namespace IsTerminator

variable {front text : List Char}

/-- Blanks in front of what ends an equation belong to its end. -/
theorem blanks_append
    (blank : AllBlank front)
    (terminates : IsTerminator text) :
    IsTerminator (front ++ text) := by
  rcases terminates with only | ⟨middle, back, rfl, blankMiddle, blankBack⟩
  · exact .inl (blank.append only)
  · exact .inr ⟨front ++ middle, back, (List.append_assoc ..).symm, blank.append blankMiddle,
      blankBack⟩

/-- What ends an equation closes every lexeme in front of it. -/
theorem closing (terminates : IsTerminator text) : Closing text := by
  rcases terminates with only | ⟨front, back, rfl, blankFront, blankBack⟩
  · exact Token.closing_of_allBlank only
  · refine List.forall_mem_append.mpr ⟨Token.closing_of_allBlank blankFront, ?_⟩
    exact List.forall_mem_cons.mpr ⟨rfl, Token.closing_of_allBlank blankBack⟩

end IsTerminator

/-! ## The separator -/

/-- What stands before and after the separator makes up the text. -/
theorem eq_of_splitAtBare
    {inside : Bool}
    {text before after : List Char}
    (found : splitAtBare inside text = some (before, after)) :
    text = before ++ '=' :: after := by
  have passed {flag : Bool} {rest : List Char} (front : List Char) {before after : List Char}
      (hypothesis : ∀ {before after}, splitAtBare flag rest = some (before, after) →
        rest = before ++ '=' :: after)
      (found : (splitAtBare flag rest).map (putBefore front) = some (before, after)) :
      front ++ rest = before ++ '=' :: after := by
    obtain ⟨⟨inner, outer⟩, known, same⟩ := Option.map_eq_some_iff.mp found
    cases same
    rw [hypothesis known, List.append_assoc]
  fun_induction splitAtBare inside text generalizing before after with
  | case1 => contradiction
  | case2 character rest hypothesis => exact passed [character] hypothesis found
  | case3 rest hypothesis => exact passed ['"'] hypothesis found
  | case4 rest hypothesis => exact passed ['=', '='] hypothesis found
  | case5 rest hypothesis => exact passed ['!', '='] hypothesis found
  | case6 rest hypothesis => exact passed ['<', '='] hypothesis found
  | case7 rest hypothesis => exact passed ['>', '='] hypothesis found
  | case8 =>
      cases found
      rfl
  | case9 character rest _ _ _ _ _ _ hypothesis => exact passed [character] hypothesis found

/-- A separator takes one byte. -/
theorem byteLength_separated (before after : List Char) :
    byteLength (before ++ '=' :: after) = byteLength before + 1 + byteLength after := by
  rw [Text.byteLength_append, Text.byteLength_cons, Nat.add_assoc]
  rfl

/-! ## The expression -/

section Expression

variable {front core tail : List Char}

/-- What is left of a text behind blanks and in front of a terminator. -/
theorem dropSemicolon_trim
    (blank : AllBlank front)
    (trimmed : Trimmed core)
    (nonempty : core ≠ [])
    (unclosed : core.getLast? ≠ some ';')
    (terminates : IsTerminator tail) :
    dropSemicolon (trim (front ++ (core ++ tail))) = core := by
  rcases terminates with only | ⟨inner, outer, rfl, blankInner, blankOuter⟩
  · rw [Text.trim_enclosed blank trimmed only, dropSemicolon, if_neg unclosed]
  · have closed : Trimmed (core ++ (inner ++ [';'])) := by
      constructor
      · obtain ⟨start, others, rfl⟩ := List.exists_cons_of_ne_nil nonempty
        exact trimmed.first
      · intro character last
        rw [← List.append_assoc, List.getLast?_concat] at last
        cases last
        rfl
    have whole : front ++ (core ++ (inner ++ ';' :: outer)) =
        front ++ (core ++ (inner ++ [';']) ++ outer) := by simp
    rw [whole, Text.trim_enclosed blank closed blankOuter, dropSemicolon, ← List.append_assoc,
      List.getLast?_concat, if_pos rfl, List.dropLast_concat, Text.trimEnd_append blankInner,
      Text.trimEnd_of_last trimmed.last]

/-- The text behind a separator is an expression between blanks and a terminator. -/
theorem exists_terminator (text : List Char) :
    ∃ front tail, text = front ++ (dropSemicolon (trim text) ++ tail) ∧ AllBlank front ∧
      IsTerminator tail ∧ byteLength text - byteLength (trimStart text) = byteLength front := by
  obtain ⟨front, split, blank⟩ := Text.exists_trimStart text
  obtain ⟨back, ends, blankBack⟩ := Text.exists_trimEnd (trimStart text)
  have width : byteLength text - byteLength (trimStart text) = byteLength front := by
    have sum := congrArg byteLength split
    rw [Text.byteLength_append] at sum
    omega
  rw [← trim] at ends
  unfold dropSemicolon
  split
  · next closed =>
      obtain ⟨expression, whole⟩ := List.getLast?_eq_some_iff.mp closed
      obtain ⟨inner, shortened, blankInner⟩ := Text.exists_trimEnd expression
      refine ⟨front, inner ++ ';' :: back, ?_, blank,
        .inr ⟨inner, back, rfl, blankInner, blankBack⟩, width⟩
      calc text
        _ = front ++ (expression ++ [';'] ++ back) := by rw [← whole, ← ends, ← split]
        _ = front ++ (trimEnd expression ++ inner ++ ';' :: back) := by
            rw [← shortened, List.append_assoc, List.singleton_append]
        _ = front ++ (trimEnd (trim text).dropLast ++ (inner ++ ';' :: back)) := by
            rw [whole, List.dropLast_concat, List.append_assoc]
  · exact ⟨front, back, by rw [← ends, ← split], blank, .inl blankBack, width⟩

end Expression

/-! ## Splitting -/

/-- An output, a separator that the scan finds, and an expression between blanks and a
terminator without a separator are split into the output and the expression. -/
theorem split_of_parts
    {before front core tail : List Char}
    (found : splitAtBare false (before ++ '=' :: (front ++ (core ++ tail))) =
      some (before, front ++ (core ++ tail)))
    (unseparated : splitAtBare false (front ++ (core ++ tail)) = none)
    (output : trim before ≠ [])
    (blank : AllBlank front)
    (trimmed : Trimmed core)
    (nonempty : core ≠ [])
    (unclosed : core.getLast? ≠ some ';')
    (terminates : IsTerminator tail) :
    ∃ offset, split (before ++ '=' :: (front ++ (core ++ tail))) =
      .ok ⟨trim before, core, offset⟩ := by
  simp only [split, found, bareOffset?, unseparated, Option.map_none,
    dropSemicolon_trim blank trimmed nonempty unclosed terminates, List.isEmpty_iff, output,
    nonempty, if_false]
  exact ⟨_, rfl⟩

/-- The parts of a text that is split: the expression stands behind the separator, between
blanks and a terminator. -/
theorem exists_parts_of_split
    {text : List Char}
    {sides : Sides}
    (divided : split text = .ok sides) :
    ∃ before front tail,
      text = before ++ '=' :: (front ++ (sides.expression ++ tail)) ∧
      bareOffset? text = some (byteLength before) ∧ AllBlank front ∧ IsTerminator tail ∧
      sides.offset = byteLength before + 1 + byteLength front := by
  unfold split at divided
  split at divided
  · contradiction
  · next before after found =>
      dsimp only at divided
      split at divided
      · contradiction
      · split at divided
        · contradiction
        · split at divided
          · contradiction
          · cases divided
            obtain ⟨front, tail, whole, blank, terminates, width⟩ := exists_terminator after
            refine ⟨before, front, tail, ?_, by rw [bareOffset?, found]; rfl, blank, terminates,
              congrArg _ width⟩
            rw [← whole]
            exact eq_of_splitAtBare found

end Equation
end ModelEquation
