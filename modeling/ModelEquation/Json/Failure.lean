import ModelEquation.Reader

/-!
# Failures of reading JSON

A text fails to be JSON of the wanted form in one of three ways: it breaks the
rules of JSON, it ends too early, or it holds a value of the wrong form.
-/

namespace ModelEquation
namespace Json

/-- Why a text was refused. -/
inductive Failure
  | malformed
  | truncated
  | misfit
  deriving DecidableEq, Repr

/-- A reader of the characters of a JSON text. -/
abbrev TextReader := Reader Char Failure

namespace TextReader

/-- Refuses the text at this point. -/
def refuse {α : Type} (failure : Failure) : TextReader α :=
  .fail fun _ => failure

/-- Refuses the next character, or the end of the text where none is left. -/
def stop {α : Type} : TextReader α :=
  .fail fun rest => if rest.isEmpty then .truncated else .malformed

/-- The value, unless there is none because what was read has the wrong form. -/
def fitting {α : Type} : Option α → TextReader α
  | some value => pure value
  | none => refuse .misfit

/-- Takes characters as long as they have a property. -/
def takeWhile (property : Char → Bool) : TextReader (List Char) where
  run text := .ok (text.takeWhile property, text.dropWhile property)
  notLonger := by
    intro text rest taken ran
    cases ran
    exact (List.dropWhile_suffix property).length_le

/-- Takes the given character. -/
def char (expected : Char) : TextReader Unit := do
  if (← Reader.peek) = some expected then Reader.skip else stop

/-- Takes the given characters one after the other. -/
def chars : List Char → TextReader Unit
  | [] => pure ()
  | first :: others => do
      char first
      chars others

/-- The blanks of JSON. -/
def isBlank (character : Char) : Bool :=
  character == ' ' || character == '\t' || character == '\n' || character == '\r'

/-- Drops blanks. -/
def blanks : TextReader Unit := do
  let _ ← takeWhile isBlank

/-- Takes a mark of punctuation and the blanks after it. -/
def mark (expected : Char) : TextReader Unit := do
  char expected
  blanks

end TextReader
end Json
end ModelEquation
