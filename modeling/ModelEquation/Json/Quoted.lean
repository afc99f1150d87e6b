import ModelEquation.Json.Failure
import ModelEquation.Text.Width

/-!
# Strings of JSON text

A string ends at the first double quote that no backslash escapes. Characters
beyond 16 bits are escaped as two surrogates. A surrogate without its partner
denotes no character: it is refused, or passed over where a string is skipped.
-/

namespace ModelEquation
namespace Json
namespace TextReader

/-- The value of a hexadecimal digit. -/
def hexValue? (digit : Char) : Option Nat :=
  if digit.isDigit then some (digit.toNat - '0'.toNat)
  else if 'a' ≤ digit && digit ≤ 'f' then some (digit.toNat - 'a'.toNat + 10)
  else if 'A' ≤ digit && digit ≤ 'F' then some (digit.toNat - 'A'.toNat + 10)
  else none

/-- The value of hexadecimal digits. -/
def hexValues? (digits : List Char) : Option Nat :=
  digits.foldlM (fun value digit => (hexValue? digit).map (16 * value + ·)) 0

/-- Takes the four hexadecimal digits of one code unit. -/
def codeUnit : TextReader Nat where
  run text :=
    if Text.byteLength text < 4 then .error .truncated
    else
      match hexValues? (text.take 4) with
      | some value => .ok (value, text.drop 4)
      | none => .error .malformed
  notLonger := by
    intro text rest value ran
    split at ran
    · contradiction
    · split at ran
      · cases ran
        simp
      · contradiction

/-- The character of one code unit or of two surrogates. -/
def codePoint : TextReader Char := do
  let unit ← codeUnit
  if 0xDC00 ≤ unit && unit ≤ 0xDFFF then
    refuse .malformed
  else if 0xD800 ≤ unit && unit ≤ 0xDBFF then
    chars ['\\', 'u']
    let partner ← codeUnit
    if 0xDC00 ≤ partner && partner ≤ 0xDFFF then
      pure (Char.ofNat (0x10000 + (unit - 0xD800) * 0x400 + (partner - 0xDC00)))
    else
      refuse .malformed
  else
    pure (Char.ofNat unit)

/-- Any one code unit, whatever it denotes. -/
def anyCodeUnit : TextReader Char := do
  let _ ← codeUnit
  pure '\x00'

/-- The character that follows a backslash. -/
def escaped (unicode : TextReader Char) : TextReader Char := do
  match ← Reader.peek with
  | some '"' => Reader.skip; pure '"'
  | some '\\' => Reader.skip; pure '\\'
  | some '/' => Reader.skip; pure '/'
  | some 'b' => Reader.skip; pure '\x08'
  | some 'f' => Reader.skip; pure '\x0c'
  | some 'n' => Reader.skip; pure '\n'
  | some 'r' => Reader.skip; pure '\r'
  | some 't' => Reader.skip; pure '\t'
  | some 'u' => Reader.skip; unicode
  | _ => stop

/-- One character of a string, given the first character that stands for it. -/
def character (unicode : TextReader Char) (first : Char) : TextReader Char :=
  if first = '\\' then escaped unicode
  else if first.toNat < 0x20 then refuse .malformed
  else pure first

/-- A string in double quotes, with a reader for what follows `\u`. -/
def quoted (unicode : TextReader Char) : TextReader String := do
  char '"'
  let reversed ← Reader.extend
    (fun first =>
      if first = '"' then none
      else some fun reversed => do
        pure ((← character unicode first) :: reversed))
    []
  char '"'
  pure (String.ofList reversed.reverse)

end TextReader
end Json
end ModelEquation
