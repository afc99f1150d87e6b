/-!
# Byte offsets

Positions in a text count the bytes of its UTF-8 encoding. `byteLength` is the
number of bytes that a list of characters takes.
-/

namespace ModelEquation
namespace Text

/-- Number of bytes that the characters take in UTF-8. -/
def byteLength (text : List Char) : Nat :=
  text.foldr (fun character length => character.utf8Size + length) 0

@[simp] theorem byteLength_nil : byteLength [] = 0 := rfl

@[simp] theorem byteLength_cons (character : Char) (text : List Char) :
    byteLength (character :: text) = character.utf8Size + byteLength text := rfl

@[simp] theorem byteLength_append (front back : List Char) :
    byteLength (front ++ back) = byteLength front + byteLength back := by
  induction front with
  | nil => simp
  | cons character front ih => simp [ih, Nat.add_assoc]

end Text
end ModelEquation
