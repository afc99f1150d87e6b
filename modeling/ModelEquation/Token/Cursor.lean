import ModelEquation.Token.Rule

/-!
# Reading tokens

A cursor is a place in a text: a byte offset and the characters from there on.
`Cursor.next` reads one token, dropping blanks in front of it, and `Cursor.tokens`
reads all that are left. A character that no rule accepts stops the cursor on it.
-/

namespace ModelEquation
namespace Token

/-- A character at which no token starts, with its byte offset. -/
structure Fault where
  position : Nat
  character : Char
  deriving DecidableEq, Repr

namespace Fault

/-- The message that reports the character. -/
def message (fault : Fault) : String :=
  "Unexpected character '" ++ fault.character.toString ++ "' at position " ++
    toString fault.position

/-- The fault at a place that lies further on by a number of bytes. -/
def shifted (offset : Nat) (fault : Fault) : Fault :=
  { fault with position := fault.position + offset }

end Fault

/-- A place in a text from which tokens are read. -/
structure Cursor where
  position : Nat
  rest : List Char
  deriving DecidableEq, Repr

namespace Cursor

/-- The cursor at the start of a text. -/
def start (text : List Char) : Cursor :=
  ⟨0, text⟩

/-- The cursor after some more characters. -/
def advance (cursor : Cursor) (length : Nat) : Cursor :=
  ⟨cursor.position + Text.byteLength (cursor.rest.take length), cursor.rest.drop length⟩

theorem length_advance_lt
    {cursor : Cursor}
    {action : Action}
    {length : Nat}
    (chosen : Rule.choose? cursor.rest = some (action, length))
    (nonempty : cursor.rest ≠ []) :
    (cursor.advance length).rest.length < cursor.rest.length := by
  have positive := Rule.positive_of_choose? chosen
  have present := List.length_pos_iff.mpr nonempty
  simp only [advance, List.length_drop]
  omega

/-- The next token, if any is left, and the cursor after it. A fault leaves the
cursor on the character that it reports. -/
def next (cursor : Cursor) : Except Fault (Option Token) × Cursor :=
  match _content : cursor.rest with
  | [] => (.ok none, cursor)
  | character :: _ =>
      match _chosen : Rule.choose? cursor.rest with
      | none => (.error ⟨cursor.position, character⟩, cursor)
      | some (action, length) =>
          match action.kind? with
          | some kind =>
              (.ok (some ⟨kind, String.ofList (cursor.rest.take length), cursor.position⟩),
                cursor.advance length)
          | none => (cursor.advance length).next
termination_by cursor.rest.length
decreasing_by exact length_advance_lt _chosen (by simp [_content])

/-- Reading a token takes at least one character. -/
theorem length_next_lt
    {cursor after : Cursor}
    {token : Token}
    (read : cursor.next = (.ok (some token), after)) :
    after.rest.length < cursor.rest.length := by
  fun_induction next cursor with
  | case1 => simp at read
  | case2 => simp at read
  | case3 cursor character others content action length chosen kind known =>
      cases read
      exact length_advance_lt chosen (by simp [content])
  | case4 cursor character others content action length chosen known hypothesis =>
      exact Nat.lt_trans (hypothesis read) (length_advance_lt chosen (by simp [content]))

/-- All tokens from the cursor on, or the first fault. -/
def tokens (cursor : Cursor) : Except Fault (List Token) :=
  match _read : cursor.next with
  | (.error fault, _) => .error fault
  | (.ok none, _) => .ok []
  | (.ok (some token), after) => (tokens after).map (token :: ·)
termination_by cursor.rest.length
decreasing_by exact length_next_lt _read

end Cursor

/-- All tokens of a text, or the first fault. -/
def tokenize (text : List Char) : Except Fault (List Token) :=
  (Cursor.start text).tokens

end Token
end ModelEquation
