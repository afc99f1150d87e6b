import ModelEquation.Proofs.Token.Closing

/-!
# Tokens of a text between blanks

A text that is put between blanks is read as the same tokens, each further on by the
blanks in front, and a character that stops the reading is reported further on by as much.
A run from a cursor is therefore followed with the cursor moved, and with something that
starts with a delimiter put behind the text. A text that is read to its end is read in the
same way in front of it, and the tokens of two texts with a blank between them are those of the
one and then those of the other.
-/

namespace ModelEquation
namespace Token

open Text (EndsVisibly)

namespace Cursor

/-- The cursor in a text that has a number of bytes put before it. -/
def shifted (offset : Nat) (cursor : Cursor) : Cursor :=
  ⟨cursor.position + offset, cursor.rest⟩

/-- The cursor in a text that goes on with more characters. -/
def followed (more : List Char) (cursor : Cursor) : Cursor :=
  ⟨cursor.position, cursor.rest ++ more⟩

/-! ## Runs -/

namespace Reads

variable {cursor after : Cursor} {tokens : List Token}

/-- A run goes the same way further on in a text. -/
theorem shifted
    (reads : Reads cursor tokens after)
    (offset : Nat) :
    Reads (cursor.shifted offset) (tokens.map (Token.shifted offset)) (after.shifted offset) := by
  induction reads with
  | refl cursor => exact .refl _
  | @round cursor after action length tokens nonempty chosen later hypothesis =>
      have moved : (cursor.shifted offset).advance length =
          (cursor.advance length).shifted offset := by
        simp [advance, Cursor.shifted, Nat.add_right_comm]
      have same : (cursor.emitted action length).map (Token.shifted offset) =
          (cursor.shifted offset).emitted action length := by
        cases emits : action.kind? <;> simp [emitted, emits, Token.shifted, Cursor.shifted]
      rw [List.map_append, same]
      exact .round nonempty chosen (moved ▸ hypothesis)

/-- The text that a run leaves ends as the text that it starts from. -/
theorem endsVisibly
    (reads : Reads cursor tokens after)
    (visible : EndsVisibly cursor.rest) :
    EndsVisibly after.rest := by
  obtain ⟨taken, split, _⟩ := reads.exists_taken
  rw [split] at visible
  exact visible.of_append

/-- What follows a text behind a delimiter does not change a run in it. The lexeme lies in the
text, so taking and dropping it leave what follows alone. -/
theorem followed
    {more : List Char}
    (reads : Reads cursor tokens after)
    (visible : EndsVisibly cursor.rest)
    (delimited : Delimited more) :
    Reads (cursor.followed more) tokens (after.followed more) := by
  induction reads with
  | refl cursor => exact .refl _
  | @round cursor after action length tokens nonempty chosen later hypothesis =>
      have fits := Rule.length_le_of_choose? chosen
      have stays := Rule.choose?_append (visible.not_allBlank nonempty) delimited
        (Rule.unquoted_of_choose? chosen more)
      have moved : (cursor.followed more).advance length =
          (cursor.advance length).followed more := by
        simp [advance, Cursor.followed, List.take_append_of_le_length fits,
          List.drop_append_of_le_length fits]
      have same : (cursor.followed more).emitted action length =
          cursor.emitted action length := by
        simp [emitted, Cursor.followed, List.take_append_of_le_length fits]
      have left : EndsVisibly (cursor.advance length).rest := by
        rw [← List.take_append_drop length cursor.rest] at visible
        exact visible.of_append
      rw [← same]
      refine .round (by simp [Cursor.followed, nonempty]) (stays.trans chosen) ?_
      exact moved ▸ hypothesis left

/-- What a run takes does not end with a semicolon. -/
theorem getLast?_taken_ne
    {taken : List Char}
    (reads : Reads cursor tokens after)
    (split : cursor.rest = taken ++ after.rest) :
    taken.getLast? ≠ some ';' := by
  induction reads generalizing taken with
  | refl cursor =>
      rw [List.self_eq_append_left.mp split]
      simp
  | @round cursor after action length tokens nonempty chosen later hypothesis =>
      obtain ⟨more, left, _⟩ := later.exists_taken
      rw [taken_eq_of_advance split left, List.getLast?_append]
      have later := hypothesis left
      cases last : more.getLast? with
      | none => exact Rule.getLast?_ne_of_choose? chosen
      | some character =>
          rw [last] at later
          exact later

end Reads

/-! ## Blanks -/

/-- Blanks in front of a text are passed over. -/
theorem tokens_blanks_append
    {blanks : List Char}
    (blank : Text.AllBlank blanks)
    (position : Nat)
    (rest : List Char) :
    (Cursor.mk position (blanks ++ rest)).tokens =
      (Cursor.mk (position + Text.byteLength blanks) rest).tokens := by
  induction blanks generalizing position with
  | nil => rfl
  | cons first others hypothesis =>
      obtain ⟨known, later⟩ := List.forall_mem_cons.mp blank
      rw [List.cons_append, tokens_of_isBlank known, hypothesis later, Text.byteLength_cons,
        Nat.add_assoc]

/-- A text is read further on as it is read at its place. -/
theorem tokens_shifted
    (cursor : Cursor)
    (offset : Nat) :
    (cursor.shifted offset).tokens =
      (cursor.tokens.map (List.map (Token.shifted offset))).mapError (Fault.shifted offset) := by
  obtain ⟨tokens, ⟨position, rest⟩, reads, rfl | ⟨character, stuck⟩⟩ := exists_reads cursor
  · rw [(reads.shifted offset).tokens_eq, reads.tokens_eq, shifted, tokens_nil, tokens_nil]
    exact congrArg Except.ok (by simp)
  · have further : StuckOn character (shifted offset ⟨position, rest⟩) := stuck
    rw [(reads.shifted offset).tokens_eq, reads.tokens_eq, tokens_of_stuckOn stuck,
      tokens_of_stuckOn further]
    rfl

/-- Blanks behind a text change nothing. -/
theorem tokens_append_blanks
    (cursor : Cursor)
    {blanks : List Char}
    (visible : EndsVisibly cursor.rest)
    (blank : Text.AllBlank blanks) :
    (cursor.followed blanks).tokens = cursor.tokens := by
  have closes := closing_of_allBlank blank
  obtain ⟨tokens, after, reads, ended | ⟨character, stuck⟩⟩ := exists_reads cursor
  · obtain ⟨position, rest⟩ := after
    subst ended
    have passed := tokens_blanks_append blank position []
    rw [List.append_nil] at passed
    rw [(reads.followed visible closes.delimited).tokens_eq, reads.tokens_eq, followed,
      List.nil_append, passed, tokens_nil, tokens_nil]
  · have nonempty : after.rest ≠ [] := fun empty => by simp [StuckOn, empty] at stuck
    have further : StuckOn character (after.followed blanks) := by
      refine ⟨?_, ?_⟩
      · rw [followed, List.head?_append, stuck.1]
        rfl
      · have left := reads.endsVisibly visible
        have stays := Rule.choose?_append (left.not_allBlank nonempty) closes.delimited
          (Rule.unquoted_of_closing closes)
        exact stays.trans stuck.2
    rw [(reads.followed visible closes.delimited).tokens_eq, reads.tokens_eq,
      tokens_of_stuckOn stuck, tokens_of_stuckOn further]
    rfl

/-- A text that is read to its end is read in the same way where something follows that starts
with a delimiter, and this is read behind it. The blanks at the end of the text belong to what
follows. -/
theorem tokens_append
    {text more : List Char}
    {tokens : List Token}
    (read : tokenize text = .ok tokens)
    (delimited : Delimited more)
    (position : Nat) :
    (Cursor.mk position (text ++ more)).tokens =
      (Cursor.mk (position + Text.byteLength text) more).tokens.map
        (tokens.map (Token.shifted position) ++ ·) := by
  obtain ⟨blanks, split, blank⟩ := Text.exists_trimEnd text
  have visible := Text.endsVisibly_trimEnd text
  generalize Text.trimEnd text = core at split visible
  subst split
  have whole : (Cursor.start core).tokens = .ok tokens := by
    rw [← tokens_append_blanks (Cursor.start core) visible blank]
    exact read
  obtain ⟨finish, reads⟩ := reads_of_tokens_ok whole
  have further : Delimited (blanks ++ more) := by
    cases blanks with
    | nil => exact delimited
    | cons first others =>
        intro character ahead
        cases ahead
        simp [isDelimiter, isClosing, blank first (List.mem_cons_self ..)]
  have moved := ((reads.followed visible further).shifted position).tokens_eq
  obtain ⟨taken, same, place⟩ := reads.exists_taken
  have all : core = taken := by simpa [start] using same
  subst all
  have front : ((Cursor.start core).followed (blanks ++ more)).shifted position =
      Cursor.mk position (core ++ (blanks ++ more)) := by
    simp [start, followed, Cursor.shifted]
  have back : ((Cursor.mk finish []).followed (blanks ++ more)).shifted position =
      Cursor.mk (position + Text.byteLength core) (blanks ++ more) := by
    simp only [start, Nat.zero_add] at place
    simp [followed, Cursor.shifted, place, Nat.add_comm]
  rw [front, back, tokens_blanks_append blank] at moved
  rw [List.append_assoc, moved, Text.byteLength_append, Nat.add_assoc]

end Cursor

/-- A text that is read to its end spells its tokens, wherever they stand. -/
theorem spells_of_tokenize
    {text : List Char}
    {tokens : List Token}
    (read : tokenize text = .ok tokens) :
    Spells text Breaks fun found =>
      ∃ position, found = tokens.map (Token.shifted position) := by
  intro position rest follows
  exact ⟨_, _, ⟨position, rfl⟩, Cursor.tokens_append read (delimited_of_breaks follows) position⟩

/-- Blanks around a text move its tokens, or the character that stops the reading, further
on by the blanks in front. -/
theorem tokenize_enclosed
    {front core back : List Char}
    (blankFront : Text.AllBlank front)
    (visible : EndsVisibly core)
    (blankBack : Text.AllBlank back) :
    tokenize (front ++ (core ++ back)) =
      ((tokenize core).map (List.map (Token.shifted (Text.byteLength front)))).mapError
        (Fault.shifted (Text.byteLength front)) := by
  rw [tokenize, Cursor.start, Cursor.tokens_blanks_append blankFront]
  have closed : (Cursor.mk (0 + Text.byteLength front) (core ++ back)).tokens =
      ((Cursor.start core).shifted (Text.byteLength front)).tokens :=
    Cursor.tokens_append_blanks ((Cursor.start core).shifted _) visible blankBack
  rw [closed, Cursor.tokens_shifted]
  rfl

/-! ## Texts joined by blanks -/

/-- Blanks behind a text that is read to its end start the reading anew: what follows them is
read as at its own start, further on by the text and the blanks. -/
theorem tokenize_joined
    {first gap : List Char}
    {tokens : List Token}
    (read : tokenize first = .ok tokens)
    (blank : Text.AllBlank gap)
    (nonempty : gap ≠ [])
    (second : List Char) :
    tokenize (first ++ (gap ++ second)) =
      ((tokenize second).map fun others =>
        tokens ++ others.map (Token.shifted (Text.byteLength (first ++ gap)))).mapError
          (Fault.shifted (Text.byteLength (first ++ gap))) := by
  have delimited : Delimited (gap ++ second) := by
    obtain ⟨space, spaces, rfl⟩ := List.exists_cons_of_ne_nil nonempty
    exact (closing_of_allBlank blank).delimited
  have still : tokens.map (Token.shifted 0) = tokens := List.map_id tokens
  rw [tokenize, Cursor.start, Cursor.tokens_append read delimited, still,
    Cursor.tokens_blanks_append blank, Nat.add_assoc, ← Text.byteLength_append]
  have moved := Cursor.tokens_shifted (Cursor.start second) (Text.byteLength (first ++ gap))
  rw [Cursor.shifted, Cursor.start] at moved
  rw [moved, tokenize, Cursor.start]
  cases (Cursor.mk 0 second).tokens <;> rfl

/-- Tokenizing takes the joining of two texts by blanks to the joining of their tokens. The
tokens of the second text, or the character that stops the reading in it, are further on by the
first text and the blanks. -/
theorem tokenize_append_of_blank
    {first gap : List Char}
    {tokens : List Token}
    (read : tokenize first = .ok tokens)
    (blank : Text.AllBlank gap)
    (nonempty : gap ≠ [])
    (second : List Char) :
    (∀ others, tokenize second = .ok others →
      tokenize (first ++ (gap ++ second)) =
        .ok (tokens ++ others.map (Token.shifted (Text.byteLength (first ++ gap))))) ∧
    (∀ fault, tokenize second = .error fault →
      tokenize (first ++ (gap ++ second)) =
        .error (fault.shifted (Text.byteLength (first ++ gap)))) := by
  have joined := tokenize_joined read blank nonempty second
  constructor
  · intro others known
    rw [joined, known]
    rfl
  · intro fault known
    rw [joined, known]
    rfl

/-- A dotted name, an ideographic space of three bytes, and a text that stops at its second
character. -/
theorem tokenize_append_of_blank_of_semicolon :
    tokenize "a.1".toList = .ok [⟨.identifier, "a.1", 0⟩] ∧
      Text.AllBlank ['\u3000'] ∧ ['\u3000'] ≠ ([] : List Char) ∧
      tokenize "b;".toList = .error ⟨1, ';'⟩ ∧
      tokenize ("a.1".toList ++ (['\u3000'] ++ "b;".toList)) = .error ⟨7, ';'⟩ := by
  have read : tokenize "a.1".toList = .ok [⟨.identifier, "a.1", 0⟩] := by
    with_unfolding_all rfl
  have blank : Text.AllBlank ['\u3000'] := by simp [Text.AllBlank, Text.isBlank]
  have stuck : tokenize "b;".toList = .error ⟨1, ';'⟩ := by
    with_unfolding_all rfl
  obtain ⟨_, fails⟩ := tokenize_append_of_blank read blank (List.cons_ne_nil _ _) "b;".toList
  exact ⟨read, blank, List.cons_ne_nil _ _, stuck, fails _ stuck⟩

end Token
end ModelEquation
