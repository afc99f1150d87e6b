import ModelEquation.Proofs.Token.Tiling

/-!
# Calls one after the other

A reader of tokens is called again and again, whatever it returned before, and all tokens that
are left may be asked for at any time. However often it is called, what was read tiles the
text up to the cursor, and a call fails exactly if the next character that is no blank is one
with which nothing starts.
-/

namespace ModelEquation
namespace Token

open Text (AllBlank BlankBetween byteLength characterAt? splitAt?)

namespace Cursor

/-- What a number of calls return one after the other, and the cursor that they leave. -/
def calls : Nat → Cursor → List (Except Fault (Option Token)) × Cursor
  | 0, cursor => ([], cursor)
  | count + 1, cursor =>
      let (outcome, after) := cursor.next
      let (outcomes, last) := after.calls count
      (outcome :: outcomes, last)

/-- The token that a call returned, if it returned one. -/
def returned : Except Fault (Option Token) → List Token
  | .ok (some token) => [token]
  | .ok none => []
  | .error _ => []

/-- The tokens among what some calls returned. -/
def tokensOf (outcomes : List (Except Fault (Option Token))) : List Token :=
  outcomes.flatMap returned

/-- What a call returned fits the cursor that it left: it is at the end of the text where no
token was found, and on the character that a fault reports. -/
def Settled (after : Cursor) : Except Fault (Option Token) → Prop
  | .ok (some _) => True
  | .ok none => after.rest = []
  | .error fault => after.StuckOn fault.character ∧ after.position = fault.position

/-- A call is a run to the next token, to the end of the text or to a fault. -/
theorem reads_next (cursor : Cursor) :
    Reads cursor (returned cursor.next.1) cursor.next.2 ∧ cursor.next.2.Settled cursor.next.1 := by
  fun_induction next cursor with
  | case1 cursor content => exact ⟨.refl cursor, content⟩
  | case2 cursor character others content refused =>
      exact ⟨.refl cursor, ⟨by rw [content]; rfl, refused⟩, rfl⟩
  | case3 cursor character others content action length chosen kind known =>
      have round := Reads.round (by simp [content]) chosen (.refl (cursor.advance length))
      rw [emitted, known] at round
      exact ⟨round, trivial⟩
  | case4 cursor character others content action length chosen known hypothesis =>
      have round := Reads.round (by simp [content]) chosen hypothesis.1
      rw [emitted, known] at round
      exact ⟨round, hypothesis.2⟩

/-- Calls one after the other are a run. -/
theorem reads_calls (cursor : Cursor) (count : Nat) :
    Reads cursor (tokensOf (cursor.calls count).1) (cursor.calls count).2 := by
  induction count generalizing cursor with
  | zero => exact .refl cursor
  | succ count hypothesis => exact (reads_next cursor).1.trans (hypothesis cursor.next.2)

/-- Blanks in front of a token only move the cursor. -/
theorem next_blanks_append
    {gap : List Char}
    (blank : AllBlank gap)
    (position : Nat)
    (rest : List Char) :
    (Cursor.mk position (gap ++ rest)).next =
      (Cursor.mk (position + byteLength gap) rest).next := by
  induction gap generalizing position with
  | nil => rfl
  | cons first others hypothesis =>
      obtain ⟨known, later⟩ := List.forall_mem_cons.mp blank
      rw [List.cons_append, next_cons_of_isBlank known, hypothesis later, Text.byteLength_cons,
        Nat.add_assoc]

/-! ## Progress through a text -/

/-- A character with which nothing starts stands at the position of the fault. -/
def StuckAt (text : List Char) (fault : Fault) : Prop :=
  ∃ front rest, splitAt? text fault.position = some (front, fault.character :: rest) ∧
    StartsNothing fault.character rest

/-- What holds when some tokens of a text have been read and a cursor has been left. -/
structure Progress (text : List Char) (read : List Token) (cursor : Cursor) : Prop where
  /-- What was read tiles the text up to the cursor. -/
  tiled : Tiles text 0 read cursor.position
  ordered : Ordered read
  /-- The tokens that are left follow those that were read among all tokens of the text. -/
  remaining : tokenize text = cursor.tokens.map (read ++ ·)
  /-- With the tokens that are left, all of the text is tiled. -/
  complete : ∀ others, cursor.tokens = .ok others →
    Tiles text 0 (read ++ others) (byteLength text) ∧ Ordered (read ++ others)
  /-- Where some of the text cannot be read, it is tiled up to the fault. -/
  incomplete : ∀ fault, cursor.tokens = .error fault →
    StuckAt text fault ∧ ∃ others, Tiles text 0 (read ++ others) fault.position
  /-- Where no token is left, what was read tiles all of the text. -/
  ended : ∀ after, cursor.next = (.ok none, after) →
    after.position = byteLength text ∧ Tiles text 0 read (byteLength text)
  /-- A fault leaves the cursor on the character that it reports, and is found again. -/
  stopped : ∀ fault after, cursor.next = (.error fault, after) →
    after.position = fault.position ∧ Tiles text 0 read fault.position ∧
      characterAt? text fault.position = some fault.character ∧ after.next = (.error fault, after)
  /-- A call fails exactly if, blanks apart, a character is next with which nothing starts. -/
  fails_iff : ∀ fault, cursor.next.1 = .error fault ↔
    BlankBetween text cursor.position fault.position ∧ StuckAt text fault

section Runs

variable {text : List Char} {read others : List Token} {cursor after : Cursor} {fault : Fault}

/-- A run from the start of a text splits it at the cursor that it leaves. -/
theorem Reads.exists_splitAt?
    (reads : Reads (start text) read cursor) :
    ∃ front, splitAt? text cursor.position = some (front, cursor.rest) := by
  obtain ⟨front, split, place⟩ := reads.exists_taken
  refine ⟨front, Text.splitAt?_eq_some_iff.mpr ⟨split, ?_⟩⟩
  rw [place, start, Nat.zero_add]

/-- The tokens that are read from the start tile the text up to the cursor. -/
theorem Reads.tiles_start
    (reads : Reads (start text) read cursor) :
    Tiles text 0 read cursor.position :=
  reads.tiles [] rfl

/-- At the end of the text the cursor is behind its last byte. -/
theorem Reads.position_of_ended
    (reads : Reads (start text) read cursor)
    (ended : cursor.rest = []) :
    cursor.position = byteLength text := by
  obtain ⟨front, split⟩ := reads.exists_splitAt?
  obtain ⟨whole, place⟩ := Text.splitAt?_eq_some_iff.mp split
  rw [← place, whole, ended, List.append_nil]

/-- Where a run is stuck, nothing starts with the character. -/
theorem Reads.stuckAt
    (reads : Reads (start text) read cursor)
    (stuck : cursor.StuckOn fault.character)
    (place : cursor.position = fault.position) :
    StuckAt text fault := by
  obtain ⟨front, split⟩ := reads.exists_splitAt?
  obtain ⟨rest, content⟩ := List.head?_eq_some_iff.mp stuck.1
  have refused := stuck.2
  rw [content, Rule.choose?_cons_eq_none_iff] at refused
  rw [content, place] at split
  exact ⟨front, rest, split, refused⟩

/-- A cursor with nothing but blanks in front of a character with which nothing starts. The text
is split in one way at the cursor, and in one way at the fault. -/
theorem Reads.next_of_stuckAt
    (reads : Reads (start text) read cursor)
    (blank : BlankBetween text cursor.position fault.position)
    (stuck : StuckAt text fault) :
    cursor.next.1 = .error fault := by
  obtain ⟨front, here⟩ := reads.exists_splitAt?
  obtain ⟨gap, found, blanks⟩ := blank
  obtain ⟨before, rest, there, nothing⟩ := stuck
  obtain ⟨first, back, whole, place, width⟩ := Text.slice?_eq_some_iff.mp found
  have atCursor : splitAt? text cursor.position = some (first, gap ++ back) :=
    Text.splitAt?_eq_some_iff.mpr ⟨whole, place⟩
  have atFault : splitAt? text fault.position = some (first ++ gap, back) :=
    Text.splitAt?_eq_some_iff.mpr
      ⟨by rw [whole, List.append_assoc], by rw [Text.byteLength_append, place, width]⟩
  rw [here, Option.some.injEq, Prod.mk.injEq] at atCursor
  rw [there, Option.some.injEq, Prod.mk.injEq] at atFault
  have content : cursor.rest = gap ++ fault.character :: rest := by
    rw [atCursor.2, atFault.2]
  have refused := (Rule.choose?_cons_eq_none_iff fault.character rest).mpr nothing
  have stands : StuckOn fault.character ⟨fault.position, fault.character :: rest⟩ :=
    ⟨rfl, refused⟩
  have step := next_blanks_append blanks cursor.position (fault.character :: rest)
  rw [width, next_of_stuckOn stands, ← content] at step
  exact congrArg Prod.fst step

/-- Whatever a run from the start of a text has read, the reading makes progress. -/
theorem Reads.progress
    (reads : Reads (start text) read cursor) :
    Progress text read cursor where
  tiled := reads.tiles_start
  ordered := reads.tiles_start.ordered
  remaining := reads.tokens_eq
  complete := by
    intro others left
    obtain ⟨position, later⟩ := reads_of_tokens_ok left
    have whole := reads.trans later
    have tiles := whole.tiles_start
    rw [whole.position_of_ended rfl] at tiles
    exact ⟨tiles, tiles.ordered⟩
  incomplete := by
    intro fault left
    obtain ⟨others, after, later, stuck, place⟩ := reads_of_tokens_error left
    have whole := reads.trans later
    exact ⟨whole.stuckAt stuck place, others, place ▸ whole.tiles_start⟩
  ended := by
    intro after called
    obtain ⟨later, settled⟩ := reads_next cursor
    rw [called] at later settled
    have whole := reads.trans later
    rw [returned, List.append_nil] at whole
    have place := whole.position_of_ended settled
    exact ⟨place, place ▸ whole.tiles_start⟩
  stopped := by
    intro fault after called
    have later := reads_next cursor
    rw [called] at later
    obtain ⟨run, stuck, place⟩ := later
    have whole := reads.trans run
    rw [returned, List.append_nil] at whole
    obtain ⟨front, rest, split, _⟩ := whole.stuckAt stuck place
    refine ⟨place, place ▸ whole.tiles_start, ?_, ?_⟩
    · rw [characterAt?, split]
      rfl
    · rw [next_of_stuckOn stuck, place]
  fails_iff := by
    intro fault
    refine ⟨fun failed => ?_, fun stands => reads.next_of_stuckAt stands.1 stands.2⟩
    have later := reads_next cursor
    rw [failed] at later
    obtain ⟨run, stuck, place⟩ := later
    obtain ⟨front, here⟩ := reads.exists_splitAt?
    obtain ⟨whole, start⟩ := Text.splitAt?_eq_some_iff.mp here
    have gap := run.tiles front start.symm
    rw [← whole, place] at gap
    exact ⟨gap, (reads.trans run).stuckAt stuck place⟩

end Runs

/-- However often tokens are asked for one after the other, the reading makes progress. -/
theorem progress_calls (text : List Char) (count : Nat) :
    let called := (start text).calls count
    Progress text (tokensOf called.1) called.2 :=
  (reads_calls (start text) count).progress

end Cursor
end Token
end ModelEquation
