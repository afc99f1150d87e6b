import ModelEquation.Proofs.Text.Place
import ModelEquation.Proofs.Token.Lexed

/-!
# Tilings of a text

The tokens that are read from a text tile it: each of them stands in the text with its lexeme,
which is not empty, and nothing but blanks stands in front of the first one, between two of
them and, at the end of the text, behind the last one. The reading stops early only on a
character with which nothing starts. All of this holds after any number of calls.
-/

namespace ModelEquation

namespace Text

/-- Nothing but blanks stands between two byte positions of the text. -/
def BlankBetween (text : List Char) (start finish : Nat) : Prop :=
  ∃ gap, slice? text start finish = some gap ∧ AllBlank gap

theorem BlankBetween.le
    {text : List Char}
    {start finish : Nat}
    (blank : BlankBetween text start finish) :
    start ≤ finish := by
  obtain ⟨gap, found, _⟩ := blank
  obtain ⟨_, _, _, _, rfl⟩ := slice?_eq_some_iff.mp found
  exact Nat.le_add_right ..

/-- Blanks between two positions of a text that is split before and behind them. -/
theorem blankBetween_of_split
    {gap : List Char}
    (blank : AllBlank gap)
    (front back : List Char) :
    BlankBetween (front ++ (gap ++ back)) (byteLength front) (byteLength (front ++ gap)) :=
  ⟨gap, slice?_eq_some_iff.mpr ⟨front, back, rfl, rfl, (byteLength_append ..).symm⟩, blank⟩

/-- Nothing stands between a position and itself. -/
theorem blankBetween_self (front back : List Char) :
    BlankBetween (front ++ back) (byteLength front) (byteLength front) := by
  have gap := blankBetween_of_split allBlank_nil front back
  rwa [List.nil_append, List.append_nil] at gap

/-- Gaps that meet are one gap. A position splits the text in one way only. -/
theorem BlankBetween.trans
    {text : List Char}
    {start middle finish : Nat}
    (first : BlankBetween text start middle)
    (second : BlankBetween text middle finish) :
    BlankBetween text start finish := by
  obtain ⟨gap, found, blank⟩ := first
  obtain ⟨more, foundMore, blankMore⟩ := second
  obtain ⟨front, back, split, rfl, rfl⟩ := slice?_eq_some_iff.mp found
  obtain ⟨before, behind, splitMore, place, rfl⟩ := slice?_eq_some_iff.mp foundMore
  have here : splitAt? text (byteLength front + byteLength gap) = some (front ++ gap, back) :=
    splitAt?_eq_some_iff.mpr ⟨by rw [split, List.append_assoc], byteLength_append ..⟩
  have there : splitAt? text (byteLength front + byteLength gap) =
      some (before, more ++ behind) :=
    splitAt?_eq_some_iff.mpr ⟨splitMore, place⟩
  rw [here, Option.some.injEq, Prod.mk.injEq] at there
  refine ⟨gap ++ more, slice?_eq_some_iff.mpr ⟨front, behind, ?_, rfl, ?_⟩, blank.append blankMore⟩
  · rw [split, there.2, List.append_assoc]
  · rw [byteLength_append, Nat.add_assoc]

end Text

open Text (AllBlank BlankBetween byteLength characterAt? slice? splitAt?)

namespace Token

/-- The token stands in the text, from its first byte to its last. -/
def StandsIn (text : List Char) (token : Token) : Prop :=
  slice? text token.position token.finish = some token.text.toList

/-- A token stands in a longer text where its own one does. -/
theorem StandsIn.shifted
    {text : List Char}
    {token : Token}
    (stands : token.StandsIn text)
    (front back : List Char) :
    (token.shifted (byteLength front)).StandsIn (front ++ (text ++ back)) := by
  have finish : (token.shifted (byteLength front)).finish = token.finish + byteLength front := by
    simp [Token.finish, Token.shifted, Nat.add_right_comm]
  rw [StandsIn, finish]
  exact Text.slice?_within front back stands

/-- From one byte position of the text to another there are the tokens, and nothing but
blanks in front of them, between them and behind them. -/
def Tiles (text : List Char) (start : Nat) : List Token → Nat → Prop
  | [], finish => BlankBetween text start finish
  | token :: others, finish =>
      BlankBetween text start token.position ∧ token.text ≠ "" ∧ token.StandsIn text ∧
        Tiles text token.finish others finish

/-- The tokens stand one behind the other, in increasing positions. -/
def Ordered (tokens : List Token) : Prop :=
  tokens.Pairwise fun earlier later =>
    earlier.position < later.position ∧ earlier.finish ≤ later.position

namespace Tiles

variable {text : List Char} {tokens others : List Token} {start middle finish : Nat}

theorem append
    (tiles : Tiles text start tokens middle)
    (continued : Tiles text middle others finish) :
    Tiles text start (tokens ++ others) finish := by
  induction tokens generalizing start with
  | nil =>
      cases others with
      | nil => exact BlankBetween.trans tiles continued
      | cons token others => exact ⟨BlankBetween.trans tiles continued.1, continued.2⟩
  | cons token tokens hypothesis => exact ⟨tiles.1, tiles.2.1, tiles.2.2.1, hypothesis tiles.2.2.2⟩

/-- Each of the tokens stands in the text. -/
theorem standsIn
    (tiles : Tiles text start tokens finish) :
    ∀ token ∈ tokens, token.StandsIn text := by
  induction tokens generalizing start with
  | nil => simp
  | cons token tokens hypothesis =>
      exact List.forall_mem_cons.mpr ⟨tiles.2.2.1, hypothesis tiles.2.2.2⟩

/-- The tokens begin at the start of the tiling or behind it. -/
theorem start_le
    (tiles : Tiles text start tokens finish) :
    ∀ token ∈ tokens, start ≤ token.position := by
  induction tokens generalizing start with
  | nil => simp
  | cons token tokens hypothesis =>
      obtain ⟨gap, _, _, later⟩ := tiles
      refine List.forall_mem_cons.mpr ⟨gap.le, fun other member => ?_⟩
      have behind := hypothesis later other member
      exact Nat.le_trans (Nat.le_trans gap.le (Nat.le_add_right ..)) behind

/-- Tokens that tile a text do not overlap. -/
theorem ordered
    (tiles : Tiles text start tokens finish) :
    Ordered tokens := by
  induction tokens generalizing start with
  | nil => exact .nil
  | cons token tokens hypothesis =>
      obtain ⟨_, nonempty, _, later⟩ := tiles
      have width : 0 < byteLength token.text.toList := by
        cases content : token.text.toList with
        | nil => exact absurd (String.toList_eq_nil_iff.mp content) nonempty
        | cons first rest =>
            have positive := first.utf8Size_pos
            rw [Text.byteLength_cons]
            omega
      refine .cons (fun other member => ?_) (hypothesis later)
      have behind := later.start_le other member
      exact ⟨Nat.lt_of_lt_of_le (Nat.lt_add_of_pos_right width) behind, behind⟩

end Tiles

namespace Cursor

variable {cursor middle after : Cursor} {tokens others : List Token}

/-- Runs that meet are one run. -/
theorem Reads.trans
    (reads : Reads cursor tokens middle)
    (continued : Reads middle others after) :
    Reads cursor (tokens ++ others) after := by
  induction reads with
  | refl cursor => exact continued
  | round nonempty chosen _ hypothesis =>
      rw [List.append_assoc]
      exact .round nonempty chosen (hypothesis continued)

/-- What becomes of a lexeme is the only token at its place, if it becomes one. Only the rule of
blanks emits nothing. -/
theorem emitted_tiles
    {front : List Char}
    {action : Action}
    {length : Nat}
    (place : cursor.position = byteLength front)
    (nonempty : cursor.rest ≠ [])
    (chosen : Rule.choose? cursor.rest = some (action, length)) :
    Tiles (front ++ cursor.rest) cursor.position (cursor.emitted action length)
      (cursor.advance length).position := by
  have split : cursor.rest = cursor.rest.take length ++ cursor.rest.drop length :=
    (List.take_append_drop ..).symm
  have finish : (cursor.advance length).position =
      byteLength (front ++ cursor.rest.take length) := by
    rw [advance, place, Text.byteLength_append]
  cases emits : action.kind? with
  | none =>
      have skipped : action = .skip := by
        cases action <;> first | rfl | contradiction
      subst skipped
      have known : (⟨.skip, .blanks⟩ : Rule) ∈ Rule.table := by simp [Rule.table]
      have applies : Pattern.blanks.measure cursor.rest = some length :=
        Rule.measure?_of_choose? known chosen
      have gap := Text.blankBetween_of_split (Pattern.blanks_within applies) front
        (cursor.rest.drop length)
      rwa [← split, ← place, ← finish] at gap
  | some kind =>
      have lexeme : (String.ofList (cursor.rest.take length)).toList = cursor.rest.take length :=
        String.toList_ofList
      have before := Text.blankBetween_self front cursor.rest
      have behind := Text.blankBetween_self (front ++ cursor.rest.take length)
        (cursor.rest.drop length)
      rw [List.append_assoc, ← split] at behind
      rw [emitted, emits, finish, place]
      refine ⟨before, fun empty => ?_, ?_, ?_⟩
      · have positive := Rule.positive_of_choose? chosen
        have taken := String.toList_eq_nil_iff.mpr empty
        rw [lexeme, List.take_eq_nil_iff] at taken
        exact taken.elim (Nat.ne_of_gt positive) nonempty
      · refine Text.slice?_eq_some_iff.mpr ⟨front, cursor.rest.drop length, ?_, rfl, ?_⟩
        · rw [lexeme, ← split]
        · rfl
      · have ends : Token.finish ⟨kind, String.ofList (cursor.rest.take length), byteLength front⟩ =
            byteLength (front ++ cursor.rest.take length) := by
          rw [Token.finish, lexeme, Text.byteLength_append]
        rwa [ends]

/-- The tokens that a run reads tile the text in front of the cursor that it leaves. -/
theorem Reads.tiles
    (reads : Reads cursor tokens after)
    (front : List Char)
    (place : cursor.position = byteLength front) :
    Tiles (front ++ cursor.rest) cursor.position tokens after.position := by
  induction reads generalizing front with
  | refl cursor =>
      rw [place]
      exact Text.blankBetween_self front cursor.rest
  | @round cursor after action length tokens nonempty chosen later hypothesis =>
      have split : front ++ cursor.rest =
          front ++ cursor.rest.take length ++ (cursor.advance length).rest := by
        rw [List.append_assoc, advance, List.take_append_drop]
      refine (emitted_tiles place nonempty chosen).append ?_
      rw [split]
      apply hypothesis
      rw [advance, place, Text.byteLength_append]

end Cursor

/-- The tokens of a text, or none if it is not read to its end. -/
def ofText (text : List Char) : List Token :=
  (tokenize text).toOption.getD []

/-- Every token of a text stands in it. -/
theorem standsIn_of_mem_ofText
    {text : List Char}
    {token : Token}
    (member : token ∈ ofText text) :
    token.StandsIn text := by
  unfold ofText at member
  cases tokenized : tokenize text with
  | error fault => simp [tokenized, Except.toOption] at member
  | ok tokens =>
      obtain ⟨position, reads⟩ := Cursor.reads_of_tokens_ok tokenized
      rw [tokenized] at member
      exact (reads.tiles [] rfl).standsIn token member

/-- The character that stops the reading is the one at the position that is reported. -/
theorem characterAt?_of_tokenize_error
    {text : List Char}
    {fault : Fault}
    (refused : tokenize text = .error fault) :
    characterAt? text fault.position = some fault.character := by
  obtain ⟨tokens, front, cursor, _, split, place, stuck⟩ := reads_of_tokenize_error refused
  obtain ⟨others, content⟩ := List.head?_eq_some_iff.mp stuck.1
  exact Text.characterAt?_eq_some_iff.mpr ⟨front, others, content ▸ split, place⟩

end Token
end ModelEquation
