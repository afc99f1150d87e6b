import ModelEquation.Proofs.Json.Reach

/-!
# Limits on arrays and objects

A reader that may open fewer arrays and objects than another does the same as long as the text
nests no deeper than it may open. Where the two differ, the text nests deeper, and the first
reader refuses it at the array or object that it may not open. How deep a text nests therefore
decides alone whether a limit matters. The reason for which a text is refused at the limit may be
any, so that it can be told from every other refusal.
-/

namespace ModelEquation
namespace Json
namespace TextReader

variable {α β : Type}

/-- From any depth the reader does what the free one does, or it refuses a text that nests
deeper than the room that is left. -/
def Capped (refusal : Failure) (room : Nat) (reader free : TextReader α) : Prop :=
  ∀ depth input, reader.run input = free.run input ∨
    (reader.run input = .error refusal ∧ depth + room < nestingFrom .outside depth input)

/-- What is left behind a span nests no deeper than the whole. -/
theorem Tracks.nestingFrom_le
    {reader : TextReader α}
    {reached : α → Nat → Prop}
    (tracks : reader.Tracks reached)
    {input rest : List Char}
    {value : α}
    (ran : reader.run input = .ok (value, rest))
    (depth : Nat) :
    nestingFrom .outside depth rest ≤ nestingFrom .outside depth input := by
  obtain ⟨taken, rfl, reach, spans, _⟩ := (tracks input).of_run ran
  rw [spans]
  exact Nat.le_max_right ..

section Rules

variable {refusal : Failure} {room : Nat} {reached : α → Nat → Prop}

theorem capped_refl (reader : TextReader α) : Capped refusal room reader reader :=
  fun _ _ => .inl rfl

/-- What is read first takes its part of the text, and what is read next has the same room as
before. -/
theorem capped_bind
    {first free : TextReader α}
    {next nextFree : α → TextReader β}
    (firsts : Capped refusal room first free)
    (tracks : free.Tracks reached)
    (nexts : ∀ value, Capped refusal room (next value) (nextFree value)) :
    Capped refusal room (first >>= next) (free >>= nextFree) := by
  intro depth input
  rw [Reader.run_bind, Reader.run_bind]
  rcases firsts depth input with same | ⟨refused, deeper⟩
  · rw [same]
    cases ran : free.run input with
    | error failure => exact .inl rfl
    | ok result =>
        obtain ⟨value, rest⟩ := result
        have shallower := tracks.nestingFrom_le ran depth
        rcases nexts value depth rest with again | ⟨refused, deeper⟩
        · exact .inl again
        · exact .inr ⟨refused, Nat.lt_of_lt_of_le deeper shallower⟩
  · rw [refused]
    exact .inr ⟨rfl, deeper⟩

/-- Sequences that go on in the same way. -/
theorem capped_bind_left
    {first free : TextReader α}
    (firsts : Capped refusal room first free)
    (next : α → TextReader β) :
    Capped refusal room (first >>= next) (free >>= next) := by
  intro depth input
  rw [Reader.run_bind, Reader.run_bind]
  rcases firsts depth input with same | ⟨refused, deeper⟩
  · rw [same]
    exact .inl rfl
  · rw [refused]
    exact .inr ⟨rfl, deeper⟩

/-- Sequences that begin in the same way. -/
theorem capped_bind_right
    {first : TextReader α}
    {next nextFree : α → TextReader β}
    (quiet : Quiet .outside first)
    (nexts : ∀ value, Capped refusal room (next value) (nextFree value)) :
    Capped refusal room (first >>= next) (first >>= nextFree) := by
  have tracks : first.Tracks fun _ _ => True := fun input =>
    (quiet input).imp fun _ _ _ _ neutral => ⟨0, neutral.spans, trivial⟩
  exact capped_bind (capped_refl first) tracks nexts

/-- An opening bracket takes one of what may be opened. -/
theorem capped_opened
    {opening : Char}
    (bracket : opening = '[' ∨ opening = '{')
    {reader free : TextReader α}
    (inside : Capped refusal room reader free) :
    Capped refusal (room + 1) (mark opening >>= fun _ => reader) (mark opening >>= fun _ => free) := by
  intro depth input
  rw [Reader.run_bind, Reader.run_bind]
  cases ran : (mark opening).run input with
  | error failure => exact .inl rfl
  | ok result =>
      obtain ⟨_, rest⟩ := result
      have taken : (mark opening).Ensures input
          (fun _ taken _ => ∃ blank, taken = opening :: blank ∧ Neutral .outside blank)
          fun _ => True := by
        refine Reader.ensures_bind ((ensures_char opening input).imp fun _ front middle _ same => ?_)
        refine (quiet_blanks middle).imp fun _ blank _ _ neutral => ⟨blank, ?_, neutral⟩
        rw [same]
        rfl
      obtain ⟨_, rfl, blank, rfl, neutral⟩ := taken.of_run ran
      rcases inside (depth + 1) rest with same | ⟨refused, deeper⟩
      · exact .inl same
      · refine .inr ⟨refused, ?_⟩
        rw [List.cons_append, nestingFrom_opening bracket, neutral]
        omega

/-- After a comma one more part is read. -/
theorem run_afterCommas_comma
    (part : α → TextReader α)
    (start : α)
    (others : List Char) :
    (afterCommas part start).run (',' :: others) =
      ((blanks >>= fun _ => part start) >>= afterCommas part).run others := by
  let opens (next : Char) : Option (α → TextReader α) :=
    if next = ',' then some fun before => blanks >>= fun _ => part before else none
  have opened : opens ',' = some fun before => blanks >>= fun _ => part before := if_pos rfl
  exact Reader.run_extend_of_opened opened start others

/-- Where no comma follows, nothing more is read. -/
theorem run_afterCommas_of_ne
    {symbol : Char}
    (other : symbol ≠ ',')
    (part : α → TextReader α)
    (start : α)
    (others : List Char) :
    (afterCommas part start).run (symbol :: others) = .ok (start, symbol :: others) := by
  apply Reader.run_extend_of_closed
  exact if_neg other

/-- Parts after commas, each of them capped. -/
theorem capped_afterCommas
    {part partFree : α → TextReader α}
    (parts : ∀ before, Capped refusal room (part before) (partFree before))
    (tracks : ∀ before, (partFree before).Tracks fun _ _ => True)
    (start : α) :
    Capped refusal room (afterCommas part start) (afterCommas partFree start) := by
  intro depth input
  induction length : input.length using Nat.strongRecOn generalizing start input with
  | ind size hypothesis =>
      cases input with
      | nil => exact .inl (by rw [afterCommas, afterCommas, Reader.run_extend_nil,
          Reader.run_extend_nil])
      | cons symbol others =>
          by_cases comma : symbol = ','
          · subst comma
            have outside : nestingFrom .outside depth (',' :: others) =
                nestingFrom .outside depth others := by
              simp [nestingFrom]
            have round : Capped refusal room (blanks >>= fun _ => part start)
                (blanks >>= fun _ => partFree start) :=
              capped_bind_right quiet_blanks fun _ => parts start
            have tracked : (blanks >>= fun _ => partFree start).Tracks fun _ _ => True :=
              tracks_bind_of_quiet quiet_blanks fun _ => tracks start
            rw [run_afterCommas_comma, run_afterCommas_comma, outside,
              Reader.run_bind (blanks >>= fun _ => part start),
              Reader.run_bind (blanks >>= fun _ => partFree start)]
            rcases round depth others with same | ⟨refused, deeper⟩
            · rw [same]
              cases ran : (blanks >>= fun _ => partFree start).run others with
              | error failure => exact .inl rfl
              | ok result =>
                  obtain ⟨extended, rest⟩ := result
                  have shorter : rest.length < size := by
                    rw [← length]
                    exact Nat.lt_succ_of_le (Reader.notLonger _ ran)
                  have shallower := tracked.nestingFrom_le ran depth
                  rcases hypothesis rest.length shorter extended rest rfl with again | later
                  · exact .inl again
                  · exact .inr ⟨later.1, Nat.lt_of_lt_of_le later.2 shallower⟩
            · rw [refused]
              exact .inr ⟨rfl, deeper⟩
          · rw [run_afterCommas_of_ne comma, run_afterCommas_of_ne comma]
            exact .inl rfl

end Rules

/-! ## Values -/

section Values

variable {refusal : Failure} {room : Nat} {item itemFree : TextReader Value}

/-- An array takes one level of room more than its items. -/
theorem capped_items
    (each : Capped refusal room item itemFree)
    (tracks : itemFree.Tracks fun _ _ => True) :
    Capped refusal (room + 1) (items item) (items itemFree) := by
  apply capped_opened (.inl rfl)
  refine capped_bind_right (quiet_sees ']') fun closed => ?_
  split
  · exact capped_refl _
  · refine capped_bind each tracks fun first => capped_bind_left ?_ _
    apply capped_afterCommas
    · exact fun before => capped_bind_left each _
    · exact fun before => tracks_bind tracks fun _ _ _ => tracks_pure trivial

section Members

variable {lexis : Lexis} (tracked : lexis.Tracked)

include tracked

theorem capped_members
    {member memberFree : String → α → TextReader α}
    (each : ∀ name before, Capped refusal room (member name before) (memberFree name before))
    (tracks : ∀ name before, (memberFree name before).Tracks fun _ _ => True)
    (start : α) :
    Capped refusal (room + 1) (members lexis member start) (members lexis memberFree start) := by
  have named (before : α) :
      Capped refusal room (namedMember lexis member before)
        (namedMember lexis memberFree before) :=
    capped_bind_right (quiet_string tracked) fun name => each name before
  have tracksNamed (before : α) :
      (namedMember lexis memberFree before).Tracks fun _ _ => True :=
    tracks_bind_of_quiet (quiet_string tracked) fun name => tracks name before
  rw [members_eq, members_eq]
  apply capped_opened (.inr rfl)
  refine capped_bind_right (quiet_sees '}') fun closed => ?_
  split
  · exact capped_refl _
  · refine capped_bind (named start) (tracksNamed start) fun first => capped_bind_left ?_ _
    exact capped_afterCommas named tracksNamed first

theorem capped_plainMembers
    (each : Capped refusal room item itemFree)
    (tracks : itemFree.Tracks fun _ _ => True) :
    Capped refusal (room + 1) (members lexis (plainMember item) [])
      (members lexis (plainMember itemFree) []) := by
  have colon : Quiet .outside (mark ':') := quiet_mark (by decide)
  apply capped_members tracked
  · exact fun name before => capped_bind_right colon fun _ => capped_bind_left each _
  · exact fun name before => tracks_bind_of_quiet colon fun _ =>
      tracks_bind tracks fun _ _ _ => tracks_pure trivial

theorem capped_valueBody
    (each : Capped refusal room item itemFree)
    (tracks : itemFree.Tracks fun _ _ => True) :
    Capped refusal (room + 1) (valueBody lexis item) (valueBody lexis itemFree) := by
  unfold valueBody
  refine capped_bind_right (quiet_sees '[') fun array => ?_
  split
  · exact capped_bind_left (capped_items each tracks) _
  · refine capped_bind_right (quiet_sees '{') fun object => ?_
    split
    · exact capped_bind_left (capped_plainMembers tracked each tracks) _
    · exact capped_refl _

end Members

/-- A value when a number of arrays and objects may still be opened. The first one beyond that
is refused for the given reason. -/
def limitedValue (refusal : Failure) (lexis : Lexis) : Nat → TextReader Value
  | 0 => do if ← seesContainer then refuse refusal else scalar lexis
  | room + 1 => valueBody lexis (limitedValue refusal lexis room)

/-- Values are refused as malformed where nothing more may be opened. -/
theorem value_eq_limitedValue (lexis : Lexis) (room : Nat) :
    value lexis room = limitedValue .malformed lexis room := by
  induction room with
  | zero => rfl
  | succ room hypothesis =>
      rw [limitedValue, ← hypothesis]
      rfl

/-- No more arrays and objects stand one in another in a value than could be opened. -/
theorem returns_limitedValue
    {lexis : Lexis}
    (tracked : lexis.Tracked)
    (refusal : Failure)
    (room : Nat) :
    (limitedValue refusal lexis room).Returns fun value => value.containers ≤ room := by
  induction room with
  | zero =>
      refine Reader.returns_bind (Reader.returns_any _) fun opens _ => ?_
      split
      · exact Reader.returns_fail _
      · exact returns_flatScalar tracked 0
  | succ room hypothesis => exact returns_valueBody tracked hypothesis

/-- More that may be opened changes nothing as long as the text does not nest too deeply for
what may be opened at least. -/
theorem capped_limitedValue
    {lexis : Lexis}
    (tracked : lexis.Tracked)
    (refusal : Failure)
    (room more : Nat)
    (larger : room ≤ more) :
    Capped refusal room (limitedValue refusal lexis room) (value lexis more) := by
  induction room generalizing more with
  | zero =>
      intro depth input
      by_cases array : input.head? = some '['
      · obtain ⟨others, rfl⟩ := List.head?_eq_some_iff.mp array
        refine .inr ⟨by simp [limitedValue, run_seesContainer, refuse], ?_⟩
        rw [nestingFrom_opening (.inl rfl)]
        omega
      by_cases object : input.head? = some '{'
      · obtain ⟨others, rfl⟩ := List.head?_eq_some_iff.mp object
        refine .inr ⟨by simp [limitedValue, run_seesContainer, refuse], ?_⟩
        rw [nestingFrom_opening (.inr rfl)]
        omega
      · refine .inl ?_
        cases more <;>
          simp [limitedValue, value, flatValue, valueBody, run_seesContainer, run_sees, array,
            object]
  | succ room hypothesis =>
      obtain ⟨below, rfl⟩ := Nat.exists_eq_add_of_lt larger
      have tracks : (value lexis (room + below)).Tracks fun _ _ => True :=
        (tracks_value tracked _).imp fun _ _ _ => trivial
      exact capped_valueBody tracked (hypothesis _ (Nat.le_add_right room below)) tracks

/-- A value is read in the same way with more room, unless the text nests deeper than the room.
-/
theorem capped_value
    {lexis : Lexis}
    (tracked : lexis.Tracked)
    {room more : Nat}
    (larger : room ≤ more) :
    Capped .malformed room (value lexis room) (value lexis more) := by
  rw [value_eq_limitedValue lexis room]
  exact capped_limitedValue tracked .malformed room more larger

end Values

/-- A whole text that is read with a limit is read as without it, or nests deeper. -/
theorem document_eq_or
    {refusal : Failure}
    {room : Nat}
    {reader free : TextReader α}
    (capped : Capped refusal room reader free)
    (text : List Char) :
    document reader text = document free text ∨
      (document reader text = .error refusal ∧ room < nesting text) := by
  let ended (result : α) : TextReader α := do
    if (← Reader.peek).isNone then pure result else refuse .malformed
  have whole : Capped refusal room (blanks >>= fun _ => reader >>= ended)
      (blanks >>= fun _ => free >>= ended) :=
    capped_bind_right quiet_blanks fun _ => capped_bind_left capped _
  rcases whole 0 text with same | ⟨refused, deeper⟩
  · exact .inl (congrArg (Except.map Prod.fst) same)
  · rw [Nat.zero_add] at deeper
    exact .inr ⟨congrArg (Except.map Prod.fst) refused, deeper⟩

end TextReader

/-! ## Whole texts -/

/-- A text that denotes a value nests as deep as the value, and no deeper than the limit. -/
theorem nesting_of_parseWithin
    {containers : Nat}
    {text : List Char}
    {value : Value}
    (read : parseWithin containers text = .ok value) :
    nesting text = value.containers ∧ value.containers ≤ containers :=
  ⟨TextReader.reached_of_document (TextReader.tracks_value TextReader.strict_tracked containers) read,
    TextReader.returns_value TextReader.strict_tracked containers
      (TextReader.document_eq_ok_iff.mp read)⟩

/-- A value that is read within some limit is read within exactly those limits that the text
does not nest beyond, and otherwise the text is refused as malformed. -/
theorem parseWithin_of_ok
    {text : List Char}
    {more : Nat}
    {value : Value}
    (read : parseWithin more text = .ok value)
    (containers : Nat) :
    parseWithin containers text =
      if nesting text ≤ containers then .ok value else .error .malformed := by
  obtain ⟨nests, fits⟩ := nesting_of_parseWithin read
  have capped {lower higher : Nat} (larger : lower ≤ higher) :
      parseWithin lower text = parseWithin higher text ∨
        (parseWithin lower text = .error .malformed ∧ lower < nesting text) :=
    TextReader.document_eq_or (TextReader.capped_value TextReader.strict_tracked larger) text
  by_cases within : nesting text ≤ containers
  · rw [if_pos within]
    rcases Nat.le_total containers more with larger | larger
    · rcases capped larger with same | ⟨_, deeper⟩
      · exact same.trans read
      · omega
    · rcases capped larger with same | ⟨_, deeper⟩
      · exact same.symm.trans read
      · omega
  · rw [if_neg within]
    have larger : containers ≤ more := by omega
    rcases capped larger with same | ⟨refused, _⟩
    · have bound := (nesting_of_parseWithin (same.trans read)).2
      omega
    · exact refused

end Json
end ModelEquation
