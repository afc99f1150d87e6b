import ModelEquation.Json.Document
import ModelEquation.Proofs.Json.Tracking

/-!
# How deep a value nests that is read

The part of a text that a value is read from is a span which reaches exactly as far as the
arrays and objects of the value stand one in another. This holds for a value that is passed
over, too, and so a text nests as deep as the value that it denotes.
-/

namespace ModelEquation
namespace Json

/-- The numbers and the code units of the lexis open nothing. -/
structure Lexis.Tracked (lexis : Lexis) : Prop where
  number : TextReader.Quiet .outside lexis.number
  flat : lexis.number.Returns fun value => value.containers = 0
  unicode : TextReader.Quiet .inString lexis.unicode

namespace TextReader

variable {α β : Type}

/-- In strict reading numbers and code units open nothing. -/
theorem strict_tracked : Lexis.strict.Tracked where
  number := quiet_of_scans (scans_number follows_nil)
  flat := by
    refine Reader.returns_bind (Reader.returns_any _) fun numeral _ => ?_
    split
    · next value known =>
        apply Reader.returns_pure
        unfold Numeral.value? at known
        split at known
        · cases known
          rfl
        · obtain ⟨double, _, rfl⟩ := Option.map_eq_some_iff.mp known
          rfl
    · exact Reader.returns_fail _
  unicode := quiet_codePoint

/-- In lenient reading numbers and code units open nothing. -/
theorem lenient_tracked : Lexis.lenient.Tracked where
  number := quiet_bind (quiet_of_scans (scans_numeral follows_nil .malformed)) fun _ => quiet_pure _
  flat := Reader.returns_bind (Reader.returns_any _) fun _ _ => Reader.returns_pure rfl
  unicode := quiet_anyCodeUnit

/-! ## Brackets -/

/-- Where the reader returns, it has taken a span, the closing bracket after it and something
that is neutral. -/
def Closes (closing : Char) (reader : TextReader α) (reached : α → Nat → Prop) : Prop :=
  ∀ input, reader.Ensures input
    (fun value taken _ => ∃ inside after reach, taken = inside ++ closing :: after ∧
      Spans inside reach ∧ Neutral .outside after ∧ reached value reach) fun _ => True

section Rules

variable {reached : α → Nat → Prop} {wanted : β → Nat → Prop} {closing : Char}

/-- The closing bracket closes what has been opened. -/
theorem closes_mark
    {value : α}
    (holds : reached value 0) :
    Closes closing (mark closing >>= fun _ => pure value) reached := by
  intro input
  refine Reader.ensures_bind (Reader.ensures_bind
    ((ensures_char closing input).imp fun _ taken middle _ same => ?_))
  refine (quiet_blanks middle).imp fun _ after _ _ neutral => ?_
  apply Reader.ensures_pure
  refine ⟨[], after, 0, ?_, spans_nil, neutral, holds⟩
  rw [same, List.append_nil]
  rfl

theorem closes_fail (reason : List Char → Failure) :
    Closes closing (.fail reason : TextReader α) reached :=
  fun _ => trivial

/-- What is opened one after the other reaches as far as the deeper one. -/
theorem closes_bind
    {first : TextReader α}
    {next : α → TextReader β}
    (firsts : first.Tracks reached)
    (nexts : ∀ value reach, reached value reach →
      Closes closing (next value) fun result more => wanted result (max reach more)) :
    Closes closing (first >>= next) wanted := by
  intro input
  refine Reader.ensures_bind ((firsts input).imp fun value taken middle _ holds => ?_)
  obtain ⟨reach, spans, known⟩ := holds
  refine (nexts value reach known middle).imp fun result more _ _ later => ?_
  obtain ⟨inside, after, own, split, further, neutral, result⟩ := later
  refine ⟨taken ++ inside, after, max reach own, ?_, spans.append further, neutral, result⟩
  rw [split, List.append_assoc]

/-- What opens nothing may come first. -/
theorem closes_bind_of_quiet
    {first : TextReader α}
    {next : α → TextReader β}
    (quiet : Quiet .outside first)
    (nexts : ∀ value, Closes closing (next value) wanted) :
    Closes closing (first >>= next) wanted := by
  intro input
  refine Reader.ensures_bind ((quiet input).imp fun value taken middle _ neutral => ?_)
  refine (nexts value middle).imp fun result more _ _ later => ?_
  obtain ⟨inside, after, own, split, further, behind, result⟩ := later
  refine ⟨taken ++ inside, after, own, ?_, further.neutral_append neutral, behind, result⟩
  rw [split, List.append_assoc]

/-- Brackets around what is read reach one further. -/
theorem tracks_enclosed
    {opening : Char}
    (brackets : (opening, closing) = ('[', ']') ∨ (opening, closing) = ('{', '}'))
    {reader : TextReader α}
    (closes : Closes closing reader reached) :
    (mark opening >>= fun _ => reader).Tracks fun value reach =>
      ∃ inside, reach = inside + 1 ∧ reached value inside := by
  intro input
  refine Reader.ensures_bind (Reader.ensures_bind
    ((ensures_char opening input).imp fun _ start middle _ same => ?_))
  refine (quiet_blanks middle).imp fun _ blank rest _ neutral => ?_
  refine (closes rest).imp fun value taken _ _ holds => ?_
  obtain ⟨inside, after, reach, split, spans, behind, known⟩ := holds
  refine ⟨reach + 1, ?_, reach, rfl, known⟩
  have whole := ((spans.neutral_append neutral).enclosed brackets).append_neutral behind
  rw [same, split]
  simpa using whole

/-- Parts after commas reach as far as the one that reaches furthest. -/
theorem tracks_afterCommas
    {part : α → TextReader α}
    (parts : ∀ before reach, reached before reach →
      (part before).Tracks fun after more => reached after (max reach more))
    {start : α}
    {reach : Nat}
    (started : reached start reach) :
    (afterCommas part start).Tracks fun result more => reached result (max reach more) := by
  intro input
  refine Reader.Ensures.imp (Reader.ensures_extend
    (fun value before _ => ∃ more, Spans before more ∧ reached value (max reach more))
    (fun symbol continuation value before others opened known => ?_)
    ⟨0, spans_nil, by rwa [Nat.max_zero]⟩)
    fun _ taken _ _ holds => holds.1
  split at opened
  · next comma =>
      cases opened
      obtain ⟨more, spans, holds⟩ := known
      refine Reader.ensures_bind ((quiet_blanks others).imp fun _ blank middle _ neutral => ?_)
      refine (parts value _ holds middle).imp fun after taken _ _ later => ?_
      obtain ⟨own, further, result⟩ := later
      have separator : Neutral .outside [symbol] := by
        rw [comma]
        exact neutral_of_isPlain (by decide)
      have behind := spans.append ((further.neutral_append neutral).neutral_append separator)
      refine ⟨max more own, ?_, ?_⟩
      · simpa using behind
      · rwa [Nat.max_assoc] at result
  · contradiction

end Rules

/-! ## Values -/

/-- The items of an array reach as far as the one that reaches furthest, and one further. -/
theorem tracks_items
    {item : TextReader Value}
    (each : item.Tracks fun value reach => reach = value.containers) :
    (items item).Tracks fun values reach => reach = (Value.array values).containers := by
  have part (before : List Value) (reach : Nat) (known : reach = Value.itemContainers before) :
      (item >>= fun value => pure (value :: before)).Tracks fun after more =>
        max reach more = Value.itemContainers after :=
    tracks_bind each fun value own same => tracks_pure <| by
      rw [known, same, Nat.max_zero, Value.itemContainers, Nat.max_comm]
  have whole : (items item).Tracks fun values reach =>
      ∃ inside, reach = inside + 1 ∧ inside = Value.itemContainers values := by
    apply tracks_enclosed (.inl rfl)
    refine closes_bind_of_quiet (quiet_sees ']') fun closed => ?_
    cases closed with
    | true => exact closes_mark rfl
    | false =>
        refine closes_bind each fun first reach known => ?_
        have started : reach = Value.itemContainers [first] := by
          rw [known, Value.itemContainers, Value.itemContainers, Nat.max_zero]
        refine closes_bind (tracks_afterCommas part started) fun reversed more same => ?_
        exact closes_mark (by rw [Nat.max_zero, same, Value.itemContainers_reverse])
  refine whole.imp fun values reach holds => ?_
  obtain ⟨inside, same, known⟩ := holds
  rw [same, known, Value.containers]

section Values

variable {lexis : Lexis} (tracked : lexis.Tracked)

include tracked

/-- A string opens nothing. -/
theorem quiet_string : Quiet .outside (string lexis) :=
  quiet_bind (quiet_quoted tracked.unicode) fun _ =>
    quiet_bind quiet_blanks fun _ => quiet_pure _

/-- A scalar opens nothing. -/
theorem quiet_scalar : Quiet .outside (scalar lexis) := by
  have peek : Quiet .outside (Reader.peek : TextReader (Option Char)) :=
    fun _ => ⟨[], rfl, neutral_nil _⟩
  refine quiet_bind peek fun next => ?_
  split
  · exact quiet_word (by decide) _
  · exact quiet_word (by decide) _
  · exact quiet_word (by decide) _
  · exact quiet_bind (quiet_string tracked) fun _ => quiet_pure _
  · split
    · exact quiet_bind tracked.number fun _ => quiet_bind quiet_blanks fun _ => quiet_pure _
    · exact quiet_fail _
  · exact quiet_fail _

/-- A scalar opens nothing. -/
theorem returns_scalar : (scalar lexis).Returns fun value => value.containers = 0 := by
  have word (letters : List Char) {value : Value} (flat : value.containers = 0) :
      (word letters value).Returns fun value => value.containers = 0 :=
    Reader.returns_bind (Reader.returns_any _) fun _ _ =>
      Reader.returns_bind (Reader.returns_any _) fun _ _ => Reader.returns_pure flat
  refine Reader.returns_bind (Reader.returns_any _) fun next _ => ?_
  split
  · exact word _ rfl
  · exact word _ rfl
  · exact word _ rfl
  · exact Reader.returns_bind (Reader.returns_any _) fun _ _ => Reader.returns_pure rfl
  · split
    · exact Reader.returns_bind tracked.flat fun _ flat =>
        Reader.returns_bind (Reader.returns_any _) fun _ _ => Reader.returns_pure flat
    · exact Reader.returns_fail _
  · exact Reader.returns_fail _

theorem tracks_scalar : (scalar lexis).Tracks fun value reach => reach = value.containers :=
  (quiet_scalar tracked).tracks ((returns_scalar tracked).imp fun _ flat => flat.symm)

/-- The members of an object, each of which reaches as far as the reader of a member says. -/
theorem tracks_members
    {member : String → α → TextReader α}
    {reached : α → Nat → Prop}
    (each : ∀ name before reach, reached before reach →
      (member name before).Tracks fun after more => reached after (max reach more))
    {start : α}
    (started : reached start 0) :
    (members lexis member start).Tracks fun result reach =>
      ∃ inside, reach = inside + 1 ∧ reached result inside := by
  have named (before : α) (reach : Nat) (known : reached before reach) :
      (namedMember lexis member before).Tracks fun after more => reached after (max reach more) :=
    tracks_bind_of_quiet (quiet_string tracked) fun name => each name before reach known
  rw [members_eq]
  apply tracks_enclosed (.inr rfl)
  refine closes_bind_of_quiet (quiet_sees '}') fun closed => ?_
  cases closed with
  | true => exact closes_mark started
  | false =>
      refine closes_bind (named start 0 started) fun first reach known => ?_
      rw [Nat.zero_max] at known
      refine closes_bind (tracks_afterCommas named known) fun last more holds => ?_
      exact closes_mark (by rwa [Nat.max_zero])

/-- The members of a plain object. -/
theorem tracks_plainMembers
    {inner : TextReader Value}
    (each : inner.Tracks fun value reach => reach = value.containers) :
    (members lexis (plainMember inner) []).Tracks fun members reach =>
      reach = (Value.object members.reverse).containers := by
  have member (name : String) (before : List (String × Value)) (reach : Nat)
      (known : reach = Value.memberContainers before) :
      (plainMember inner name before).Tracks fun after more =>
        max reach more = Value.memberContainers after :=
    tracks_bind_of_quiet (quiet_mark (by decide)) fun _ =>
      tracks_bind each fun value own same => tracks_pure <| by
        rw [known, same, Nat.max_zero, Value.memberContainers, Nat.max_comm]
  refine (tracks_members tracked member rfl).imp fun members reach holds => ?_
  obtain ⟨inside, same, known⟩ := holds
  rw [same, known, Value.containers, Value.memberContainers_reverse]

/-- What a value is read from reaches exactly as far as the value. -/
theorem tracks_value (budget : Nat) :
    (value lexis budget).Tracks fun value reach => reach = value.containers := by
  induction budget with
  | zero =>
      refine tracks_bind_of_quiet (quiet_bind (quiet_sees '[') fun _ =>
        quiet_bind (quiet_sees '{') fun _ => quiet_pure _) fun opens => ?_
      cases opens with
      | true => exact tracks_fail _
      | false => exact tracks_scalar tracked
  | succ budget hypothesis =>
      change (valueBody lexis (value lexis budget)).Tracks _
      refine tracks_bind_of_quiet (quiet_sees '[') fun array => ?_
      cases array with
      | true =>
          exact tracks_bind (tracks_items hypothesis) fun values reach known =>
            tracks_pure (by rw [Nat.max_zero, known])
      | false =>
          refine tracks_bind_of_quiet (quiet_sees '{') fun object => ?_
          cases object with
          | true =>
              exact tracks_bind (tracks_plainMembers tracked hypothesis) fun members reach known =>
                tracks_pure (by rw [Nat.max_zero, known])
          | false => exact tracks_scalar tracked

end Values

/-! ## Bounds on what may be opened -/

section Bounds

variable {property : α → Prop}

/-- Values that come after commas have a property if those before do and each of them has. -/
theorem returns_afterCommas
    {part : α → TextReader α}
    (parts : ∀ before, property before → (part before).Returns property)
    {start : α}
    (started : property start) :
    (afterCommas part start).Returns property := by
  refine Reader.returns_extend (fun symbol continuation before opened holds => ?_) started
  split at opened
  · cases opened
    exact Reader.returns_bind (Reader.returns_any _) fun _ _ => parts before holds
  · contradiction

/-- A property that each member keeps holds of what all of them make. -/
theorem returns_members
    {lexis : Lexis}
    {member : String → α → TextReader α}
    (each : ∀ name before, property before → (member name before).Returns property)
    {start : α}
    (started : property start) :
    (members lexis member start).Returns property := by
  have named (before : α) (holds : property before) :
      (namedMember lexis member before).Returns property :=
    Reader.returns_bind (Reader.returns_any _) fun name _ => each name before holds
  rw [members_eq]
  refine Reader.returns_bind (Reader.returns_any _) fun _ _ =>
    Reader.returns_bind (Reader.returns_any _) fun closed _ => ?_
  split
  · exact Reader.returns_bind (Reader.returns_any _) fun _ _ => Reader.returns_pure started
  · refine Reader.returns_bind (named start started) fun first own => ?_
    refine Reader.returns_bind (returns_afterCommas named own) fun last bound => ?_
    exact Reader.returns_bind (Reader.returns_any _) fun _ _ => Reader.returns_pure bound

/-- Items that nest within a bound are returned together within it. -/
theorem returns_items
    {item : TextReader Value}
    {budget : Nat}
    (each : item.Returns fun value => value.containers ≤ budget) :
    (items item).Returns fun values => Value.itemContainers values ≤ budget := by
  have part (before : List Value) (bound : Value.itemContainers before ≤ budget) :
      (item >>= fun value => pure (value :: before)).Returns fun after =>
        Value.itemContainers after ≤ budget :=
    Reader.returns_bind each fun value own => Reader.returns_pure (Nat.max_le.mpr ⟨own, bound⟩)
  refine Reader.returns_bind (Reader.returns_any _) fun _ _ =>
    Reader.returns_bind (Reader.returns_any _) fun closed _ => ?_
  split
  · exact Reader.returns_bind (Reader.returns_any _) fun _ _ =>
      Reader.returns_pure (Nat.zero_le _)
  · refine Reader.returns_bind each fun first own => ?_
    have started : Value.itemContainers [first] ≤ budget :=
      Nat.max_le.mpr ⟨own, Nat.zero_le _⟩
    refine Reader.returns_bind (returns_afterCommas part started) fun reversed bound => ?_
    exact Reader.returns_bind (Reader.returns_any _) fun _ _ =>
      Reader.returns_pure (by rwa [Value.itemContainers_reverse])

end Bounds

section

variable {lexis : Lexis} (tracked : lexis.Tracked)

include tracked

theorem returns_flatScalar (budget : Nat) :
    (scalar lexis).Returns fun value => value.containers ≤ budget :=
  (returns_scalar tracked).imp fun _ flat => flat ▸ Nat.zero_le budget

/-- A value goes one deeper than the values in it. -/
theorem returns_valueBody
    {inner : TextReader Value}
    {budget : Nat}
    (each : inner.Returns fun value => value.containers ≤ budget) :
    (valueBody lexis inner).Returns fun value => value.containers ≤ budget + 1 := by
  refine Reader.returns_bind (Reader.returns_any _) fun array _ => ?_
  split
  · exact Reader.returns_bind (returns_items each) fun values bound =>
      Reader.returns_pure (Nat.succ_le_succ bound)
  · refine Reader.returns_bind (Reader.returns_any _) fun object _ => ?_
    split
    · have member (name : String) (before : List (String × Value))
          (bound : Value.memberContainers before ≤ budget) :
          (plainMember inner name before).Returns fun after =>
            Value.memberContainers after ≤ budget :=
        Reader.returns_bind (Reader.returns_any _) fun _ _ =>
          Reader.returns_bind each fun value own =>
            Reader.returns_pure (Nat.max_le.mpr ⟨own, bound⟩)
      refine Reader.returns_bind (returns_members member (Nat.zero_le _)) fun members bound =>
        Reader.returns_pure ?_
      rw [Value.containers, Value.memberContainers_reverse]
      exact Nat.succ_le_succ bound
    · exact returns_flatScalar tracked (budget + 1)

/-- No more arrays and objects stand one in another in a value than could be opened. -/
theorem returns_value (budget : Nat) :
    (value lexis budget).Returns fun value => value.containers ≤ budget := by
  induction budget with
  | zero =>
      refine Reader.returns_bind (Reader.returns_any _) fun opens _ => ?_
      split
      · exact Reader.returns_fail _
      · exact returns_flatScalar tracked 0
  | succ budget hypothesis => exact returns_valueBody tracked hypothesis

end

/-! ## Documents -/

/-- A text is read as a whole by the reader behind the blanks in front. -/
theorem document_eq_ok_iff
    {reader : TextReader α}
    {text : List Char}
    {result : α} :
    document reader text = .ok result ↔
      reader.run (text.dropWhile isBlank) = .ok (result, []) := by
  have blank : blanks.run text = .ok ((), text.dropWhile isBlank) := rfl
  rw [document, Reader.run_bind, blank]
  dsimp only
  rw [Reader.run_bind]
  split
  · next failure failed => simp [failed, Except.map]
  · next value rest ran =>
      rw [ran, Reader.run_bind, Reader.run_peek]
      cases rest with
      | nil => simp [Except.map]
      | cons next others => simp [Except.map, refuse]

/-- A text that is read as a whole nests as deep as what was read reaches. -/
theorem reached_of_document
    {reader : TextReader α}
    {reached : α → Nat → Prop}
    (tracks : reader.Tracks reached)
    {text : List Char}
    {result : α}
    (read : document reader text = .ok result) :
    reached result (nesting text) := by
  obtain ⟨taken, split, reach, spans, known⟩ := (tracks _).of_run (document_eq_ok_iff.mp read)
  have whole := spans.neutral_append (neutral_takeWhile_isBlank text)
  rw [List.append_nil] at split
  rw [← split, List.takeWhile_append_dropWhile] at whole
  rwa [whole.nesting_eq]

end TextReader

/-- A text is read if it does not nest beyond the limit and is read as a whole. -/
theorem read_eq_ok_iff
    {α : Type}
    {reader : Nat → TextReader α}
    {options : Options}
    {text : List Char}
    {result : α} :
    read reader options text = .ok result ↔
      nesting text ≤ nestingLimit options ∧
        TextReader.document (reader text.length) text = .ok result := by
  unfold read
  split
  · next beyond =>
      constructor
      · intro refused
        contradiction
      · exact fun accepted => absurd accepted.1 (Nat.not_le.mpr beyond)
  · next within =>
      rw [and_iff_right (Nat.not_lt.mp within)]
      cases TextReader.document (reader text.length) text with
      | ok found =>
          change (Except.ok found : Except Fault α) = .ok result ↔ _
          rw [Except.ok.injEq, Except.ok.injEq]
      | error failure =>
          change (Except.error (.failure failure) : Except Fault α) = .ok result ↔ _
          simp

end Json
end ModelEquation
