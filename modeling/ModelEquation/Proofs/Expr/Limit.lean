import ModelEquation.Proofs.Expr.Stability
import ModelEquation.Proofs.Json.Budget

/-!
# Readers that stop at a limit

The reading of a value, of an expression and of an equation, each with a bound on the arrays and
objects that are open at a time and with a reason of its own for stopping there. On a text that
nests no deeper than the bound the reader never stops for that reason, well-formed or not: the
outcome is the one without the bound, whatever the reason. A text that is one value nests exactly
as deep as the value, and any smaller bound stops the reader.
-/

namespace ModelEquation

open Json (Failure Value)
open Json.TextReader

namespace Json
namespace TextReader

variable {α : Type}

/-- Reads an array or object by a reader that is told how many more may be opened in it, or
stops for the given reason if none may. -/
def limitedWithin (refusal : Failure) (reader : Nat → TextReader α) : Nat → TextReader α
  | 0 => refuse refusal
  | room + 1 => reader room

/-- To run out of room is to meet a malformed text. -/
theorem within_eq_limitedWithin (reader : Nat → TextReader α) :
    within reader = limitedWithin .malformed reader := by
  funext room
  cases room <;> rfl

/-- What is read from an opening bracket on takes one of what may be opened. -/
theorem capped_within
    {opening : Char}
    (bracket : opening = '[' ∨ opening = '{')
    {refusal : Failure}
    {room more : Nat}
    (larger : room ≤ more)
    {reader readerFree : Nat → TextReader α}
    (inside : ∀ inner innerMore, inner ≤ innerMore →
      Capped refusal (inner + 1) (reader inner) (readerFree innerMore))
    {other otherFree : TextReader α}
    (others : Capped refusal room other otherFree) :
    Capped refusal room
      (sees opening >>= fun open? =>
        if open? = true then limitedWithin refusal reader room else other)
      (sees opening >>= fun open? =>
        if open? = true then within readerFree more else otherFree) := by
  intro depth input
  rw [Reader.run_bind, Reader.run_bind, run_sees]
  by_cases opens : input.head? = some opening
  · rw [decide_eq_true opens]
    obtain ⟨rest, rfl⟩ := List.head?_eq_some_iff.mp opens
    cases room with
    | zero =>
        refine .inr ⟨rfl, ?_⟩
        rw [nestingFrom_opening bracket]
        omega
    | succ inner =>
        obtain ⟨innerMore, rfl⟩ := Nat.exists_eq_add_one_of_ne_zero (Nat.ne_zero_of_lt larger)
        exact inside inner innerMore (Nat.le_of_succ_le_succ larger) depth (opening :: rest)
  · rw [decide_eq_false opens]
    exact others depth input

/-! ## Whole texts -/

section Documents

variable {limited : Failure → Nat → TextReader α} {reader : Nat → TextReader α}
  (capped : ∀ refusal room more, room ≤ more →
    Capped refusal room (limited refusal room) (reader more))
  (same : reader = limited .malformed)

include capped same

/-- The bound does not matter for a text that nests no deeper, and so neither does the reason
for stopping there. Both readers are compared with the one that may open as much as either of
them. -/
theorem document_limited
    {text : List Char}
    {room : Nat}
    (within : nesting text ≤ room)
    (refusal : Failure) :
    document (limited refusal room) text = document (reader text.length) text := by
  have bounded : document (limited refusal room) text =
      document (reader (max room text.length)) text := by
    rcases document_eq_or (capped refusal _ _ (Nat.le_max_left room text.length)) text with
      equal | ⟨_, deeper⟩
    · exact equal
    · exact absurd within (Nat.not_le.mpr deeper)
  have free : document (reader text.length) text =
      document (reader (max room text.length)) text := by
    rcases document_eq_or (capped .malformed _ _ (Nat.le_max_right room text.length)) text with
      equal | ⟨_, deeper⟩
    · rwa [← same] at equal
    · exact absurd (nesting_le_length text) (Nat.not_le.mpr deeper)
  exact bounded.trans free.symm

/-- A bound that is no smaller than the limit on nesting changes nothing for a text within the
limit. -/
theorem read_limited
    {options : Options}
    {text : List Char}
    {room : Nat}
    (wide : nestingLimit options ≤ room)
    (within : nesting text ≤ nestingLimit options)
    (refusal : Failure) :
    (document (limited refusal room) text).mapError Fault.failure = read reader options text := by
  rw [document_limited capped same (Nat.le_trans within wide), read,
    if_neg (Nat.not_lt.mpr within)]

end Documents

/-- A text that is one value nests as deep as the value, and a smaller bound stops the reader. -/
theorem nesting_of_document_value
    {lexis : Lexis}
    (tracked : lexis.Tracked)
    {text : List Char}
    {found : Value}
    (read : document (value lexis text.length) text = .ok found) :
    nesting text = found.containers ∧
      ∀ refusal, ∀ room < nesting text,
        document (limitedValue refusal lexis room) text = .error refusal := by
  have reaches : nesting text = found.containers :=
    reached_of_document (tracks_value tracked text.length) read
  refine ⟨reaches, fun refusal room deeper => ?_⟩
  have larger : room ≤ text.length := Nat.le_trans (Nat.le_of_lt deeper) (nesting_le_length text)
  rcases document_eq_or (capped_limitedValue tracked refusal room text.length larger) text with
    equal | ⟨refused, _⟩
  · have bound := returns_limitedValue tracked refusal room
      (document_eq_ok_iff.mp (equal.trans read))
    rw [reaches] at deeper
    exact absurd bound (Nat.not_le.mpr deeper)
  · exact refused

end TextReader
end Json

namespace Expr

/-- Reads an expression when a number of arrays and objects may still be opened, and stops at
the first one beyond that for the given reason. -/
def limitedReader (refusal : Failure) (room : Nat) : Json.TextReader Expr := do
  if ← sees '{' then
    limitedWithin refusal (fun inner => readObject (limitedValue refusal .strict inner)) room
  else if ← sees '[' then
    limitedWithin refusal (fun inner => readArray (limitedValue refusal .strict inner)) room
  else
    let _ ← scalar .strict
    refuse .misfit

/-- The reader of expressions is the limited one that takes running out of room for a malformed
text. -/
theorem jsonReader_eq_limitedReader : jsonReader = limitedReader .malformed := by
  funext room
  simp only [jsonReader, limitedReader, within_eq_limitedWithin, value_eq_limitedValue]

variable {refusal : Failure} {room : Nat} {inner innerFree : Json.TextReader Value}

/-- An expression in an object takes one level of room more than its parts. -/
theorem capped_readObject
    (each : Capped refusal room inner innerFree)
    (tracks : innerFree.Tracks fun _ _ => True) :
    Capped refusal (room + 1) (readObject inner) (readObject innerFree) := by
  have colon : Quiet .outside (mark ':') := quiet_mark (by decide)
  refine capped_bind_left (capped_members strict_tracked (fun name before => ?_)
    (fun name before => ?_) _) _
  · unfold pendingMember
    split
    · exact capped_refl _
    · exact capped_bind_right colon fun _ => capped_bind_left each _
  · unfold pendingMember
    split
    · split
      · exact tracks_fail _
      · exact tracks_bind_of_quiet colon fun _ =>
          tracks_bind (tracks_scalarAs _) fun _ _ _ => tracks_pure trivial
    · exact tracks_bind_of_quiet colon fun _ => tracks_bind tracks fun _ _ _ => tracks_pure trivial

/-- An expression in an array takes one level of room more than its parts. -/
theorem capped_readArray
    (each : Capped refusal room inner innerFree)
    (tracks : innerFree.Tracks fun _ _ => True) :
    Capped refusal (room + 1) (readArray inner) (readArray innerFree) := by
  apply capped_opened (.inl rfl)
  refine capped_bind_right (quiet_sees ']') fun closed => ?_
  split
  · exact capped_refl _
  · refine capped_bind (capped_refl _) (tracks_scalarAs _) fun shape => capped_bind_left ?_ _
    refine capped_bind_left (capped_afterCommas ?_ ?_ []) _
    · exact fun before => capped_bind_left each _
    · exact fun before => tracks_bind tracks fun _ _ _ => tracks_pure trivial

/-- With less room an expression is read in the same way or refused for its nesting. -/
theorem capped_limitedReader
    (refusal : Failure)
    (room more : Nat)
    (larger : room ≤ more) :
    Capped refusal room (limitedReader refusal room) (jsonReader more) := by
  have tracks (budget : Nat) : (value .strict budget).Tracks fun _ _ => True :=
    (tracks_value strict_tracked budget).imp fun _ _ _ => trivial
  refine capped_within (.inr rfl) larger ?_ (capped_within (.inl rfl) larger ?_ (capped_refl _))
  · exact fun inner innerMore wider =>
      capped_readObject (capped_limitedValue strict_tracked refusal inner innerMore wider)
        (tracks _)
  · exact fun inner innerMore wider =>
      capped_readArray (capped_limitedValue strict_tracked refusal inner innerMore wider) (tracks _)

end Expr

namespace Equation

/-- Reads a member of an equation, after its name, when a number of arrays and objects may still
be opened, and stops at the first one beyond that for the given reason. -/
def limitedMember
    (refusal : Failure)
    (room : Nat)
    (name : String)
    (before : Pending) :
    Json.TextReader Pending := do
  if name = "output" then
    if before.output.isSome then
      refuse .misfit
    else
      mark ':'
      let output ← scalarAs textOf?
      pure { before with output := some output }
  else if name = "expression" then
    if before.expression.isSome then
      refuse .misfit
    else
      mark ':'
      let expression ← Expr.limitedReader refusal room
      pure { before with expression := some expression }
  else
    mark ':'
    let _ ← limitedValue refusal .lenient room
    pure before

/-- Reads an equation from an object, with the same bound. -/
def limitedObject (refusal : Failure) (room : Nat) : Json.TextReader Equation := do
  let pending ← Json.TextReader.members .strict (limitedMember refusal room) ⟨none, none⟩
  fitting pending.finished?

/-- Reads an equation from an array, with the same bound. -/
def limitedArray (refusal : Failure) (room : Nat) : Json.TextReader Equation := do
  mark '['
  if ← sees ']' then
    refuse .misfit
  else
    let output ← scalarAs textOf?
    if ← sees ']' then
      refuse .misfit
    else
      mark ','
      let expression ← Expr.limitedReader refusal room
      mark ']'
      pure ⟨output, expression⟩

/-- Reads an equation when a number of arrays and objects may still be opened, and stops at the
first one beyond that for the given reason. -/
def limitedReader (refusal : Failure) (room : Nat) : Json.TextReader Equation := do
  if ← sees '{' then
    limitedWithin refusal (limitedObject refusal) room
  else if ← sees '[' then
    limitedWithin refusal (limitedArray refusal) room
  else
    let _ ← scalar .strict
    refuse .misfit

theorem pendingMember_eq_limitedMember : pendingMember = limitedMember .malformed := by
  funext room name before
  simp only [pendingMember, limitedMember, Expr.jsonReader_eq_limitedReader, value_eq_limitedValue]

theorem readObject_eq_limitedObject : readObject = limitedObject .malformed := by
  funext room
  simp only [readObject, limitedObject, pendingMember_eq_limitedMember]

theorem readArray_eq_limitedArray : readArray = limitedArray .malformed := by
  funext room
  simp only [readArray, limitedArray, Expr.jsonReader_eq_limitedReader]

/-- The reader of equations is the limited one that takes running out of room for a malformed
text. -/
theorem jsonReader_eq_limitedReader : jsonReader = limitedReader .malformed := by
  funext room
  simp only [jsonReader, limitedReader, within_eq_limitedWithin, readObject_eq_limitedObject,
    readArray_eq_limitedArray]

theorem capped_limitedMember
    (refusal : Failure)
    {room more : Nat}
    (larger : room ≤ more)
    (name : String)
    (before : Pending) :
    Capped refusal room (limitedMember refusal room name before)
      (pendingMember more name before) := by
  have colon : Quiet .outside (mark ':') := quiet_mark (by decide)
  unfold limitedMember pendingMember
  split
  · exact capped_refl _
  · split
    · split
      · exact capped_refl _
      · exact capped_bind_right colon fun _ =>
          capped_bind_left (Expr.capped_limitedReader refusal _ _ larger) _
    · exact capped_bind_right colon fun _ =>
        capped_bind_left (capped_limitedValue lenient_tracked refusal _ _ larger) _

theorem capped_limitedObject
    (refusal : Failure)
    (room more : Nat)
    (larger : room ≤ more) :
    Capped refusal (room + 1) (limitedObject refusal room) (readObject more) := by
  refine capped_bind_left (capped_members strict_tracked
    (capped_limitedMember refusal larger) (fun name before => ?_) _) _
  have started : before.Reaches (before.expression.elim 0 fun found => found.toJson.containers) :=
    fun found known => by simp [known]
  exact (tracks_pendingMember more name started).imp fun _ _ _ => trivial

theorem capped_limitedArray
    (refusal : Failure)
    (room more : Nat)
    (larger : room ≤ more) :
    Capped refusal (room + 1) (limitedArray refusal room) (readArray more) := by
  apply capped_opened (.inl rfl)
  refine capped_bind_right (quiet_sees ']') fun closed => ?_
  split
  · exact capped_refl _
  · refine capped_bind (capped_refl _) (tracks_scalarAs _) fun output => ?_
    refine capped_bind_right (quiet_sees ']') fun closed => ?_
    split
    · exact capped_refl _
    · exact capped_bind_right (quiet_mark (by decide)) fun _ =>
        capped_bind_left (Expr.capped_limitedReader refusal _ _ larger) _

/-- With less room an equation is read in the same way or refused for its nesting. -/
theorem capped_limitedReader
    (refusal : Failure)
    (room more : Nat)
    (larger : room ≤ more) :
    Capped refusal room (limitedReader refusal room) (jsonReader more) :=
  capped_within (.inr rfl) larger (capped_limitedObject refusal)
    (capped_within (.inl rfl) larger (capped_limitedArray refusal) (capped_refl _))

end Equation

/-- The arrays and objects that are open at a time while a text is read, as a plain value, as an
expression or as an equation, are never more than the text nests, whatever the text: with a bound
that is no smaller, the outcome is the one without a bound, for every reason that there is for
stopping at the bound. The bound of the options, in particular, changes nothing for a text that is
not refused at once. A text that is one value, read strictly or only passed over, nests exactly as
deep as the value, and every smaller bound is met. -/
theorem open_le_nesting
    (text : List Char) :
    (∀ room, Json.nesting text ≤ room → ∀ refusal,
      document (limitedValue refusal .strict room) text =
        document (value .strict text.length) text ∧
      document (Expr.limitedReader refusal room) text =
        document (Expr.jsonReader text.length) text ∧
      document (Equation.limitedReader refusal room) text =
        document (Equation.jsonReader text.length) text) ∧
    (∀ options, Json.nesting text ≤ Json.nestingLimit options → ∀ refusal,
      (document (limitedValue refusal .strict (2 * options.maxDepth + 1)) text).mapError
          Json.Fault.failure = Json.read (value .strict) options text ∧
      (document (Expr.limitedReader refusal (2 * options.maxDepth + 1)) text).mapError
          Json.Fault.failure = Expr.ofJsonText options text ∧
      (document (Equation.limitedReader refusal (2 * options.maxDepth + 1)) text).mapError
          Json.Fault.failure = Equation.ofJsonText options text) ∧
    ∀ lexis ∈ [Json.Lexis.strict, Json.Lexis.lenient], ∀ found,
      document (value lexis text.length) text = .ok found →
      Json.nesting text = found.containers ∧
      ∀ refusal, ∀ room < Json.nesting text,
        document (limitedValue refusal lexis room) text = .error refusal := by
  have plain : value .strict = limitedValue .malformed .strict :=
    funext (value_eq_limitedValue .strict)
  refine ⟨fun room within refusal => ⟨?_, ?_, ?_⟩, fun options within refusal => ⟨?_, ?_, ?_⟩,
    fun lexis member found read => ?_⟩
  · exact document_limited (capped_limitedValue strict_tracked) plain within refusal
  · exact document_limited Expr.capped_limitedReader Expr.jsonReader_eq_limitedReader within refusal
  · exact document_limited Equation.capped_limitedReader Equation.jsonReader_eq_limitedReader within
      refusal
  · exact read_limited (capped_limitedValue strict_tracked) plain (Json.nestingLimit_le options)
      within refusal
  · exact read_limited Expr.capped_limitedReader Expr.jsonReader_eq_limitedReader
      (Json.nestingLimit_le options) within refusal
  · exact read_limited Equation.capped_limitedReader Equation.jsonReader_eq_limitedReader
      (Json.nestingLimit_le options) within refusal
  · have tracked : lexis.Tracked := by
      rcases List.mem_pair.mp member with rfl | rfl
      · exact strict_tracked
      · exact lenient_tracked
    exact nesting_of_document_value tracked read

/-- A text with a repeated member and with brackets in a string, at its own bound and below it. -/
theorem open_le_nesting_repeated :
    let text := "\x7b\"a\":[\"[[[\"],\"a\":\x7b\"b\":[]\x7d\x7d".toList
    let options : Options := { maxDepth := 1 }
    Json.nesting text = 3 ∧
      document (Expr.limitedReader .truncated 3) text =
        document (Expr.jsonReader text.length) text ∧
      (document (Equation.limitedReader .truncated (2 * options.maxDepth + 1)) text).mapError
          Json.Fault.failure = Equation.ofJsonText options text ∧
      document (limitedValue .truncated .strict 2) text = .error .truncated := by
  intro text options
  have nests : Json.nesting text = 3 := by decide +kernel
  obtain ⟨found, read⟩ : ∃ found, document (value .strict text.length) text = .ok found := by
    have seen : (document (value .strict text.length) text).isOk = true := by decide +kernel
    cases ran : document (value .strict text.length) text with
    | error failure => rw [ran] at seen; contradiction
    | ok found => exact ⟨found, rfl⟩
  obtain ⟨bounded, limited, whole⟩ := open_le_nesting text
  refine ⟨nests, (bounded 3 nests.le .truncated).2.1, (limited options nests.le .truncated).2.2, ?_⟩
  exact (whole .strict (by simp) found read).2 .truncated 2 (by rw [nests]; decide)

end ModelEquation
