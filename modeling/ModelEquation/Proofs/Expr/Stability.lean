import ModelEquation.Proofs.Expr.Containers
import ModelEquation.Proofs.Expr.Reread
import ModelEquation.Proofs.Expr.Streaming
import ModelEquation.Proofs.Json.Reach

/-!
# Texts that are read once are read again

An expression that is read from any text is written with no more arrays and objects in one
another than the text has: the text may say more than the expression, never less. Its own text
therefore nests no deeper, and under the same options it is read again, even where the
expression is higher than the options allow for one that is parsed. Equations are read in the
same way, and their own object comes on top.
-/

namespace ModelEquation

open Json (Value)

namespace Json

variable {α β : Type}

namespace TextReader

/-- A reader reaches as far as one that mirrors it. -/
theorem tracks_of_mirrors
    {reader : TextReader α}
    {mirror : TextReader β}
    {related : α → β → Prop}
    {reached : β → Nat → Prop}
    (mirrors : reader.Mirrors mirror related)
    (tracks : mirror.Tracks reached) :
    reader.Tracks fun result reach => ∃ other, related result other ∧ reached other reach := by
  intro input
  unfold Reader.Ensures
  split
  · next result rest ran =>
      obtain ⟨other, mirrored, holds⟩ := mirrors ran
      obtain ⟨taken, split, reach, spans, known⟩ := (tracks input).of_run mirrored
      exact ⟨taken, split, reach, spans, other, holds, known⟩
  · trivial

/-- A scalar reaches somewhere, as a plain value does. -/
theorem tracks_scalarAs (form : Value → Option α) :
    (scalarAs form).Tracks fun _ _ => True :=
  (tracks_of_mirrors (mirrors_scalarAs form 0) (tracks_value strict_tracked 0)).imp
    fun _ _ _ => trivial

/-- A form that is asked of what was read reaches nothing. -/
theorem tracks_fitting
    {reached : α → Nat → Prop}
    {form : Option α}
    (formed : ∀ result, form = some result → reached result 0) :
    (fitting form).Tracks reached := by
  cases form with
  | none => exact tracks_fail _
  | some result => exact tracks_pure (formed result rfl)

end TextReader

/-- A reader of what is written within the reach of any text that it is read from, and that is
read from its own text, reads that text under the same options. -/
theorem read_of_tracks
    {reader : Nat → TextReader α}
    {form : α → Value}
    (tracks : ∀ budget, (reader budget).Tracks fun result reach => (form result).containers ≤ reach)
    {options : Options}
    {text : List Char}
    {result : α}
    (read : Json.read reader options text = .ok result) :
    nesting text ≤ nestingLimit options ∧
      (form result).containers ≤ nesting text ∧
      nesting (form result).compact.toList ≤ nesting text ∧
      ((form result).Rereads id →
        (∀ budget, (form result).containers ≤ budget →
          TextReader.Accepts (reader budget) ((form result).write .compact 0) result) →
        Json.read reader options (form result).compact.toList = .ok result) := by
  obtain ⟨limited, whole⟩ := read_eq_ok_iff.mp read
  have within : (form result).containers ≤ nesting text :=
    TextReader.reached_of_document (tracks _) whole
  have nests : nesting (form result).compact.toList ≤ nesting text := by
    rwa [Value.nesting_compact]
  refine ⟨limited, within, nests, fun rereads accepts => ?_⟩
  rw [read_of_accepts rereads accepts,
    if_neg (Nat.not_lt.mpr (Nat.le_trans nests limited))]

end Json

open Json.TextReader

/-- What an expression is read from reaches at least as far as its own text. -/
theorem Expr.tracks_jsonReader (budget : Nat) :
    (Expr.jsonReader budget).Tracks fun expression reach =>
      expression.toJson.containers ≤ reach := by
  refine (tracks_of_mirrors (Expr.mirrors_jsonReader budget)
    (tracks_value strict_tracked budget)).imp fun expression reach holds => ?_
  obtain ⟨value, denoted, rfl⟩ := holds
  exact Expr.containers_of_ofJson? denoted

namespace Equation

/-- The expression that has been read, if any, reaches no further. -/
def Pending.Reaches (pending : Pending) (reach : Nat) : Prop :=
  ∀ expression, pending.expression = some expression → expression.toJson.containers ≤ reach

theorem Pending.Reaches.mono
    {pending : Pending}
    {reach further : Nat}
    (reaches : pending.Reaches reach)
    (le : reach ≤ further) :
    pending.Reaches further :=
  fun expression known => Nat.le_trans (reaches expression known) le

/-- A member of an equation reaches as far as its own text, beside what has been read before. -/
theorem tracks_pendingMember
    (budget : Nat)
    (name : String)
    {before : Pending}
    {reach : Nat}
    (known : before.Reaches reach) :
    (pendingMember budget name before).Tracks fun after more => after.Reaches (max reach more) := by
  have colon : Quiet .outside (mark ':') := quiet_mark (by decide)
  unfold pendingMember
  split
  · split
    · exact tracks_fail _
    · refine tracks_bind_of_quiet colon fun _ => tracks_bind (tracks_scalarAs _) fun _ own _ => ?_
      exact tracks_pure (known.mono (Nat.le_max_left ..))
  · split
    · split
      · exact tracks_fail _
      · refine tracks_bind_of_quiet colon fun _ =>
          tracks_bind (Expr.tracks_jsonReader budget) fun expression own bound => ?_
        apply tracks_pure
        intro found same
        cases same
        omega
    · refine tracks_bind_of_quiet colon fun _ =>
        tracks_bind (tracks_value lenient_tracked budget) fun _ own _ => ?_
      exact tracks_pure (known.mono (Nat.le_max_left ..))

/-- An equation that is read from an object nests no deeper than the object. -/
theorem tracks_readObject (budget : Nat) :
    (readObject budget).Tracks fun equation reach => equation.toJson.containers ≤ reach := by
  have start : Pending.Reaches ⟨none, none⟩ 0 := fun _ none => nomatch none
  refine tracks_bind (tracks_members strict_tracked
    (fun name _ _ => tracks_pendingMember budget name) start) fun pending reach holds => ?_
  obtain ⟨inside, rfl, known⟩ := holds
  apply tracks_fitting
  intro equation finished
  obtain ⟨_, _, more⟩ := Option.bind_eq_some_iff.mp finished
  obtain ⟨expression, found, same⟩ := Option.bind_eq_some_iff.mp more
  cases same
  rw [containers_toJson, Nat.max_zero]
  exact Nat.succ_le_succ (known expression found)

/-- An equation that is read from an array nests no deeper than the array. -/
theorem tracks_readArray (budget : Nat) :
    (readArray budget).Tracks fun equation reach => equation.toJson.containers ≤ reach := by
  have enclosed : (readArray budget).Tracks fun equation reach =>
      ∃ inside, reach = inside + 1 ∧ equation.expression.toJson.containers ≤ inside := by
    apply tracks_enclosed (.inl rfl)
    refine closes_bind_of_quiet (quiet_sees ']') fun closed => ?_
    split
    · exact closes_fail _
    · refine closes_bind (tracks_scalarAs textOf?) fun output first _ => ?_
      refine closes_bind_of_quiet (quiet_sees ']') fun closed => ?_
      split
      · exact closes_fail _
      · refine closes_bind_of_quiet (quiet_mark (by decide)) fun _ => ?_
        refine closes_bind (Expr.tracks_jsonReader budget) fun expression own bound => ?_
        apply closes_mark
        dsimp only
        omega
  refine enclosed.imp fun equation reach holds => ?_
  obtain ⟨inside, rfl, bound⟩ := holds
  rw [containers_toJson]
  exact Nat.succ_le_succ bound

/-- What an equation is read from reaches at least as far as its own text. -/
theorem tracks_jsonReader (budget : Nat) :
    (jsonReader budget).Tracks fun equation reach => equation.toJson.containers ≤ reach := by
  unfold jsonReader
  refine tracks_bind_of_quiet (quiet_sees '{') fun object => ?_
  split
  · cases budget with
    | zero => exact tracks_fail _
    | succ below => exact tracks_readObject below
  · refine tracks_bind_of_quiet (quiet_sees '[') fun array => ?_
    split
    · cases budget with
      | zero => exact tracks_fail _
      | succ below => exact tracks_readArray below
    · exact tracks_bind (tracks_scalar strict_tracked) fun _ _ _ => tracks_fail _

end Equation

/-- An expression that is read from a text is no higher than the text nests, and the text nests
no deeper than the limit. The expression is written without more nesting, and its own text is
read as the same expression under the same options if each of its doubles is read from its own
text. The same holds of an equation, which takes one level of nesting itself. -/
theorem ofJsonText_stable
    (options : Options)
    (text : List Char) :
    (∀ expression, Expr.ofJsonText options text = .ok expression →
      expression.height ≤ Json.nesting text ∧
      Json.nesting text ≤ 2 * options.maxDepth + 1 ∧
      Json.nesting expression.toJson.compact.toList ≤ Json.nesting text ∧
      ((∀ value ∈ expression.reals, value.reread? = some value) →
        Expr.ofJsonText options expression.toJson.compact.toList = .ok expression)) ∧
    (∀ equation, Equation.ofJsonText options text = .ok equation →
      equation.expression.height + 1 ≤ Json.nesting text ∧
      Json.nesting text ≤ 2 * options.maxDepth + 1 ∧
      Json.nesting equation.toJson.compact.toList ≤ Json.nesting text ∧
      ((∀ value ∈ equation.expression.reals, value.reread? = some value) →
        Equation.ofJsonText options equation.toJson.compact.toList = .ok equation)) := by
  constructor
  · intro expression read
    obtain ⟨limited, within, nests, again⟩ := Json.read_of_tracks Expr.tracks_jsonReader read
    have height := expression.containers_toJson_bounds.1
    have shallow := Nat.le_trans limited (Json.nestingLimit_le options)
    refine ⟨Nat.le_trans height within, shallow, nests, fun reread => ?_⟩
    have known : Expr.EveryReal (Binary64.RereadsAs id) expression.walk := reread
    apply again (expression.toJson_rereads known)
    intro budget enough
    have accepts := Expr.accepts_jsonReader known enough 0
    rwa [Expr.mapReals_id] at accepts
  · intro equation read
    obtain ⟨limited, within, nests, again⟩ := Json.read_of_tracks Equation.tracks_jsonReader read
    have height := equation.expression.containers_toJson_bounds.1
    have shallow := Nat.le_trans limited (Json.nestingLimit_le options)
    refine ⟨?_, shallow, nests, fun reread => ?_⟩
    · rw [Equation.containers_toJson] at within
      omega
    · have known : Expr.EveryReal (Binary64.RereadsAs id) equation.expression.walk := reread
      apply again (Equation.toJson_rereads known)
      intro budget enough
      have accepts := Equation.accepts_jsonReader known enough 0
      rwa [Expr.mapReals_id] at accepts

theorem eq_ok_of_toOption
    {ε α : Type}
    {outcome : Except ε α}
    {result : α}
    (found : outcome.toOption = some result) :
    outcome = .ok result := by
  cases outcome with
  | error failure => contradiction
  | ok value => exact congrArg Except.ok (Option.some.inj found)

/-- The double that has the signs in front of it. -/
def Expr.doubleUnder? : List Sign → Expr → Option Binary64
  | [], .number (.real value) => some value
  | sign :: signs, .unary operator operand =>
      if operator = sign then Expr.doubleUnder? signs operand else none
  | _, _ => none

/-- A double that is found under signs is all that the expression consists of beside them. -/
theorem Expr.eq_of_doubleUnder?
    {signs : List Sign}
    {expression : Expr}
    {value : Binary64}
    (found : expression.doubleUnder? signs = some value) :
    expression = signs.foldr .unary (.number (.real value)) := by
  fun_induction Expr.doubleUnder? signs expression with
  | case1 => cases found; rfl
  | case2 sign signs operand hypothesis => rw [hypothesis found, List.foldr_cons]
  | case3 => contradiction
  | case4 => contradiction

/-- Under a limit of one level, an expression of three levels that is given by arrays, and an
equation whose members are not in order and not all known. -/
theorem ofJsonText_stable_above_limit :
    let options : Options := { maxDepth := 1 }
    let inside : Expr := .unary .minus (.number (.real (.ofInt 2)))
    let expression : Expr := .unary .plus inside
    let equation : Equation := ⟨"y", inside⟩
    let text := "[\"unary_op\",\"+\",[\"unary_op\",\"-\",[0,2.0]]]".toList
    let equationText :=
      "\x7b\"z\":[],\"expression\":[\"unary_op\",\"-\",[0,2e0]],\"output\":\"y\"\x7d".toList
    Expr.ofJsonText options text = .ok expression ∧
      options.maxDepth < expression.height ∧
      Expr.ofJsonText options expression.toJson.compact.toList = .ok expression ∧
      Equation.ofJsonText options equationText = .ok equation ∧
      Equation.ofJsonText options equation.toJson.compact.toList = .ok equation := by
  intro options inside expression equation text equationText
  have reread : ∀ value ∈ [Binary64.ofInt 2], value.reread? = some value := by decide +kernel
  have read : Expr.ofJsonText options text = .ok expression := by
    have seen : (Expr.ofJsonText options text).toOption.bind (Expr.doubleUnder? [.plus, .minus]) =
        some (.ofInt 2) := by decide +kernel
    obtain ⟨found, ran, under⟩ := Option.bind_eq_some_iff.mp seen
    rw [eq_ok_of_toOption ran, Expr.eq_of_doubleUnder? under]
    rfl
  have equationRead : Equation.ofJsonText options equationText = .ok equation := by
    have seen : (Equation.ofJsonText options equationText).toOption.map (fun found =>
        (found.output, found.expression.doubleUnder? [.minus])) =
        some ("y", some (.ofInt 2)) := by decide +kernel
    obtain ⟨⟨output, found⟩, ran, same⟩ := Option.map_eq_some_iff.mp seen
    obtain ⟨named, under⟩ := Prod.mk.inj same
    have formed : found = inside := Expr.eq_of_doubleUnder? under
    have called : output = "y" := named
    rw [eq_ok_of_toOption ran, formed, called]
  obtain ⟨_, _, _, again⟩ := (ofJsonText_stable options text).1 expression read
  obtain ⟨_, _, _, equationAgain⟩ :=
    (ofJsonText_stable options equationText).2 equation equationRead
  exact ⟨read, by decide, again reread, equationRead, equationAgain reread⟩

end ModelEquation
