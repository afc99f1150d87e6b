import ModelEquation.Proofs.Json.Compact
import ModelEquation.Proofs.Json.Lexeme

/-!
# Reading trees

What a reader makes of a text that writes a tree is settled by the tree: the value or the
failure is found by going through the tree in the order of its lexemes, and the blanks of the
text do not matter. A reader that goes on from what it read before folds over the items of an
array or the members of an object.
-/

namespace ModelEquation
namespace Json

open TextReader

/-- What the lexeme of a scalar is read as on its own. -/
def Scalar.read (lexis : Lexis) (lexeme : Scalar) : Except Failure Value :=
  ((scalar lexis).run lexeme.text).map Prod.fst

/-- What the lexeme of a name is read as on its own. -/
def Name.read (lexis : Lexis) (name : Name) : Except Failure String :=
  ((string lexis).run name.text).map Prod.fst

/-- The value, unless what was read has the wrong form. -/
def orMisfit {α : Type} : Option α → Except Failure α
  | some value => pure value
  | none => .error .misfit

/-! ## Lexemes in a row -/

/-- Lexemes of which the first starts with a character that has a property. -/
def Leads (property : Char → Prop) (lexemes : List (List Char)) : Prop :=
  ∃ first others later, lexemes = (first :: others) :: later ∧ property first

/-- A spaced text starts as the first of its lexemes does. -/
theorem Leads.head?
    {property : Char → Prop}
    {lexemes : List (List Char)}
    {text : List Char}
    (leads : Leads property lexemes)
    (spaced : Spaced lexemes text)
    (rest : List Char) :
    ∃ first, (text ++ rest).head? = some first ∧ property first := by
  obtain ⟨first, others, later, rfl, known⟩ := leads
  cases spaced
  exact ⟨first, rfl, known⟩

theorem Leads.append
    {property : Char → Prop}
    {lexemes : List (List Char)}
    (leads : Leads property lexemes)
    (more : List (List Char)) :
    Leads property (lexemes ++ more) := by
  obtain ⟨first, others, later, rfl, known⟩ := leads
  exact ⟨first, others, later ++ more, rfl, known⟩

/-- A character with which a value or a name may start. -/
def Opening (character : Char) : Prop :=
  isBlank character = false ∧ character ≠ ']' ∧ character ≠ '}'

theorem Leads.unblank
    {lexemes : List (List Char)}
    (leads : Leads Opening lexemes) :
    Leads (fun character => isBlank character = false) lexemes := by
  obtain ⟨first, others, later, same, opening⟩ := leads
  exact ⟨first, others, later, same, opening.1⟩

namespace Tree

/-- A tree starts with a lexeme, or with the mark that opens an array or object. -/
theorem leads (tree : Tree) : Leads Opening tree.lexemes := by
  cases tree with
  | scalar lexeme =>
      obtain ⟨first, others, same, unblank, other⟩ := lexeme.formed.starts
      simp only [List.mem_cons, List.not_mem_nil, or_false, not_or] at other
      exact ⟨first, others, [], by rw [lexemes, same], unblank, other.2.1, other.2.2.2⟩
  | array items => exact ⟨'[', [], _, rfl, by decide, by decide, by decide⟩
  | object members => exact ⟨'{', [], _, rfl, by decide, by decide, by decide⟩

end Tree

namespace TextReader

/-- On every text of the lexemes the reader has one outcome, whatever follows that fits. -/
def Reads
    {α : Type}
    (fits : List Char → Prop)
    (reader : TextReader α)
    (lexemes : List (List Char))
    (outcome : Except Failure α) : Prop :=
  ∀ ⦃text⦄, Spaced lexemes text → Settles fits reader text outcome

section Rules

variable {α β : Type} {fits inner : List Char → Prop} {front back : List (List Char)}

theorem reads_pure (value : α) : Reads fits (pure value) [] (pure value) := by
  intro text spaced rest _
  cases spaced
  rfl

/-- A refusal is the outcome whatever follows. -/
theorem reads_refuse (failure : Failure) :
    Reads fits (refuse failure : TextReader α) front (.error failure) :=
  fun _ _ _ _ => rfl

/-- A form that is asked for is there or it is a misfit, and nothing is taken. -/
theorem reads_fitting (form : Option α) : Reads fits (fitting form) [] (orMisfit form) := by
  cases form with
  | none => exact reads_refuse .misfit
  | some value => exact reads_pure value

/-- Readers one after the other read lexemes one after the other, where the later lexemes fit
behind the earlier ones. -/
theorem Reads.bind
    {first : TextReader α}
    {next : α → TextReader β}
    {outcome : Except Failure α}
    {outcomes : α → Except Failure β}
    (firsts : Reads inner first front outcome)
    (between : ∀ text rest, Spaced back text → fits rest → inner (text ++ rest))
    (nexts : ∀ value, outcome = .ok value → Reads fits (next value) back (outcomes value)) :
    Reads fits (first >>= next) (front ++ back) (outcome >>= outcomes) := by
  intro text spaced
  obtain ⟨front, back, rfl, fronts, backs⟩ := spaced.split
  exact (firsts fronts).bind (fun rest => between back rest backs) fun value known =>
    nexts value known backs

/-- A reader behind which nothing is left to read. -/
theorem Reads.bind_nil
    {first : TextReader α}
    {next : α → TextReader β}
    {outcome : Except Failure α}
    {outcomes : α → Except Failure β}
    (firsts : Reads fits first front outcome)
    (nexts : ∀ value, Reads fits (next value) [] (outcomes value)) :
    Reads fits (first >>= next) front (outcome >>= outcomes) := by
  have between (text rest : List Char) (spaced : Spaced [] text) (follows : fits rest) :
      fits (text ++ rest) := by
    cases spaced
    exact follows
  have whole := firsts.bind between fun value _ => nexts value
  rwa [List.append_nil] at whole

theorem reads_mark (expected : Char) : Reads Unblank (mark expected) [[expected]] (.ok ()) := by
  intro text spaced
  cases spaced with
  | cons blank later =>
      cases later
      rw [List.append_nil]
      exact settles_mark expected blank

/-- A mark and what is read behind it. -/
theorem reads_mark_bind
    {next : Unit → TextReader β}
    {outcome : Except Failure β}
    (expected : Char)
    (leads : Leads (fun character => isBlank character = false) back)
    (nexts : Reads fits (next ()) back outcome) :
    Reads fits (mark expected >>= next) ([expected] :: back) outcome := by
  refine (reads_mark expected).bind (fun text rest spaced follows => ?_) fun _ _ => nexts
  obtain ⟨first, head, unblank⟩ := leads.head? spaced rest
  intro next ahead
  rw [head] at ahead
  exact Option.some.inj ahead ▸ unblank

/-- The mark at the end of an array or object. -/
theorem reads_closing
    {next : Unit → TextReader β}
    {outcome : Except Failure β}
    (expected : Char)
    (nexts : Reads Follows (next ()) [] outcome) :
    Reads Follows (mark expected >>= next) [[expected]] outcome := by
  refine Reads.bind (reads_mark expected) (fun text rest spaced follows => ?_) fun _ _ => nexts
  cases spaced
  exact follows.unblank

/-- A look at the first character of the lexemes. -/
theorem reads_sees_bind
    {next : Bool → TextReader β}
    {first : Char}
    {others : List Char}
    {outcome : Except Failure β}
    (expected : Char)
    (nexts : Reads fits (next (decide (first = expected))) ((first :: others) :: back) outcome) :
    Reads fits (sees expected >>= next) ((first :: others) :: back) outcome := by
  intro text spaced rest follows
  have read := nexts spaced rest follows
  cases spaced
  rw [Reader.run_bind, run_sees]
  simpa using read

/-- A look for the start of an array or object. -/
theorem reads_seesContainer_bind
    {next : Bool → TextReader β}
    {first : Char}
    {others : List Char}
    {outcome : Except Failure β}
    (nexts : Reads fits (next (decide (first = '[') || decide (first = '{')))
      ((first :: others) :: back) outcome) :
    Reads fits (seesContainer >>= next) ((first :: others) :: back) outcome := by
  intro text spaced rest follows
  have read := nexts spaced rest follows
  cases spaced
  rw [Reader.run_bind, run_seesContainer]
  simpa using read

end Rules

/-! ## Parts of arrays and objects -/

/-- The end of an array or object follows. -/
def Closed (rest : List Char) : Prop :=
  ∃ closing later, rest = closing :: later ∧ (closing = ']' ∨ closing = '}')

theorem Closed.follows
    {rest : List Char}
    (closed : Closed rest) :
    Follows rest := by
  obtain ⟨closing, later, rfl, rfl | rfl⟩ := closed
  · exact follows_bracket later
  · exact follows_brace later

section Parts

variable {α ι : Type} {part : α → TextReader α} {spelled : ι → List (List Char)}
variable {step : α → ι → Except Failure α}

/-- Lexemes of parts, each after a comma. -/
def afterComma (spelled : ι → List (List Char)) (parts : List ι) : List (List Char) :=
  parts.flatMap fun one => [','] :: spelled one

/-- Lexemes that are separated are the first ones and the others after commas. -/
theorem separated_map_cons (first : ι) (others : List ι) :
    Tree.separated ((first :: others).map spelled) =
      spelled first ++ afterComma spelled others := by
  simp [Tree.separated, afterComma, List.flatMap_map]

/-- A comma or the end follows a part. -/
theorem follows_afterComma
    {parts : List ι}
    {text rest : List Char}
    (spaced : Spaced (afterComma spelled parts) text)
    (closed : Closed rest) :
    Follows (text ++ rest) := by
  cases parts with
  | nil =>
      cases spaced
      exact closed.follows
  | cons one others =>
      cases spaced
      exact follows_comma _

/-- Parts after commas are read one after the other. A comma opens a round, and the blanks
behind it belong to the round. -/
theorem reads_afterCommas
    {parts : List ι}
    (each : ∀ one ∈ parts, Leads Opening (spelled one) ∧
      ∀ state, Reads Follows (part state) (spelled one) (step state one))
    (state : α) :
    Reads Closed (afterCommas part state) (afterComma spelled parts)
      (parts.foldlM step state) := by
  induction parts generalizing state with
  | nil =>
      intro text spaced rest closed
      cases spaced
      obtain ⟨closing, later, rfl, known⟩ := closed
      apply Reader.run_extend_of_closed
      rcases known with rfl | rfl <;> rfl
  | cons one others hypothesis =>
      obtain ⟨⟨leads, reads⟩, later⟩ := List.forall_mem_cons.mp each
      have rounds : Reads Closed (part state >>= afterCommas part)
          (spelled one ++ afterComma spelled others)
          (step state one >>= others.foldlM step) :=
        (reads state).bind (fun text rest spaced closed => follows_afterComma spaced closed)
          fun next _ => hypothesis later next
      intro text spaced rest closed
      cases spaced with
      | @cons _ gap body _ blank remaining =>
          have round : (afterCommas part state).run (',' :: (gap ++ (body ++ rest))) =
              ((blanks >>= fun _ => part state) >>= afterCommas part).run
                (gap ++ (body ++ rest)) := by
            apply Reader.run_extend_eq_bind
            exact if_pos rfl
          have ahead : Unblank (body ++ rest) := by
            obtain ⟨first, head, opening⟩ := (leads.append _).head? remaining rest
            intro next found
            rw [head] at found
            exact Option.some.inj found ▸ opening.1
          have read := rounds remaining rest closed
          rw [Reader.run_bind] at read
          simp only [List.append_assoc, List.cons_append, round,
            Reader.run_bind, settles_blanks blank _ ahead, Except.map, List.nil_append,
            List.foldlM_cons]
          exact read

section End

variable {parts : List ι} {closing : Char} (ends : closing = ']' ∨ closing = '}')
include ends

/-- Before the end of an array or object, a comma follows each part but the last. -/
theorem follows_partsEnd
    {text : List Char}
    (spaced : Spaced (afterComma spelled parts ++ [[closing]]) text)
    (rest : List Char) :
    Follows (text ++ rest) := by
  obtain ⟨text, last, rfl, before, mark⟩ := spaced.split
  cases mark
  rw [List.append_assoc]
  exact follows_afterComma before ⟨_, _, rfl, ends⟩

/-- Parts after commas and the mark at the end. -/
theorem reads_partsEnd
    {β : Type}
    {next : α → TextReader β}
    {outcomes : α → Except Failure β}
    (each : ∀ one ∈ parts, Leads Opening (spelled one) ∧
      ∀ state, Reads Follows (part state) (spelled one) (step state one))
    (nexts : ∀ state, Reads Follows (next state) [] (outcomes state))
    (state : α) :
    Reads Follows (afterCommas part state >>= fun result => mark closing >>= fun _ => next result)
      (afterComma spelled parts ++ [[closing]]) (parts.foldlM step state >>= outcomes) := by
  refine (reads_afterCommas each state).bind (fun text rest spaced _ => ?_) fun result _ =>
    reads_closing closing (nexts result)
  cases spaced
  exact ⟨_, _, rfl, ends⟩

end End

end Parts

section Trees

variable {lexis : Lexis} (regular : Regular lexis)
include regular

/-- A scalar is read from its lexeme. -/
theorem reads_scalar (lexeme : Scalar) :
    Reads Follows (scalar lexis) [lexeme.text] (lexeme.read lexis) := by
  obtain ⟨outcome, settles⟩ := exists_settles_scalar regular lexeme.formed
  have alone := (settles [] isGap_nil).outcome_eq follows_nil
  rw [List.append_nil, ← Scalar.read] at alone
  rw [← alone]
  intro text spaced
  cases spaced with
  | cons blank later =>
      cases later
      rw [List.append_nil]
      exact settles _ blank

theorem reads_name (name : Name) :
    Reads Unblank (string lexis) [name.text] (name.read lexis) := by
  obtain ⟨outcome, settles⟩ := exists_settles_string regular name.formed
  have alone := (settles [] isGap_nil).outcome_eq (by simp [Unblank])
  rw [List.append_nil, ← Name.read] at alone
  rw [← alone]
  intro text spaced
  cases spaced with
  | cons blank later =>
      cases later
      rw [List.append_nil]
      exact settles _ blank

/-- A name and what is read behind it. -/
theorem reads_namedMember
    {α : Type}
    {member : String → α → TextReader α}
    {state : α}
    (one : Name × Tree)
    {after : String → Except Failure α}
    (reads : ∀ text, Reads Follows (member text state) ([':'] :: one.2.lexemes) (after text)) :
    Reads Follows (namedMember lexis member state) (Tree.memberLexeme one)
      (one.1.read lexis >>= after) := by
  refine Reads.bind (reads_name regular one.1) (fun text rest spaced _ => ?_) fun text _ =>
    reads text
  cases spaced
  simp [Unblank, isBlank]

end Trees

/-- An object is read member by member. -/
theorem reads_members
    {α : Type}
    {lexis : Lexis}
    {member : String → α → TextReader α}
    {step : α → Name × Tree → Except Failure α}
    {parts : List (Name × Tree)}
    (each : ∀ one ∈ parts, ∀ state,
      Reads Follows (namedMember lexis member state) (Tree.memberLexeme one) (step state one))
    (start : α) :
    Reads Follows (members lexis member start) (Tree.object parts).lexemes
      (parts.foldlM step start) := by
  have starts (one : Name × Tree) :
      ∃ others later, Tree.memberLexeme one = ('"' :: others) :: later := by
    obtain ⟨⟨_, content, rfl, _⟩, item⟩ := one
    exact ⟨_, _, rfl⟩
  have leads (one : Name × Tree) : Leads Opening (Tree.memberLexeme one) := by
    obtain ⟨others, later, same⟩ := starts one
    exact ⟨_, _, _, same, by decide, by decide, by decide⟩
  rw [members_eq, Tree.lexemes, Tree.memberLexemes_eq_map]
  cases parts with
  | nil =>
      refine reads_mark_bind '{' ⟨_, _, _, rfl, by decide⟩ ?_
      exact reads_sees_bind '}' (reads_closing '}' (reads_pure start))
  | cons first others =>
      obtain ⟨now, later⟩ := List.forall_mem_cons.mp each
      have whole : Reads Follows
          (namedMember lexis member start >>= fun first =>
            afterCommas (namedMember lexis member) first >>= fun result =>
              mark '}' >>= fun _ => pure result)
          (Tree.memberLexeme first ++ (afterComma Tree.memberLexeme others ++ [['}']]))
          (step start first >>= fun state => others.foldlM step state >>= pure) :=
        (now start).bind (fun text rest spaced _ => follows_partsEnd (.inr rfl) spaced rest)
          fun state _ => reads_partsEnd (.inr rfl) (fun one member => ⟨leads one, later one member⟩)
            reads_pure state
      simp only [bind_pure] at whole
      rw [separated_map_cons, List.append_assoc, List.foldlM_cons]
      refine reads_mark_bind '{' ((leads first).append _).unblank ?_
      obtain ⟨rest, more, same⟩ := starts first
      rw [same] at whole ⊢
      exact reads_sees_bind '}' whole

/-- The step of a reader that puts each part in front of those read before it. -/
def addPart
    {α ι : Type}
    (outcome : ι → Except Failure α)
    (before : List α)
    (one : ι) :
    Except Failure (List α) := do
  pure ((← outcome one) :: before)

/-- Parts that are put in front of each other are read in their order. -/
theorem foldlM_addPart
    {α ι : Type}
    (outcome : ι → Except Failure α)
    (parts : List ι)
    (before : List α) :
    parts.foldlM (addPart outcome) before = (do
      let values ← parts.mapM outcome
      pure (values.reverse ++ before)) := by
  induction parts generalizing before with
  | nil => rfl
  | cons first others hypothesis =>
      simp only [List.foldlM_cons, List.mapM_cons, addPart, bind_assoc, pure_bind, hypothesis,
        List.reverse_cons, List.append_assoc, List.singleton_append]

section Arrays

variable {α : Type} {empty reader : TextReader α} {outcome : Except Failure α}

theorem reads_emptyArray
    (reads : Reads Follows empty [[']']] outcome) :
    Reads Follows
      (mark '[' >>= fun _ => sees ']' >>= fun closed => if closed then empty else reader)
      (Tree.array []).lexemes outcome :=
  reads_mark_bind '[' ⟨_, _, _, rfl, by decide⟩ (reads_sees_bind ']' reads)

/-- An array with items in it. -/
theorem reads_openedArray
    {first : Tree}
    {others : List Tree}
    (reads : Reads Follows reader (first.lexemes ++ (afterComma Tree.lexemes others ++ [[']']]))
      outcome) :
    Reads Follows
      (mark '[' >>= fun _ => sees ']' >>= fun closed => if closed then empty else reader)
      (Tree.array (first :: others)).lexemes outcome := by
  rw [Tree.lexemes, Tree.itemLexemes_eq_map, separated_map_cons, List.append_assoc]
  refine reads_mark_bind '[' (first.leads.append _).unblank ?_
  obtain ⟨character, rest, more, same, opening⟩ := first.leads
  rw [same] at reads ⊢
  refine reads_sees_bind ']' ?_
  rw [decide_eq_false opening.2.1]
  exact reads

end Arrays

section Items

variable {item : TextReader Value} {outcome : Tree → Except Failure Value} {parts : List Tree}

/-- The items that are left of an array, and its end. -/
theorem reads_itemsEnd
    (each : ∀ one ∈ parts, Reads Follows item one.lexemes (outcome one))
    (before : List Value) :
    Reads Follows
      (afterCommas (fun before => do pure ((← item) :: before)) before >>= fun reversed =>
        mark ']' >>= fun _ => pure reversed.reverse)
      (afterComma Tree.lexemes parts ++ [[']']])
      (do
        let values ← parts.mapM outcome
        pure (before.reverse ++ values)) := by
  have whole := reads_partsEnd (.inl rfl) (fun one member => ⟨one.leads, fun before =>
    (each one member).bind_nil fun value => reads_pure (value :: before)⟩)
    (fun reversed => reads_pure reversed.reverse) before
  have folded := foldlM_addPart outcome parts before
  unfold addPart at folded
  simpa only [folded, bind_assoc, pure_bind, List.reverse_append, List.reverse_reverse] using whole

/-- An array is read item by item. -/
theorem reads_items
    (each : ∀ one ∈ parts, Reads Follows item one.lexemes (outcome one)) :
    Reads Follows (items item) (Tree.array parts).lexemes (parts.mapM outcome) := by
  cases parts with
  | nil => exact reads_emptyArray (reads_closing ']' (reads_pure []))
  | cons first others =>
      obtain ⟨now, later⟩ := List.forall_mem_cons.mp each
      rw [List.mapM_cons]
      exact reads_openedArray (now.bind
        (fun text rest spaced _ => follows_partsEnd (.inl rfl) spaced rest)
        fun value _ => reads_itemsEnd later [value])

end Items

end TextReader

/-! ## Values -/

namespace Tree

mutual

/-- The plain value of a tree, or the first failure on the way through it. -/
def value (lexis : Lexis) : Tree → Except Failure Value
  | .scalar lexeme => lexeme.read lexis
  | .array items => do
      pure (.array (← itemValues lexis items))
  | .object members => do
      pure (.object (← memberValues lexis members))

/-- The values of the items of an array. -/
def itemValues (lexis : Lexis) : List Tree → Except Failure (List Value)
  | [] => pure []
  | item :: rest => do
      let value ← item.value lexis
      pure (value :: (← itemValues lexis rest))

/-- The names and values of the members of an object. -/
def memberValues (lexis : Lexis) : List (Name × Tree) → Except Failure (List (String × Value))
  | [] => pure []
  | (name, item) :: rest => do
      let text ← name.read lexis
      let value ← item.value lexis
      pure ((text, value) :: (← memberValues lexis rest))

end

/-- The name and the value of one member. -/
def memberValue (lexis : Lexis) (member : Name × Tree) : Except Failure (String × Value) := do
  let text ← member.1.read lexis
  pure (text, ← member.2.value lexis)

/-- The values of items are those of each of them. -/
theorem itemValues_eq_mapM (lexis : Lexis) (items : List Tree) :
    itemValues lexis items = items.mapM (value lexis) := by
  induction items with
  | nil => rfl
  | cons item rest hypothesis => rw [itemValues, hypothesis, List.mapM_cons]

/-- The values of members are those of each of them. -/
theorem memberValues_eq_mapM (lexis : Lexis) (members : List (Name × Tree)) :
    memberValues lexis members = members.mapM (memberValue lexis) := by
  induction members with
  | nil => rfl
  | cons member rest hypothesis =>
      simp only [memberValues, hypothesis, List.mapM_cons, memberValue, bind_assoc, pure_bind]

end Tree

namespace TextReader

/-- A colon and the value behind it. -/
theorem reads_colon_bind
    {α : Type}
    {next : Unit → TextReader α}
    (item : Tree)
    {outcome : Except Failure α}
    (nexts : Reads Follows (next ()) item.lexemes outcome) :
    Reads Follows (mark ':' >>= next) ([':'] :: item.lexemes) outcome :=
  reads_mark_bind ':' item.leads.unblank nexts

/-- Where the lexemes are a scalar, no array or object starts. -/
theorem head?_scalar
    {lexeme : Scalar}
    {text : List Char}
    (spaced : Spaced (Tree.scalar lexeme).lexemes text)
    (rest : List Char) :
    (text ++ rest).head? ≠ some '[' ∧ (text ++ rest).head? ≠ some '{' := by
  obtain ⟨_, formed⟩ := lexeme
  obtain ⟨first, others, rfl, _, other⟩ := formed.starts
  cases spaced
  simp only [List.mem_cons, List.not_mem_nil, or_false, not_or] at other
  simp [other]

theorem reads_valueBody_array
    {lexis : Lexis}
    {inner : TextReader Value}
    {parts : List Tree}
    {outcome : Except Failure (List Value)}
    (reads : Reads Follows (items inner) (Tree.array parts).lexemes outcome) :
    Reads Follows (valueBody lexis inner) (Tree.array parts).lexemes (do
      pure (Value.array (← outcome))) :=
  reads_sees_bind '[' (reads.bind_nil fun values => reads_pure (Value.array values))

theorem reads_valueBody_object
    {lexis : Lexis}
    {inner : TextReader Value}
    {parts : List (Name × Tree)}
    {outcome : Except Failure (List (String × Value))}
    (reads : Reads Follows (members lexis (plainMember inner) []) (Tree.object parts).lexemes
      outcome) :
    Reads Follows (valueBody lexis inner) (Tree.object parts).lexemes (do
      pure (Value.object (← outcome).reverse)) :=
  reads_sees_bind '[' <| reads_sees_bind '{' <|
    reads.bind_nil fun members => reads_pure (Value.object members.reverse)

section Values

variable {lexis : Lexis} (regular : Regular lexis)
include regular

/-- A member whose value is read by another reader. -/
theorem reads_plainMember
    {inner : TextReader Value}
    {member : Name × Tree}
    (read : Reads Follows inner member.2.lexemes (member.2.value lexis))
    (before : List (String × Value)) :
    Reads Follows (namedMember lexis (plainMember inner) before) (Tree.memberLexeme member)
      (addPart (Tree.memberValue lexis) before member) := by
  have same : addPart (Tree.memberValue lexis) before member =
      (member.1.read lexis >>= fun text => member.2.value lexis >>= fun value =>
        pure ((text, value) :: before)) := by
    simp only [addPart, Tree.memberValue, bind_assoc, pure_bind]
  rw [same]
  exact reads_namedMember regular member fun text => reads_colon_bind member.2
    (read.bind_nil fun value => reads_pure ((text, value) :: before))

end Values

mutual

/-- A plain value is read as the tree says, when no more arrays and objects stand one in another
than may be opened. -/
theorem reads_value
    {lexis : Lexis}
    (regular : Regular lexis) :
    (tree : Tree) → (budget : Nat) → tree.depth ≤ budget →
      Reads Follows (value lexis budget) tree.lexemes (tree.value lexis)
  | .scalar lexeme, budget, _ => by
      intro text spaced rest follows
      obtain ⟨noArray, noObject⟩ := head?_scalar spaced rest
      rw [run_value_of_scalar noArray noObject]
      exact reads_scalar regular lexeme spaced rest follows
  | .array items, budget + 1, opens => by
      have each := reads_value_items regular items budget (Nat.le_of_succ_le_succ opens)
      rw [Tree.value, Tree.itemValues_eq_mapM]
      exact reads_valueBody_array (reads_items each)
  | .object members, budget + 1, opens => by
      have each := reads_value_members regular members budget (Nat.le_of_succ_le_succ opens)
      have adds := fun member present => reads_plainMember regular (each member present)
      have read := reads_valueBody_object (reads_members adds [])
      rw [foldlM_addPart, ← Tree.memberValues_eq_mapM] at read
      simp only [bind_assoc, pure_bind, List.append_nil, List.reverse_reverse] at read
      exact read

theorem reads_value_items
    {lexis : Lexis}
    (regular : Regular lexis) :
    (items : List Tree) → (budget : Nat) → Tree.itemDepth items ≤ budget →
      ∀ item ∈ items, Reads Follows (value lexis budget) item.lexemes (item.value lexis)
  | [], _, _ => by simp
  | item :: rest, budget, opens =>
      List.forall_mem_cons.mpr
        ⟨reads_value regular item budget (Nat.le_trans (Nat.le_max_left ..) opens),
          reads_value_items regular rest budget (Nat.le_trans (Nat.le_max_right ..) opens)⟩

theorem reads_value_members
    {lexis : Lexis}
    (regular : Regular lexis) :
    (members : List (Name × Tree)) → (budget : Nat) → Tree.memberDepth members ≤ budget →
      ∀ member ∈ members,
        Reads Follows (value lexis budget) member.2.lexemes (member.2.value lexis)
  | [], _, _ => by simp
  | (_, item) :: rest, budget, opens =>
      List.forall_mem_cons.mpr
        ⟨reads_value regular item budget (Nat.le_trans (Nat.le_max_left ..) opens),
          reads_value_members regular rest budget (Nat.le_trans (Nat.le_max_right ..) opens)⟩

end

end TextReader
end Json
end ModelEquation
