import ModelEquation.Proofs.Json.Numeral
import ModelEquation.Proofs.Json.Quoted

/-!
# Values that are read back

The text of a value without blanks is read as that value, except that each double
is replaced by the one that its own text is read as. The number of arrays and
objects that stand one in another bounds both what the reader must open and how
deep the text nests.
-/

namespace ModelEquation
namespace Json
namespace Value

mutual

/-- How many arrays and objects stand one in another. -/
def containers : Value → Nat
  | .null => 0
  | .boolean _ => 0
  | .whole _ => 0
  | .double _ => 0
  | .string _ => 0
  | .array items => itemContainers items + 1
  | .object members => memberContainers members + 1

/-- The greatest number of containers of the items of an array. -/
def itemContainers : List Value → Nat
  | [] => 0
  | item :: rest => max item.containers (itemContainers rest)

/-- The greatest number of containers of the members of an object. -/
def memberContainers : List (String × Value) → Nat
  | [] => 0
  | (_, value) :: rest => max value.containers (memberContainers rest)

end

mutual

/-- The value with every double changed. -/
def mapDoubles (change : Binary64 → Binary64) : Value → Value
  | .null => .null
  | .boolean value => .boolean value
  | .whole value => .whole value
  | .double value => .double (change value)
  | .string text => .string text
  | .array items => .array (mapItems change items)
  | .object members => .object (mapMembers change members)

/-- The items of an array with every double changed. -/
def mapItems (change : Binary64 → Binary64) : List Value → List Value
  | [] => []
  | item :: rest => item.mapDoubles change :: mapItems change rest

/-- The members of an object with every double changed. -/
def mapMembers (change : Binary64 → Binary64) : List (String × Value) → List (String × Value)
  | [] => []
  | (name, value) :: rest => (name, value.mapDoubles change) :: mapMembers change rest

end

mutual

/-- Whole numbers have 64 bits, and the change of each double is what its text is
read as. -/
def Rereads (change : Binary64 → Binary64) : Value → Prop
  | .null => True
  | .boolean _ => True
  | .whole value => Number.fitsInteger value = true
  | .double value => value.reread? = some (change value)
  | .string _ => True
  | .array items => itemsReread change items
  | .object members => membersReread change members

/-- The items of an array are read back. -/
def itemsReread (change : Binary64 → Binary64) : List Value → Prop
  | [] => True
  | item :: rest => item.Rereads change ∧ itemsReread change rest

/-- The members of an object are read back. -/
def membersReread (change : Binary64 → Binary64) : List (String × Value) → Prop
  | [] => True
  | (_, value) :: rest => value.Rereads change ∧ membersReread change rest

end

/-- An item nests no deeper than all items. -/
theorem containers_le_of_mem
    {item : Value}
    {items : List Value}
    (present : item ∈ items) :
    item.containers ≤ itemContainers items := by
  induction items with
  | nil => cases present
  | cons first others hypothesis =>
      rw [itemContainers]
      rcases List.mem_cons.mp present with rfl | later
      · exact Nat.le_max_left _ _
      · exact Nat.le_trans (hypothesis later) (Nat.le_max_right _ _)

/-- The value of a member nests no deeper than all members. -/
theorem containers_le_of_mem_members
    {part : String × Value}
    {parts : List (String × Value)}
    (present : part ∈ parts) :
    part.2.containers ≤ memberContainers parts := by
  induction parts with
  | nil => cases present
  | cons first others hypothesis =>
      rw [memberContainers]
      rcases List.mem_cons.mp present with rfl | later
      · exact Nat.le_max_left _ _
      · exact Nat.le_trans (hypothesis later) (Nat.le_max_right _ _)

theorem itemContainers_append (front back : List Value) :
    itemContainers (front ++ back) = max (itemContainers front) (itemContainers back) := by
  induction front with
  | nil => simp [itemContainers]
  | cons item others hypothesis => simp [itemContainers, hypothesis, Nat.max_assoc]

@[simp] theorem itemContainers_reverse (items : List Value) :
    itemContainers items.reverse = itemContainers items := by
  induction items with
  | nil => rfl
  | cons item others hypothesis =>
      simp [itemContainers_append, hypothesis, itemContainers, Nat.max_comm]

theorem memberContainers_append (front back : List (String × Value)) :
    memberContainers (front ++ back) =
      max (memberContainers front) (memberContainers back) := by
  induction front with
  | nil => simp [memberContainers]
  | cons member others hypothesis => simp [memberContainers, hypothesis, Nat.max_assoc]

@[simp] theorem memberContainers_reverse (members : List (String × Value)) :
    memberContainers members.reverse = memberContainers members := by
  induction members with
  | nil => rfl
  | cons member others hypothesis =>
      simp [memberContainers_append, hypothesis, memberContainers, Nat.max_comm]

/-! ## The text of a value -/

/-- Parts after commas. -/
def commaParts (parts : List (List Char)) : List Char :=
  parts.flatMap fun part => ',' :: part

theorem enclose_nil (depth : Nat) (opening closing : Char) :
    Spacing.compact.enclose depth opening closing [] = [opening, closing] := rfl

theorem enclose_cons
    (depth : Nat)
    (opening closing : Char)
    (first : List Char)
    (others : List (List Char)) :
    Spacing.compact.enclose depth opening closing (first :: others) =
      opening :: (first ++ (commaParts others ++ [closing])) := by
  simp [Spacing.enclose, Spacing.compact, commaParts]

/-- The text starts with no blank and with no closing bracket. -/
def Starts (text : List Char) : Prop :=
  ∃ first others, text = first :: others ∧
    TextReader.isBlank first = false ∧ first ≠ ']' ∧ first ≠ '}'

theorem Starts.append
    {text : List Char}
    (starts : Starts text)
    (rest : List Char) :
    ∀ next ∈ (text ++ rest).head?, TextReader.isBlank next = false := by
  obtain ⟨first, others, rfl, blank, _⟩ := starts
  intro next found
  cases found
  exact blank

/-- A quoted text starts with its quote. -/
theorem starts_quote (text rest : List Char) : Starts (quote text ++ rest) :=
  ⟨_, _, rfl, by decide⟩

/-- The text of a value starts where the reader looks for a value. -/
theorem starts_of_rereads
    {change : Binary64 → Binary64}
    {value : Value}
    (rereads : value.Rereads change)
    (depth : Nat) :
    Starts (value.write .compact depth) := by
  have number {text : List Char} {read : Value}
      (ran : TextReader.number.run text = .ok (read, [])) :
      Starts text := by
    obtain ⟨first, others, rfl, starts⟩ := TextReader.starts_of_run_number ran
    refine ⟨first, others, rfl, ?_, ?_, ?_⟩
    · cases blank : TextReader.isBlank first with
      | false => rfl
      | true =>
          simp only [TextReader.isBlank, Bool.or_eq_true, beq_iff_eq] at blank
          rcases blank with ((rfl | rfl) | rfl) | rfl <;> exact absurd starts (by decide)
    · rintro rfl
      exact absurd starts (by decide)
    · rintro rfl
      exact absurd starts (by decide)
  cases value with
  | null => exact ⟨_, _, rfl, by decide⟩
  | boolean value => cases value <;> exact ⟨_, _, rfl, by decide⟩
  | whole value => exact number (run_number_wholeText rereads)
  | double value => exact number (Binary64.run_number_of_reread? rereads)
  | string text => exact ⟨_, _, rfl, by decide⟩
  | array items =>
      rw [write]
      cases writeItems .compact (depth + 1) items with
      | nil => exact ⟨_, _, rfl, by decide⟩
      | cons first others => exact ⟨_, _, enclose_cons .., by decide⟩
  | object members =>
      rw [write]
      cases writeMembers .compact (depth + 1) members with
      | nil => exact ⟨_, _, rfl, by decide⟩
      | cons first others => exact ⟨_, _, enclose_cons .., by decide⟩

end Value

/-! ## Reading the parts -/

namespace TextReader

theorem run_sees (expected : Char) (text : List Char) :
    (sees expected).run text = .ok (decide (text.head? = some expected), text) := by
  simp [sees]

theorem run_seesContainer (text : List Char) :
    seesContainer.run text =
      .ok (decide (text.head? = some '[') || decide (text.head? = some '{'), text) := by
  simp [seesContainer, run_sees]

theorem run_mark
    {rest : List Char}
    (stops : ∀ next ∈ rest.head?, isBlank next = false)
    (expected : Char) :
    (mark expected).run (expected :: rest) = .ok ((), rest) := by
  simp [mark, run_char, run_blanks stops]

theorem run_mark_of_follows
    {rest : List Char}
    (follows : Follows rest)
    (expected : Char) :
    (mark expected).run (expected :: rest) = .ok ((), rest) := by
  simp [mark, run_char, run_blanks_of_follows follows]

/-- A string in front of something that starts with no blank. -/
theorem run_string
    {rest : List Char}
    (stops : ∀ next ∈ rest.head?, isBlank next = false)
    (text : String) :
    (string .strict).run (quote text.toList ++ rest) = .ok (text, rest) := by
  simp [string, Lexis.strict, run_quoted, run_blanks stops]

/-- A quoted text is read as a string. -/
theorem run_scalar_string
    {rest : List Char}
    (follows : Follows rest)
    (text : String) :
    (scalar .strict).run (quote text.toList ++ rest) = .ok (.string text, rest) := by
  have stops : ∀ next ∈ rest.head?, isBlank next = false := by
    intro next starts
    rcases follows next starts with rfl | rfl | rfl <;> decide
  have read := run_string stops text
  rw [scalar, Reader.run_bind, Reader.run_peek]
  simp only [quote, List.cons_append, List.head?_cons] at read ⊢
  rw [Reader.run_bind, read]
  rfl

/-- A reader returns a value for its text, whatever may follow. -/
def Accepts {α : Type} (reader : TextReader α) (text : List Char) (result : α) : Prop :=
  ∀ rest, Follows rest → reader.run (text ++ rest) = .ok (result, rest)

/-- Reading parts one after the other goes from one value to another. -/
inductive Steps {α : Type} (part : α → TextReader α) : α → List (List Char) → α → Prop
  | done {state} : Steps part state [] state
  | step {state next final text texts}
      (starts : Value.Starts text)
      (accepts : Accepts (part state) text next)
      (later : Steps part next texts final) :
      Steps part state (text :: texts) final

section Parts

variable {α : Type} {part : α → TextReader α} {state final : α} {texts : List (List Char)}

/-- A comma or a closing bracket comes next after the parts that have been read. -/
theorem follows_commaParts
    {rest : List Char}
    (texts : List (List Char))
    (follows : Follows rest) :
    Follows (Value.commaParts texts ++ rest) := by
  cases texts with
  | nil => exact follows
  | cons text others => exact follows_comma _

/-- The texts of parts after commas are read one after the other. -/
theorem run_afterCommas
    (steps : Steps part state texts final)
    {closing : Char}
    (other : closing ≠ ',')
    {rest : List Char}
    (follows : Follows (closing :: rest)) :
    (afterCommas part state).run (Value.commaParts texts ++ closing :: rest) =
      .ok (final, closing :: rest) := by
  induction steps with
  | done =>
      apply Reader.run_extend_of_closed
      exact if_neg other
  | @step state next final text texts starts accepts later hypothesis =>
      have tail := follows_commaParts texts follows
      have round : (afterCommas part state).run
          (',' :: (text ++ (Value.commaParts texts ++ closing :: rest))) =
          (afterCommas part next).run (Value.commaParts texts ++ closing :: rest) := by
        apply Reader.run_extend_of_ran
        · exact if_pos rfl
        · rw [Reader.run_bind, run_blanks (starts.append _)]
          exact accepts _ tail
      rw [← hypothesis, ← round]
      simp [Value.commaParts]

end Parts

/-- Reads a name and then its member. -/
def namedMember
    {α : Type}
    (lexis : Lexis)
    (member : String → α → TextReader α)
    (before : α) :
    TextReader α := do
  member (← string lexis) before

theorem members_eq
    {α : Type}
    (lexis : Lexis)
    (member : String → α → TextReader α)
    (start : α) :
    members lexis member start =
      (mark '{' >>= fun _ => sees '}' >>= fun closed =>
        if closed then mark '}' >>= fun _ => pure start
        else namedMember lexis member start >>= fun first =>
          afterCommas (namedMember lexis member) first >>= fun result =>
            mark '}' >>= fun _ => pure result) := rfl

/-- An object is read member by member. -/
theorem run_members
    {α : Type}
    {member : String → α → TextReader α}
    {start final : α}
    {texts : List (List Char)}
    (steps : Steps (namedMember .strict member) start texts final)
    (depth : Nat) :
    Accepts (members .strict member start) (Spacing.compact.enclose depth '{' '}' texts) final := by
  intro rest follows
  have closes := run_mark_of_follows follows '}'
  cases steps with
  | done =>
      have opens : (mark '{').run ('{' :: '}' :: rest) = .ok ((), '}' :: rest) :=
        run_mark (by simp [isBlank]) '{'
      simp [Value.enclose_nil, members, opens, run_sees, closes]
  | @step _ next _ text texts starts accepts later =>
      have inside := follows_brace rest
      have opens := run_mark (starts.append (Value.commaParts texts ++ '}' :: rest)) '{'
      have unclosed : ¬ (text ++ (Value.commaParts texts ++ '}' :: rest)).head? = some '}' := by
        obtain ⟨first, others, rfl, _, _, other⟩ := starts
        simpa using other
      have first := accepts _ (follows_commaParts texts inside)
      have others := run_afterCommas later (by decide) inside
      simp only [Value.enclose_cons, List.cons_append, List.append_assoc, List.nil_append,
        members_eq, Reader.run_bind, opens, run_sees, unclosed, decide_false, Bool.false_eq_true,
        if_false, first, others, closes, Reader.run_pure]

/-- An array is read item by item. -/
theorem run_items
    {item : TextReader Value}
    {reversed : List Value}
    {texts : List (List Char)}
    (steps : Steps (fun before => do pure ((← item) :: before)) [] texts reversed)
    (depth : Nat) :
    Accepts (items item) (Spacing.compact.enclose depth '[' ']' texts) reversed.reverse := by
  intro rest follows
  have closes := run_mark_of_follows follows ']'
  cases steps with
  | done =>
      have opens : (mark '[').run ('[' :: ']' :: rest) = .ok ((), ']' :: rest) :=
        run_mark (by simp [isBlank]) '['
      simp [Value.enclose_nil, items, opens, run_sees, closes]
  | @step _ next _ text texts starts accepts later =>
      have inside := follows_bracket rest
      have opens := run_mark (starts.append (Value.commaParts texts ++ ']' :: rest)) '['
      have unclosed : ¬ (text ++ (Value.commaParts texts ++ ']' :: rest)).head? = some ']' := by
        obtain ⟨first, others, rfl, _, other, _⟩ := starts
        simpa using other
      have first := accepts _ (follows_commaParts texts inside)
      have others := run_afterCommas later (by decide) inside
      rw [Reader.run_bind] at first
      cases ran : item.run (text ++ (Value.commaParts texts ++ ']' :: rest)) with
      | error failure => simp [ran] at first
      | ok result =>
          simp only [ran, Reader.run_pure, Except.ok.injEq, Prod.mk.injEq] at first
          obtain ⟨rfl, left⟩ := first
          simp only [Value.enclose_cons, List.cons_append, List.append_assoc, List.nil_append,
            items, Reader.run_bind, opens, run_sees, unclosed, decide_false, Bool.false_eq_true,
            if_false, ran, left, others, closes, Reader.run_pure]

/-! ## Reading values -/

section Values

variable {change : Binary64 → Binary64}

/-- A reader that accepts the texts of some items accepts them one after the other. -/
theorem steps_items
    {item : TextReader Value}
    {depth : Nat}
    (values : List Value)
    (rereads : Value.itemsReread change values)
    (accepts : ∀ value ∈ values, value.Rereads change →
      Accepts item (value.write .compact depth) (value.mapDoubles change))
    (reversed : List Value) :
    Steps (fun before => do pure ((← item) :: before)) reversed
      (Value.writeItems .compact depth values)
      ((Value.mapItems change values).reverse ++ reversed) := by
  induction values generalizing reversed with
  | nil => exact .done
  | cons value others hypothesis =>
      obtain ⟨first, later⟩ := rereads
      have steps := hypothesis later
        (fun other present => accepts other (List.mem_cons_of_mem _ present))
        (value.mapDoubles change :: reversed)
      rw [Value.mapItems, List.reverse_cons, List.append_assoc]
      refine .step (Value.starts_of_rereads first depth) ?_ steps
      intro rest follows
      rw [Reader.run_bind, accepts value (List.mem_cons_self ..) first rest follows]
      rfl

/-- After the name of a member comes a colon, and then its value. -/
theorem step_member
    {α : Type}
    {member : String → α → TextReader α}
    {before after final : α}
    {depth : Nat}
    {name : String}
    {value : Value}
    {others : List (String × Value)}
    (accepts : ∀ rest, Follows rest →
      (member name before).run (':' :: (value.write .compact depth ++ rest)) = .ok (after, rest))
    (later : Steps (namedMember .strict member) after (Value.writeMembers .compact depth others) final) :
    Steps (namedMember .strict member) before
      (Value.writeMembers .compact depth ((name, value) :: others)) final := by
  refine .step (Value.starts_quote _ _) (fun rest follows => ?_) later
  rw [List.append_assoc, List.cons_append, namedMember, Reader.run_bind,
    run_string (by simp [isBlank])]
  exact accepts rest follows

/-- A colon is taken in front of the text of a value. -/
theorem run_colon_bind
    {α : Type}
    {text : List Char}
    (starts : Value.Starts text)
    (next : Unit → TextReader α)
    (rest : List Char) :
    (mark ':' >>= next).run (':' :: (text ++ rest)) = (next ()).run (text ++ rest) := by
  rw [Reader.run_bind, run_mark (starts.append rest)]

/-- A reader that accepts the texts of some values accepts them as members. -/
theorem steps_plainMember
    {inner : TextReader Value}
    {depth : Nat}
    (parts : List (String × Value))
    (rereads : Value.membersReread change parts)
    (accepts : ∀ part ∈ parts, part.2.Rereads change →
      Accepts inner (part.2.write .compact depth) (part.2.mapDoubles change))
    (reversed : List (String × Value)) :
    Steps (namedMember .strict (plainMember inner)) reversed (Value.writeMembers .compact depth parts)
      ((Value.mapMembers change parts).reverse ++ reversed) := by
  induction parts generalizing reversed with
  | nil => exact .done
  | cons part others hypothesis =>
      obtain ⟨name, value⟩ := part
      obtain ⟨first, later⟩ := rereads
      have steps := hypothesis later
        (fun other present => accepts other (List.mem_cons_of_mem _ present))
        ((name, value.mapDoubles change) :: reversed)
      rw [Value.mapMembers, List.reverse_cons, List.append_assoc]
      refine step_member (fun rest follows => ?_) steps
      have read := accepts (name, value) (List.mem_cons_self ..) first rest follows
      rw [plainMember, run_colon_bind (Value.starts_of_rereads first depth), Reader.run_bind, read]
      rfl

/-- Where no array or object starts, only a scalar can be read. -/
theorem run_value_of_scalar
    {lexis : Lexis}
    {text : List Char}
    (noArray : text.head? ≠ some '[')
    (noObject : text.head? ≠ some '{')
    (budget : Nat) :
    (value lexis budget).run text = (scalar lexis).run text := by
  cases budget with
  | zero => simp [value, flatValue, run_seesContainer, noArray, noObject]
  | succ budget => simp [value, valueBody, run_sees, noArray, noObject]

/-- A text that is a number is accepted as a value. -/
theorem accepts_value_of_number
    {text : List Char}
    {number : Value}
    (ran : TextReader.number.run text = .ok (number, []))
    (budget : Nat) :
    Accepts (value .strict budget) text number := by
  intro rest follows
  have read := run_scalar_of_number ran follows
  obtain ⟨first, others, rfl, starts⟩ := starts_of_run_number ran
  rw [run_value_of_scalar, read]
  · rintro ⟨⟩
    exact absurd starts (by decide)
  · rintro ⟨⟩
    exact absurd starts (by decide)

theorem run_word
    {rest : List Char}
    (follows : Follows rest)
    (letters : List Char)
    (result : Value) :
    (word letters result).run (letters ++ rest) = .ok (result, rest) := by
  rw [word, Reader.run_bind, run_chars]
  simp [run_blanks_of_follows follows]

/-- A value without arrays and objects is read whatever may be opened. -/
theorem accepts_value_of_flat
    {source : Value}
    (rereads : source.Rereads change)
    (flat : source.containers = 0)
    (budget depth : Nat) :
    Accepts (value .strict budget) (source.write .compact depth) (source.mapDoubles change) := by
  cases source with
  | null =>
      intro rest follows
      rw [run_value_of_scalar (by simp [Value.write]) (by simp [Value.write])]
      exact run_word follows ['n', 'u', 'l', 'l'] .null
  | boolean value =>
      intro rest follows
      cases value with
      | false =>
          rw [run_value_of_scalar (by simp [Value.write]) (by simp [Value.write])]
          exact run_word follows ['f', 'a', 'l', 's', 'e'] (.boolean false)
      | true =>
          rw [run_value_of_scalar (by simp [Value.write]) (by simp [Value.write])]
          exact run_word follows ['t', 'r', 'u', 'e'] (.boolean true)
  | whole value => exact accepts_value_of_number (run_number_wholeText rereads) budget
  | double value =>
      exact accepts_value_of_number (Binary64.run_number_of_reread? rereads) budget
  | string text =>
      intro rest follows
      rw [run_value_of_scalar (by simp [Value.write, quote]) (by simp [Value.write, quote])]
      exact run_scalar_string follows text
  | array items => simp [Value.containers] at flat
  | object members => simp [Value.containers] at flat

theorem run_valueBody_array
    {inner : TextReader Value}
    {values : List Value}
    {depth : Nat}
    (accepts : Accepts (items inner) ((Value.array values).write .compact depth)
      (Value.mapItems change values)) :
    Accepts (valueBody .strict inner) ((Value.array values).write .compact depth)
      ((Value.array values).mapDoubles change) := by
  intro rest follows
  have read := accepts rest follows
  have starts : ((Value.array values).write .compact depth ++ rest).head? = some '[' := by
    rw [Value.write]
    cases Value.writeItems .compact (depth + 1) values <;> rfl
  simp [valueBody, run_sees, starts, read, Value.mapDoubles]

theorem run_valueBody_object
    {inner : TextReader Value}
    {parts : List (String × Value)}
    {depth : Nat}
    (accepts : Accepts (members .strict (plainMember inner) [])
      ((Value.object parts).write .compact depth) (Value.mapMembers change parts).reverse) :
    Accepts (valueBody .strict inner) ((Value.object parts).write .compact depth)
      ((Value.object parts).mapDoubles change) := by
  intro rest follows
  have read := accepts rest follows
  have starts : ((Value.object parts).write .compact depth ++ rest).head? = some '{' := by
    rw [Value.write]
    cases Value.writeMembers .compact (depth + 1) parts <;> rfl
  simp [valueBody, run_sees, starts, read, Value.mapDoubles]

/-- The text of a value is read as the value with its doubles changed, when no
more arrays and objects stand one in another than may be opened. -/
theorem accepts_value
    {budget : Nat}
    {source : Value}
    (rereads : source.Rereads change)
    (opens : source.containers ≤ budget)
    (depth : Nat) :
    Accepts (value .strict budget) (source.write .compact depth) (source.mapDoubles change) := by
  induction budget generalizing depth source with
  | zero => exact accepts_value_of_flat rereads (Nat.le_zero.mp opens) 0 depth
  | succ budget hypothesis =>
      cases source with
      | array values =>
          apply run_valueBody_array
          have within := Nat.le_of_succ_le_succ opens
          have steps := steps_items values rereads (fun value present known =>
            hypothesis known (Nat.le_trans (Value.containers_le_of_mem present) within)
              (depth + 1)) []
          have whole := run_items steps depth
          rwa [List.append_nil, List.reverse_reverse] at whole
      | object parts =>
          apply run_valueBody_object
          have within := Nat.le_of_succ_le_succ opens
          have steps := steps_plainMember parts rereads (fun part present known =>
            hypothesis known (Nat.le_trans (Value.containers_le_of_mem_members present) within)
              (depth + 1)) []
          have whole := run_members steps depth
          rwa [List.append_nil] at whole
      | _ => exact accepts_value_of_flat rereads rfl _ depth

end Values

end TextReader
end Json
end ModelEquation
