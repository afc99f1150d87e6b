import ModelEquation.Proofs.Json.Compact
import ModelEquation.Proofs.Json.Span

/-!
# Nesting of written values

The text of a value is a span that reaches as far as the arrays and objects of the value stand
one in another, and it has at least as many characters.
-/

namespace ModelEquation
namespace Json
namespace Value

/-- A comma in front of a span changes nothing. -/
theorem spans_of_comma
    {text : List Char}
    {reach : Nat}
    (spans : Spans (',' :: text) reach) :
    Spans text reach := by
  intro depth rest
  simpa [nestingFrom] using spans depth rest

/-- Brackets or braces add one level to what the parts between them reach. -/
theorem spans_enclose
    {texts : List (List Char)}
    {reach : Nat}
    (parts : Spans (commaParts texts) reach)
    {opening closing : Char}
    (brackets : (opening, closing) = ('[', ']') ∨ (opening, closing) = ('{', '}'))
    (level : Nat) :
    Spans (Spacing.compact.enclose level opening closing texts) (reach + 1) := by
  cases texts with
  | nil => exact parts.enclosed brackets
  | cons first others =>
      rw [enclose_cons, ← List.append_assoc]
      exact (spans_of_comma parts).enclosed brackets

/-- A part after a comma, and the parts after it. -/
theorem spans_commaParts_cons
    {text : List Char}
    {texts : List (List Char)}
    {first later : Nat}
    (part : Spans text first)
    (parts : Spans (commaParts texts) later) :
    Spans (commaParts (text :: texts)) (max first later) := by
  have comma : Neutral .outside [','] := neutral_of_isPlain (by decide)
  have whole := (part.append parts).neutral_append comma
  simpa [commaParts] using whole

mutual

/-- The text of a value reaches as far as the value does. -/
theorem spans_write
    (level : Nat) :
    (value : Value) → Spans (value.write .compact level) value.containers
  | .null => by
      rw [write]
      exact spans_of_isPlain (by decide)
  | .boolean true => by
      rw [write]
      exact spans_of_isPlain (by decide)
  | .boolean false => by
      rw [write]
      exact spans_of_isPlain (by decide)
  | .whole value =>
      spans_of_isPlain <| List.all_eq_true.mpr fun character member =>
        isPlain_of_isNumeric (Number.isNumeric_of_mem_wholeText value character member)
  | .double value => spans_of_isPlain (List.all_eq_true.mpr (isPlain_of_mem_doubleText value))
  | .string text => Neutral.spans fun depth rest => nestingFrom_quote depth text.toList rest
  | .array items => spans_enclose (spans_writeItems (level + 1) items) (.inl rfl) level
  | .object members => spans_enclose (spans_writeMembers (level + 1) members) (.inr rfl) level

theorem spans_writeItems
    (level : Nat) :
    (items : List Value) →
      Spans (commaParts (writeItems .compact level items)) (itemContainers items)
  | [] => spans_nil
  | item :: others => spans_commaParts_cons (spans_write level item) (spans_writeItems level others)

theorem spans_writeMembers
    (level : Nat) :
    (members : List (String × Value)) →
      Spans (commaParts (writeMembers .compact level members)) (memberContainers members)
  | [] => spans_nil
  | (name, value) :: others => by
      have colon : Neutral .outside [':'] := neutral_of_isPlain (by decide)
      have quoted : Neutral .outside (quote name.toList) := fun depth rest =>
        nestingFrom_quote depth name.toList rest
      have named := ((spans_write level value).neutral_append colon).neutral_append quoted
      exact spans_commaParts_cons named (spans_writeMembers level others)

end

/-- The text of a value nests as deep as the value. -/
theorem nesting_write (value : Value) (level : Nat) :
    nesting (value.write .compact level) = value.containers :=
  (spans_write level value).nesting_eq

/-- Compact text nests as deep as the value. -/
theorem nesting_compact (value : Value) : nesting value.compact.toList = value.containers := by
  rw [compact, String.toList_ofList, nesting_write]

/-- The brackets take at least one character more than the parts between them. -/
theorem length_commaParts_le_enclose
    (level : Nat)
    (opening closing : Char)
    (texts : List (List Char)) :
    (commaParts texts).length + 1 ≤
      (Spacing.compact.enclose level opening closing texts).length := by
  cases texts with
  | nil => simp [commaParts, enclose_nil]
  | cons first others =>
      rw [enclose_cons]
      simp only [commaParts, List.flatMap_cons, List.length_cons, List.length_append,
        List.length_nil]
      omega

mutual

/-- Every array and object takes a character. -/
theorem containers_le_length_write (level : Nat) :
    (value : Value) → value.containers ≤ (value.write .compact level).length
  | .null => Nat.zero_le _
  | .boolean _ => Nat.zero_le _
  | .whole _ => Nat.zero_le _
  | .double _ => Nat.zero_le _
  | .string _ => Nat.zero_le _
  | .array items =>
      Nat.le_trans (Nat.succ_le_succ (itemContainers_le_length (level + 1) items))
        (length_commaParts_le_enclose ..)
  | .object members =>
      Nat.le_trans (Nat.succ_le_succ (memberContainers_le_length (level + 1) members))
        (length_commaParts_le_enclose ..)

theorem itemContainers_le_length (level : Nat) :
    (items : List Value) →
      itemContainers items ≤ (commaParts (writeItems .compact level items)).length
  | [] => Nat.zero_le _
  | item :: others => by
      have first := containers_le_length_write level item
      have later := itemContainers_le_length level others
      simp only [commaParts, writeItems, List.flatMap_cons, List.length_append, List.length_cons,
        itemContainers] at later ⊢
      omega

theorem memberContainers_le_length (level : Nat) :
    (members : List (String × Value)) →
      memberContainers members ≤ (commaParts (writeMembers .compact level members)).length
  | [] => Nat.zero_le _
  | (_, value) :: others => by
      have first := containers_le_length_write level value
      have later := memberContainers_le_length level others
      simp only [commaParts, writeMembers, List.flatMap_cons, List.length_append,
        List.length_cons, memberContainers] at later ⊢
      omega

end

end Value
end Json
end ModelEquation
