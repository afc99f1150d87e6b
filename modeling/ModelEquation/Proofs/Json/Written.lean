import Mathlib.Data.List.Forall2
import ModelEquation.Proofs.Json.Span
import ModelEquation.Proofs.Json.Tree

/-!
# Trees of written values

Every value has a tree, and whatever blanks a style of writing puts around members and items,
the text of the value writes this tree. Numbers are written without superfluous zeros, a double
that is not finite as a word, and strings with the escapes that the grammar knows.
-/

namespace ModelEquation

/-! ## Numbers -/

namespace Json

theorem isDigits_toDigits (number : Nat) : IsDigits (Nat.toDigits 10 number) where
  nonempty := Nat.toDigits_ne_nil
  all _ member := Nat.isDigit_of_mem_toDigits (by decide) (by decide) member

/-- A number is written without leading zeros. -/
theorem isWhole_toDigits (number : Nat) : IsWhole (Nat.toDigits 10 number) where
  toIsDigits := isDigits_toDigits number
  leading starts := by rw [eq_zero_of_head?_toDigits number starts, Nat.toDigits_zero]

/-- Digits alone, with or without a minus. -/
theorem isNumeral_wholeText (value : Int) : IsNumeral (Number.wholeText value) := by
  have magnitude : IsMagnitude (Nat.toDigits 10 value.natAbs) :=
    ⟨Nat.toDigits 10 value.natAbs, [], [], by simp, isWhole_toDigits _, .inl rfl, .inl rfl⟩
  unfold Number.wholeText
  split
  · exact ⟨['-'], _, rfl, .inr rfl, magnitude⟩
  · exact ⟨[], _, rfl, .inl rfl, magnitude⟩

theorem isDigits_zeros_append
    (count : Nat)
    {digits : List Char}
    (formed : IsDigits digits) :
    IsDigits (List.replicate count '0' ++ digits) where
  nonempty := by simp [formed.nonempty]
  all := by
    refine List.forall_mem_append.mpr ⟨fun digit member => ?_, formed.all⟩
    rw [List.eq_of_mem_replicate member]
    rfl

theorem isDigits_append_zeros
    {digits : List Char}
    (formed : IsDigits digits)
    (count : Nat) :
    IsDigits (digits ++ List.replicate count '0') where
  nonempty := by simp [formed.nonempty]
  all := by
    refine List.forall_mem_append.mpr ⟨formed.all, fun digit member => ?_⟩
    rw [List.eq_of_mem_replicate member]
    rfl

end Json

namespace Binary64
namespace Layout

open Json (IsDigits IsMagnitude)

section Digits

variable {digits : List Char} (formed : IsDigits digits) (leading : digits.head? ≠ some '0')
include formed leading

/-- Digits that do not start with zero are set out with digits on both sides of the point. -/
theorem isMagnitude_positional (point : Int) : IsMagnitude (positional digits point) := by
  have fractional (places : List Char) (known : IsDigits places) :
      Json.IsFraction ('.' :: places) := .inr ⟨places, rfl, known⟩
  unfold positional
  split
  · refine ⟨['0'], '.' :: (List.replicate (-point).toNat '0' ++ digits), [], by simp, ?_,
      fractional _ (Json.isDigits_zeros_append _ formed), .inl rfl⟩
    exact ⟨⟨by simp, by simp⟩, fun _ => rfl⟩
  · split
    · refine ⟨digits ++ List.replicate (point.toNat - digits.length) '0', ['.', '0'], [], by simp,
        ⟨Json.isDigits_append_zeros formed _, fun starts => absurd ?_ leading⟩,
        fractional ['0'] ⟨by simp, by simp⟩, .inl rfl⟩
      obtain ⟨first, others, rfl⟩ := List.exists_cons_of_ne_nil formed.nonempty
      exact starts
    · next positive short =>
        have inside : point.toNat ≠ 0 ∧ point.toNat < digits.length := by omega
        refine ⟨digits.take point.toNat, '.' :: digits.drop point.toNat, [], by simp,
          ⟨⟨by simp [formed.nonempty, inside], fun digit member =>
            formed.all digit (List.mem_of_mem_take member)⟩, fun starts => absurd ?_ leading⟩,
          fractional _ ⟨by simp [inside], fun digit member =>
            formed.all digit (List.mem_of_mem_drop member)⟩, .inl rfl⟩
        rwa [List.head?_take, if_neg inside.1] at starts

/-- A digit, the others behind a point, and an exponent with its sign. -/
theorem isMagnitude_scientific (exponent : Int) :
    IsMagnitude (scientific ['+'] digits exponent) := by
  have exponential : Json.IsExponent
      ('e' :: ((if exponent < 0 then ['-'] else ['+']) ++ Nat.toDigits 10 exponent.natAbs)) := by
    refine .inr ⟨'e', _, _, rfl, .inl rfl, ?_, Json.isDigits_toDigits _⟩
    split <;> simp
  match digits with
  | [] => exact absurd rfl formed.nonempty
  | [digit] =>
      exact ⟨[digit], [], _, rfl, ⟨formed, fun starts => absurd starts leading⟩, .inl rfl,
        exponential⟩
  | first :: second :: others =>
      obtain ⟨known, later⟩ := List.forall_mem_cons.mp formed.all
      exact ⟨[first], '.' :: second :: others, _, by simp [scientific],
        ⟨⟨by simp, by simpa using known⟩, fun starts => absurd starts leading⟩,
        .inr ⟨_, rfl, ⟨by simp, later⟩⟩, exponential⟩

end Digits

/-- Every decimal is set out as a number without a sign. -/
theorem isMagnitude_decimal (number : Decimal) : IsMagnitude (Json.layout.decimal number) := by
  unfold decimal
  split
  · exact ⟨['0'], ['.', '0'], [], rfl, ⟨⟨by simp, by simp⟩, fun _ => rfl⟩,
      .inr ⟨['0'], rfl, ⟨by simp, by simp⟩⟩, .inl rfl⟩
  · next nonzero =>
      have formed := Json.isDigits_toDigits number.coefficient
      have leading : (Nat.toDigits 10 number.coefficient).head? ≠ some '0' :=
        fun starts => nonzero (Json.eq_zero_of_head?_toDigits _ starts)
      dsimp only
      split
      · exact isMagnitude_positional formed leading _
      · exact isMagnitude_scientific formed leading _

end Layout
end Binary64

namespace Json

/-- A double is written as a number, or as a word if it is not finite. -/
theorem isScalar_doubleText (value : Binary64) : IsScalar (doubleText value) := by
  unfold doubleText
  split
  · next finite =>
      cases value with
      | finite negative significand exponent valid =>
          have magnitude := Binary64.Layout.isMagnitude_decimal
            (Binary64.shortest layout.tie significand exponent)
          cases negative with
          | false => exact .numeral ⟨[], _, rfl, .inl rfl, magnitude⟩
          | true => exact .numeral ⟨['-'], _, rfl, .inr rfl, magnitude⟩
      | infinite negative => contradiction
      | notANumber => contradiction
  · exact .word (.inl rfl)

/-! ## Strings -/

/-- What stands for a character in a string is content of it. -/
theorem isContent_escape_append
    (character : Char)
    {rest : List Char}
    (later : IsContent rest) :
    IsContent (escape character ++ rest) := by
  unfold escape
  split
  case h_8 noQuote noBackslash _ _ _ _ _ =>
    split
    · next control => exact .unit (TextReader.hexValues?_of_control control) later
    · next visible => exact .plain noQuote noBackslash (Nat.le_of_not_lt visible) later
  all_goals exact .mark (by decide) later

/-- A quoted text is a string. -/
theorem isString_quote (text : List Char) : IsString (quote text) := by
  refine ⟨text.flatMap escape, rfl, ?_⟩
  induction text with
  | nil => exact .nil
  | cons character others hypothesis =>
      rw [List.flatMap_cons]
      exact isContent_escape_append character hypothesis

/-! ## Values -/

namespace Value

mutual

/-- The tree that the text of a value writes. -/
def tree : Value → Tree
  | .null => .scalar ⟨['n', 'u', 'l', 'l'], .word (.inl rfl)⟩
  | .boolean true => .scalar ⟨['t', 'r', 'u', 'e'], .word (.inr (.inl rfl))⟩
  | .boolean false => .scalar ⟨['f', 'a', 'l', 's', 'e'], .word (.inr (.inr rfl))⟩
  | .whole value => .scalar ⟨Number.wholeText value, .numeral (isNumeral_wholeText value)⟩
  | .double value => .scalar ⟨doubleText value, isScalar_doubleText value⟩
  | .string text => .scalar ⟨quote text.toList, .string (isString_quote text.toList)⟩
  | .array items => .array (itemTrees items)
  | .object members => .object (memberTrees members)

/-- The trees of the items of an array. -/
def itemTrees : List Value → List Tree
  | [] => []
  | item :: rest => item.tree :: itemTrees rest

/-- The names and trees of the members of an object. -/
def memberTrees : List (String × Value) → List (Name × Tree)
  | [] => []
  | (name, value) :: rest =>
      (⟨quote name.toList, isString_quote name.toList⟩, value.tree) :: memberTrees rest

end

end Value

/-- A style of writing that puts nothing but blanks between lexemes. -/
structure Spacing.Regular (spacing : Spacing) : Prop where
  line : ∀ depth, IsGap (spacing.line depth)
  afterColon : IsGap spacing.afterColon

/-- The compact style puts nothing between lexemes. -/
theorem Spacing.regular_compact : Spacing.compact.Regular where
  line _ := isGap_nil
  afterColon := isGap_nil

/-- The indented style puts blanks between lexemes. -/
theorem Spacing.regular_indented : Spacing.indented.Regular where
  line depth := by
    refine List.forall_mem_cons.mpr ⟨rfl, fun character member => ?_⟩
    rw [List.eq_of_mem_replicate member]
    rfl
  afterColon := by simp [Spacing.indented, IsGap, TextReader.isBlank]

/-- Blanks behind the last lexeme. -/
theorem Spaced.append_gap
    {lexemes : List (List Char)}
    {text gap : List Char}
    (spaced : Spaced lexemes text)
    (nonempty : lexemes ≠ [])
    (blank : IsGap gap) :
    Spaced lexemes (text ++ gap) := by
  induction spaced with
  | nil => contradiction
  | @cons lexeme between rest lexemes blankBetween later hypothesis =>
      cases lexemes with
      | nil =>
          cases later
          rw [List.append_nil, List.append_assoc]
          exact Spaced.single lexeme (blankBetween.append blank)
      | cons next others =>
          rw [List.append_assoc, List.append_assoc]
          exact .cons blankBetween (hypothesis (List.cons_ne_nil _ _))

/-- Parts between brackets have the lexemes of the parts with commas between them. -/
theorem spaced_enclose
    {spacing : Spacing}
    (regular : spacing.Regular)
    (depth : Nat)
    (opening closing : Char)
    {parts : List (List (List Char))}
    {texts : List (List Char)}
    (spaced : List.Forall₂ (fun part text => part ≠ [] ∧ Spaced part text) parts texts) :
    Spaced ([opening] :: (Tree.separated parts ++ [[closing]]))
      (spacing.enclose depth opening closing texts) := by
  have line := regular.line (depth + 1)
  cases spaced with
  | nil => exact .cons isGap_nil (.cons isGap_nil .nil)
  | @cons part text parts texts now later =>
      obtain ⟨nonempty, first⟩ := now
      have others : Spaced (parts.flatMap fun part => [','] :: part)
          (texts.flatMap fun text => ',' :: (spacing.line (depth + 1) ++ text)) := by
        induction later with
        | nil => exact .nil
        | cons known _ hypothesis => exact Spaced.append (.cons line known.2) hypothesis
      have inside := (first.append others).append_gap (by simp [nonempty]) (regular.line depth)
      have whole : Spaced ([opening] :: (_ ++ [[closing]]))
          ([opening] ++ (spacing.line (depth + 1) ++ (_ ++ [closing]))) :=
        .cons line (inside.append (.alone [closing]))
      simpa [Spacing.enclose, Tree.separated] using whole

namespace Value

mutual

/-- The text of a value has the lexemes of its tree. -/
theorem spaced_write
    {spacing : Spacing}
    (regular : spacing.Regular) :
    (value : Value) → (depth : Nat) → Spaced value.tree.lexemes (value.write spacing depth)
  | .null, _ => .alone _
  | .boolean true, _ => .alone _
  | .boolean false, _ => .alone _
  | .whole value, _ => .alone (Number.wholeText value)
  | .double value, _ => .alone (doubleText value)
  | .string text, _ => .alone (quote text.toList)
  | .array items, depth =>
      spaced_enclose regular depth '[' ']' (spaced_writeItems regular items (depth + 1))
  | .object members, depth =>
      spaced_enclose regular depth '{' '}' (spaced_writeMembers regular members (depth + 1))

theorem spaced_writeItems
    {spacing : Spacing}
    (regular : spacing.Regular) :
    (items : List Value) → (depth : Nat) →
      List.Forall₂ (fun part text => part ≠ [] ∧ Spaced part text)
        (Tree.itemLexemes (itemTrees items)) (writeItems spacing depth items)
  | [], _ => .nil
  | item :: rest, depth =>
      .cons ⟨Tree.lexemes_ne_nil _, spaced_write regular item depth⟩
        (spaced_writeItems regular rest depth)

theorem spaced_writeMembers
    {spacing : Spacing}
    (regular : spacing.Regular) :
    (members : List (String × Value)) → (depth : Nat) →
      List.Forall₂ (fun part text => part ≠ [] ∧ Spaced part text)
        (Tree.memberLexemes (memberTrees members)) (writeMembers spacing depth members)
  | [], _ => .nil
  | (name, value) :: rest, depth => by
      refine .cons ⟨List.cons_ne_nil _ _, ?_⟩ (spaced_writeMembers regular rest depth)
      have colon : Spaced ([':'] :: value.tree.lexemes)
          ([':'] ++ (spacing.afterColon ++ value.write spacing depth)) :=
        .cons regular.afterColon (spaced_write regular value depth)
      exact .cons isGap_nil colon

end

end Value

end Json
end ModelEquation
