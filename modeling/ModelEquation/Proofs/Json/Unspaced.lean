import ModelEquation.Proofs.Json.Writing
import ModelEquation.Proofs.Json.Written
import ModelEquation.Text.Blank

/-!
# Texts without their blanks

Deleting the blanks outside of strings from a text that writes a tree leaves the lexemes of the
tree and nothing else. The compact text of a value consists of just these, and so it is what
remains of the text of the value in any style of writing.
-/

namespace ModelEquation
namespace Json

/-- Where a text goes on after a character. -/
def Place.next : Place → Char → Place
  | .outside, '"' => .inString
  | .outside, _ => .outside
  | .inString, '"' => .outside
  | .inString, '\\' => .escaped
  | .inString, _ => .inString
  | .escaped, _ => .inString

/-- A text that goes on from a place, without its blanks outside of strings. -/
def unspacedFrom : Place → List Char → List Char
  | _, [] => []
  | place, character :: rest =>
      if place = .outside ∧ Text.isBlank character = true then
        unspacedFrom place rest
      else
        character :: unspacedFrom (place.next character) rest

/-- A text without its blanks outside of strings. -/
def unspaced (text : List Char) : List Char :=
  unspacedFrom .outside text

/-! ## What is kept -/

/-- In front of any text, the characters lose none of themselves and end where they start. -/
def Kept (place : Place) (taken : List Char) : Prop :=
  ∀ rest, unspacedFrom place (taken ++ rest) = taken ++ unspacedFrom place rest

theorem kept_nil (place : Place) : Kept place [] :=
  fun _ => rfl

theorem Kept.append
    {place : Place}
    {front back : List Char}
    (first : Kept place front)
    (second : Kept place back) :
    Kept place (front ++ back) := by
  intro rest
  rw [List.append_assoc, first, second, List.append_assoc]

/-- A character inside a string is kept, unless it is a quote or a backslash. -/
theorem kept_inString
    {character : Char}
    (noQuote : character ≠ '"')
    (noBackslash : character ≠ '\\') :
    Kept .inString [character] := by
  intro rest
  have stays : Place.next .inString character = .inString := by
    unfold Place.next
    split <;> simp_all
  simp [unspacedFrom, stays]

/-- In a string, a backslash and what follows it are kept. -/
theorem kept_escaped (character : Char) : Kept .inString ['\\', character] := by
  intro rest
  simp [unspacedFrom, Place.next]

/-- A string is kept as a whole. -/
theorem kept_between_quotes
    {inside : List Char}
    (kept : Kept .inString inside) :
    Kept .outside ('"' :: (inside ++ ['"'])) := by
  intro rest
  have inner := kept ('"' :: rest)
  simpa [unspacedFrom, Place.next, Text.isBlank] using inner

/-- Whether a character neither is blank nor starts a string. -/
def isVisible (character : Char) : Bool :=
  character != '"' && !Text.isBlank character

/-- Outside of strings, visible characters are kept. -/
theorem kept_of_isVisible
    {text : List Char}
    (visible : text.all isVisible = true) :
    Kept .outside text := by
  induction text with
  | nil => exact kept_nil .outside
  | cons character others hypothesis =>
      rw [List.all_cons, Bool.and_eq_true] at visible
      obtain ⟨known, later⟩ := visible
      simp only [isVisible, Bool.and_eq_true, bne_iff_ne, Bool.not_eq_true'] at known
      obtain ⟨noQuote, noBlank⟩ := known
      have stays : Place.next .outside character = .outside := by
        unfold Place.next
        split <;> simp_all
      have single : Kept .outside [character] := by
        intro rest
        simp [unspacedFrom, stays, noBlank]
      exact single.append (hypothesis later)

/-- Marks are kept. -/
theorem kept_mark
    {character : Char}
    (mark : character ∈ ['[', ']', '{', '}', ',', ':']) :
    Kept .outside [character] := by
  simp only [List.mem_cons, List.not_mem_nil, or_false] at mark
  rcases mark with rfl | rfl | rfl | rfl | rfl | rfl <;> exact kept_of_isVisible rfl

/-! ## Lexemes -/

/-- The content of a string is kept. -/
theorem IsContent.kept
    {content : List Char}
    (formed : IsContent content) :
    Kept .inString content := by
  induction formed with
  | nil => exact kept_nil .inString
  | plain noQuote noBackslash _ _ hypothesis =>
      exact (kept_inString noQuote noBackslash).append hypothesis
  | mark _ _ hypothesis => exact (kept_escaped _).append hypothesis
  | @unit first second third fourth value rest denoted _ hypothesis =>
      have digits : ∀ digit ∈ [first, second, third, fourth], Kept .inString [digit] := by
        intro digit member
        have known := isSome_of_hexValues? denoted digit member
        apply kept_inString <;> rintro rfl <;> exact absurd known (by decide)
      simp only [List.forall_mem_cons] at digits
      exact (kept_escaped 'u').append <| digits.1.append <| digits.2.1.append <|
        digits.2.2.1.append <| digits.2.2.2.1.append hypothesis

/-- A string is kept together with its quotes. -/
theorem IsString.kept
    {text : List Char}
    (formed : IsString text) :
    Kept .outside text := by
  obtain ⟨content, rfl, inside⟩ := formed
  exact kept_between_quotes inside.kept

theorem isVisible_of_isNumeric
    {character : Char}
    (numeric : isNumeric character = true) :
    isVisible character = true := by
  simp only [isNumeric, Bool.or_eq_true, beq_iff_eq] at numeric
  obtain ((((digit | rfl) | rfl) | rfl) | rfl) | rfl := numeric
  case inl.inl.inl.inl.inl =>
    have range : 0x30 ≤ character.toNat ∧ character.toNat ≤ 0x39 :=
      Char.isDigit_iff_toNat.mp digit
    simp only [isVisible, Bool.and_eq_true, bne_iff_ne, Bool.not_eq_true']
    refine ⟨by rintro rfl; exact absurd digit (by decide), Bool.eq_false_iff.mpr fun blank => ?_⟩
    simp only [Text.isBlank, Bool.or_eq_true, Bool.and_eq_true, decide_eq_true_eq,
      beq_iff_eq] at blank
    omega
  all_goals rfl

/-- A scalar is kept. -/
theorem IsScalar.kept
    {text : List Char}
    (formed : IsScalar text) :
    Kept .outside text := by
  cases formed with
  | word known => rcases known with rfl | rfl | rfl <;> exact kept_of_isVisible rfl
  | numeral formed =>
      exact kept_of_isVisible (List.all_eq_true.mpr fun character member =>
        isVisible_of_isNumeric (formed.isNumeric character member))
  | string formed => exact formed.kept

namespace Tree

theorem kept_separated
    {parts : List (List (List Char))}
    (kept : ∀ part ∈ parts, ∀ lexeme ∈ part, Kept .outside lexeme) :
    ∀ lexeme ∈ separated parts, Kept .outside lexeme := by
  cases parts with
  | nil => simp [separated]
  | cons first others =>
      obtain ⟨now, later⟩ := List.forall_mem_cons.mp kept
      refine List.forall_mem_append.mpr ⟨now, fun lexeme member => ?_⟩
      obtain ⟨part, present, inside⟩ := List.mem_flatMap.mp member
      rcases List.mem_cons.mp inside with rfl | deeper
      · exact kept_mark (by decide)
      · exact later part present lexeme deeper

/-- Lexemes between brackets are kept together with them. -/
theorem kept_enclosed
    {opening closing : Char}
    (brackets : (opening, closing) = ('[', ']') ∨ (opening, closing) = ('{', '}'))
    {inside : List (List Char)}
    (kept : ∀ lexeme ∈ inside, Kept .outside lexeme) :
    ∀ lexeme ∈ [opening] :: (inside ++ [[closing]]), Kept .outside lexeme := by
  have ends : Kept .outside [opening] ∧ Kept .outside [closing] := by
    rcases brackets with same | same <;> obtain ⟨rfl, rfl⟩ := Prod.mk.inj same
    all_goals exact ⟨kept_mark (by decide), kept_mark (by decide)⟩
  exact List.forall_mem_cons.mpr ⟨ends.1, List.forall_mem_append.mpr
    ⟨kept, List.forall_mem_singleton.mpr ends.2⟩⟩

mutual

/-- Every lexeme of a tree is kept. -/
theorem kept_lexemes : (tree : Tree) → ∀ lexeme ∈ tree.lexemes, Kept .outside lexeme
  | .scalar lexeme => List.forall_mem_singleton.mpr lexeme.formed.kept
  | .array items => kept_enclosed (.inl rfl) (kept_separated (kept_itemLexemes items))
  | .object members => kept_enclosed (.inr rfl) (kept_separated (kept_memberLexemes members))

theorem kept_itemLexemes :
    (items : List Tree) → ∀ part ∈ itemLexemes items, ∀ lexeme ∈ part, Kept .outside lexeme
  | [] => List.forall_mem_nil _
  | item :: rest => List.forall_mem_cons.mpr ⟨kept_lexemes item, kept_itemLexemes rest⟩

theorem kept_memberLexemes :
    (members : List (Name × Tree)) →
      ∀ part ∈ memberLexemes members, ∀ lexeme ∈ part, Kept .outside lexeme
  | [] => List.forall_mem_nil _
  | (name, item) :: rest =>
      List.forall_mem_cons.mpr ⟨List.forall_mem_cons.mpr ⟨name.formed.kept,
        List.forall_mem_cons.mpr ⟨kept_mark (by decide), kept_lexemes item⟩⟩,
        kept_memberLexemes rest⟩

end

end Tree

/-! ## Texts of trees -/

/-- The blanks of structured text are blank in equations, too. -/
theorem text_isBlank_of_isBlank
    {character : Char}
    (blank : TextReader.isBlank character = true) :
    Text.isBlank character = true := by
  simp only [TextReader.isBlank, Bool.or_eq_true, beq_iff_eq] at blank
  rcases blank with ((rfl | rfl) | rfl) | rfl <;> rfl

/-- Blanks between lexemes are deleted. -/
theorem unspaced_gap_append
    {gap : List Char}
    (blank : IsGap gap)
    (rest : List Char) :
    unspaced (gap ++ rest) = unspaced rest := by
  induction gap with
  | nil => rfl
  | cons character others hypothesis =>
      obtain ⟨now, later⟩ := List.forall_mem_cons.mp blank
      rw [← hypothesis later]
      simp [unspaced, unspacedFrom, text_isBlank_of_isBlank now]

/-- Without blanks a spaced text is the lexemes that it spaces. -/
theorem Spaced.unspaced_eq
    {lexemes : List (List Char)}
    {text : List Char}
    (spaced : Spaced lexemes text)
    (kept : ∀ lexeme ∈ lexemes, Kept .outside lexeme) :
    unspaced text = lexemes.flatten := by
  induction spaced with
  | nil => rfl
  | @cons lexeme gap rest lexemes blank _ hypothesis =>
      obtain ⟨now, later⟩ := List.forall_mem_cons.mp kept
      calc unspaced (lexeme ++ (gap ++ rest))
          = lexeme ++ unspaced (gap ++ rest) := now _
        _ = lexeme ++ unspaced rest := by rw [unspaced_gap_append blank]
        _ = lexeme ++ lexemes.flatten := by rw [hypothesis later]

/-- What remains of a text that writes a tree are the lexemes of the tree. -/
theorem Tree.Writes.unspaced_eq
    {tree : Tree}
    {text : List Char}
    (writes : tree.Writes text) :
    unspaced text = tree.lexemes.flatten := by
  obtain ⟨gap, body, rfl, blank, spaced⟩ := writes
  rw [unspaced_gap_append blank, spaced.unspaced_eq tree.kept_lexemes]

/-! ## Compact texts -/

namespace Value

/-- Without blanks lexemes between brackets are written as compactly as possible. -/
theorem flatten_enclosed
    (depth : Nat)
    (opening closing : Char)
    (parts : List (List (List Char))) :
    ([opening] :: (Tree.separated parts ++ [[closing]])).flatten =
      Spacing.compact.enclose depth opening closing (parts.map List.flatten) := by
  cases parts with
  | nil => rfl
  | cons first others =>
      have later : (others.flatMap fun part => [','] :: part).flatten =
          (others.map List.flatten).flatMap fun text => ',' :: text := by
        rw [← List.flatMap_id', List.flatMap_assoc, List.flatMap_map]
        simp [List.flatMap_id']
      simp [Tree.separated, Spacing.enclose, Spacing.compact, later]

mutual

/-- The compact text of a value consists of the lexemes of its tree. -/
theorem flatten_lexemes :
    (value : Value) → (depth : Nat) → value.tree.lexemes.flatten = value.write .compact depth
  | .null, _ => rfl
  | .boolean true, _ => rfl
  | .boolean false, _ => rfl
  | .whole value, _ => List.flatten_singleton
  | .double value, _ => List.flatten_singleton
  | .string text, _ => List.flatten_singleton
  | .array items, depth => by
      rw [write, ← flatten_itemLexemes items (depth + 1)]
      exact flatten_enclosed depth '[' ']' _
  | .object members, depth => by
      rw [write, ← flatten_memberLexemes members (depth + 1)]
      exact flatten_enclosed depth '{' '}' _

theorem flatten_itemLexemes :
    (items : List Value) → (depth : Nat) →
      (Tree.itemLexemes (itemTrees items)).map List.flatten = writeItems .compact depth items
  | [], _ => rfl
  | item :: rest, depth =>
      congrArg₂ List.cons (flatten_lexemes item depth) (flatten_itemLexemes rest depth)

theorem flatten_memberLexemes :
    (members : List (String × Value)) → (depth : Nat) →
      (Tree.memberLexemes (memberTrees members)).map List.flatten =
        writeMembers .compact depth members
  | [], _ => rfl
  | (name, value) :: rest, depth => by
      refine congrArg₂ List.cons ?_ (flatten_memberLexemes rest depth)
      simp [List.flatten_cons, flatten_lexemes value depth, Spacing.compact]

end

/-- In every regular style the text of a value writes its tree. -/
theorem writes_write
    {spacing : Spacing}
    (regular : spacing.Regular)
    (value : Value)
    (depth : Nat) :
    value.tree.Writes (value.write spacing depth) :=
  ⟨[], _, rfl, isGap_nil, spaced_write regular value depth⟩

/-- Compact text writes the tree of the value. -/
theorem writes_compact (value : Value) : value.tree.Writes value.compact.toList := by
  rw [compact, String.toList_ofList]
  exact writes_write Spacing.regular_compact value 0

/-- Indented text writes the tree of the value. -/
theorem writes_pretty (value : Value) : value.tree.Writes value.pretty.toList := by
  rw [pretty, String.toList_ofList]
  exact writes_write Spacing.regular_indented value 0

/-- Without its blanks, every text that writes the tree of a value is the compact text of it. -/
theorem unspaced_eq_compact
    {value : Value}
    {text : List Char}
    (writes : value.tree.Writes text) :
    unspaced text = value.compact.toList := by
  rw [writes.unspaced_eq, flatten_lexemes value 0, compact, String.toList_ofList]

end Value

end Json
end ModelEquation
