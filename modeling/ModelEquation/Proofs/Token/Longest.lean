import ModelEquation.Proofs.Token.Measure
import ModelEquation.Proofs.Token.Opening

/-!
# The longest match

The first rule that applies is the one with the longest match: lexemes that start alike are of
one rule, but for words and names, and the rule of a word applies only where the name that could
be read instead is no longer than the word. Where the rule gives way because of a dot, the name
takes the dot as well.

A name or word of a text is therefore a token up to the last character that can be part of it,
and its kind is that of the word if it is one.
-/

namespace ModelEquation
namespace Token

open Pattern (isNamePart isNameStart)

namespace Rule

/-! ## The first rule that applies -/

section Chosen

variable {text : List Char} {action : Action} {length : Nat}

/-- The rule that is chosen applies, and those that apply do not stand before it. -/
theorem exists_place_of_choose?
    (chosen : choose? text = some (action, length)) :
    ∃ (place : Nat) (rule : Rule), table[place]? = some rule ∧ rule.action = action ∧
      rule.measure? text = some length ∧
      ∀ (other : Nat) (later : Rule), table[other]? = some later → later.measure? text ≠ none →
        place ≤ other := by
  obtain ⟨before, rule, after, split, applies, passed⟩ := List.findSome?_eq_some_iff.mp chosen
  obtain ⟨measured, found, same⟩ := Option.map_eq_some_iff.mp applies
  cases same
  refine ⟨before.length, rule, by rw [split]; simp, rfl, found, ?_⟩
  intro other later there applying
  by_contra earlier
  rw [split, List.getElem?_append_left (Nat.lt_of_not_le earlier)] at there
  exact applying (Option.map_eq_none_iff.mp (passed later (List.mem_of_getElem? there)))

/-- What is chosen is one of the rules of the table, with what it takes. -/
theorem exists_rule_of_chosen
    (chosen : choose? text = some (action, length)) :
    ∃ rule ∈ table, rule.action = action ∧ rule.measure? text = some length := by
  obtain ⟨place, rule, there, same, found, _⟩ := exists_place_of_choose? chosen
  exact ⟨rule, List.mem_of_getElem? there, same, found⟩

/-- The first character tells what is chosen, words taken as names. -/
theorem opening_of_choose?
    {first : Char}
    {others : List Char}
    (chosen : choose? (first :: others) = some (action, length)) :
    opening first = action.opening := by
  obtain ⟨rule, known, rfl, found⟩ := exists_rule_of_chosen chosen
  exact opens_of_mem_table rule known (measure_of_measure? found)

/-- Only words and names start alike. -/
theorem action_eq_of_opening_eq
    {one two : Action}
    (first : one ∈ table.map Rule.action)
    (second : two ∈ table.map Rule.action)
    (alike : one.opening = two.opening)
    (other : one.opening ≠ some .identifier) :
    one = two := by
  have apart : ∀ one ∈ table.map Rule.action, ∀ two ∈ table.map Rule.action,
      one.opening = two.opening → one.opening ≠ some .identifier → one = two := by decide
  exact apart one first two second alike other

/-- Every match is shorter than the chosen one, or as long and one of a rule that applies. -/
theorem lt_or_eq_of_choose?
    (chosen : choose? text = some (action, length))
    {rule : Rule}
    (known : rule ∈ table)
    {other : Nat}
    (measured : rule.pattern.measure text = some other) :
    other < length ∨ other = length ∧ rule.measure? text = some other := by
  obtain ⟨first, member, same, found⟩ := exists_rule_of_chosen chosen
  have alike : rule.action.opening = first.action.opening := by
    obtain ⟨character, others, rfl⟩ := List.exists_cons_of_ne_nil (ne_nil_of_measure known measured)
    rw [← opens_of_mem_table rule known measured, opening_of_choose? chosen, same]
  by_cases equal : rule.action = first.action
  · have distinct : (table.map Rule.action).Nodup := by decide
    obtain rfl := List.inj_on_of_nodup_map distinct known member equal
    rw [measure_of_measure? found] at measured
    cases measured
    exact .inr ⟨rfl, found⟩
  · have named : rule.action.opening = some .identifier := by
      by_contra other
      exact equal (action_eq_of_opening_eq (List.mem_map_of_mem known)
        (List.mem_map_of_mem member) alike other)
    obtain ⟨shorter, applies⟩ := measure?_of_named known named measured
    have whole := ((measure?_of_named member (alike ▸ named) (measure_of_measure? found)).2).mp found
    rcases Nat.lt_or_eq_of_le shorter with less | same
    · exact .inl (whole ▸ less)
    · exact .inr ⟨same.trans whole.symm, applies.mpr same⟩

/-- Where the pattern of a rule applies some rule does. Where the rule of a word gives way, that
of names applies. -/
theorem choose?_ne_none_of_measure
    {rule : Rule}
    (known : rule ∈ table)
    (measured : rule.pattern.measure text = some length) :
    choose? text ≠ none := by
  intro refused
  have each := (choose?_eq_none_iff text).mp refused
  have kept := each rule known
  cases becomes : rule.action with
  | word kind =>
      obtain ⟨first, others, rfl⟩ :=
        List.exists_cons_of_ne_nil (ne_nil_of_measure known measured)
      have starts : isNameStart first = true := by
        refine isNameStart_of_opening ?_
        rw [opens_of_mem_table rule known measured, becomes]
        rfl
      have applies := each ⟨.emit .identifier, .name⟩ (by simp [table])
      simp [measure?, Pattern.name, starts] at applies
  | emit kind => simp [measure?, becomes, measured] at kept
  | skip => simp [measure?, becomes, measured] at kept

end Chosen

/-! ## The longest match of all -/

/-- Each rule stands at the place of its expression, and measures it. -/
theorem measures_of_mem_zip :
    ∀ pair ∈ table.zip Regex.written,
      pair.1.action = pair.2.1 ∧ pair.1.pattern.Measures pair.2.2 := by
  simp only [table, Regex.written, List.zip_cons_cons, List.zip_nil_left, List.forall_mem_cons,
    List.not_mem_nil, false_imp_iff, implies_true, and_true, true_and]
  exact ⟨Pattern.number_measures, Pattern.single_measures _, Pattern.single_measures _,
    Pattern.single_measures _, Pattern.single_measures _, Pattern.single_measures _,
    Pattern.single_measures _, Pattern.word_measures (by decide),
    Pattern.word_measures (by decide), Pattern.word_measures (by decide),
    Pattern.blanks_measures, Pattern.comparison_measures, Pattern.word_measures (by decide),
    Pattern.word_measures (by decide), Pattern.word_measures (by decide),
    Pattern.name_measures, Pattern.quoted_measures, Pattern.single_measures _⟩

/-- The rule of an expression. -/
theorem exists_rule_of_written
    {place : Nat}
    {entry : Action × Regex}
    (there : Regex.written[place]? = some entry) :
    ∃ rule, table[place]? = some rule ∧ rule.action = entry.1 ∧
      rule.pattern.Measures entry.2 := by
  have bound : place < table.length := (List.getElem?_eq_some_iff.mp there).1
  have pair : (table.zip Regex.written)[place]? = some (table[place], entry) :=
    List.getElem?_zip_eq_some.mpr ⟨List.getElem?_eq_getElem bound, there⟩
  exact ⟨table[place], List.getElem?_eq_getElem bound,
    measures_of_mem_zip _ (List.mem_of_getElem? pair)⟩

/-- The expression of a rule. -/
theorem exists_written_of_rule
    {place : Nat}
    {rule : Rule}
    (there : table[place]? = some rule) :
    ∃ entry, Regex.written[place]? = some entry ∧ rule.action = entry.1 ∧
      rule.pattern.Measures entry.2 := by
  have bound : place < Regex.written.length := (List.getElem?_eq_some_iff.mp there).1
  have pair : (table.zip Regex.written)[place]? = some (rule, Regex.written[place]) :=
    List.getElem?_zip_eq_some.mpr ⟨there, List.getElem?_eq_getElem bound⟩
  exact ⟨Regex.written[place], List.getElem?_eq_getElem bound,
    measures_of_mem_zip _ (List.mem_of_getElem? pair)⟩

/-- The expression at the place has a match of the length, no expression has a longer one, and
none before it has one as long. -/
structure IsLongest (text : List Char) (place length : Nat) : Prop where
  found : ∃ entry, Regex.written[place]? = some entry ∧ entry.2.MatchesAt text length
  longest : ∀ (other : Nat) (entry : Action × Regex) (size : Nat),
    Regex.written[other]? = some entry → entry.2.MatchesAt text size →
      size < length ∨ size = length ∧ place ≤ other

/-- At most one rule has the longest match, if the earlier one is preferred. -/
theorem IsLongest.unique
    {text : List Char}
    {place length other size : Nat}
    (first : IsLongest text place length)
    (second : IsLongest text other size) :
    place = other ∧ length = size := by
  obtain ⟨entry, there, matched⟩ := first.found
  obtain ⟨later, behind, found⟩ := second.found
  have bound := first.longest other later size behind found
  have back := second.longest place entry length there matched
  omega

/-- The action of the expression at a place. -/
def actionAt? (place : Nat) : Option Action :=
  (Regex.written[place]?).map Prod.fst

section Maximal

variable {text : List Char} {action : Action} {length : Nat}

/-- What is chosen is the longest match of all. -/
theorem isLongest_of_choose?
    (chosen : choose? text = some (action, length)) :
    ∃ place, actionAt? place = some action ∧ IsLongest text place length := by
  obtain ⟨place, rule, there, same, found, first⟩ := exists_place_of_choose? chosen
  obtain ⟨entry, written, acts, measures⟩ := exists_written_of_rule there
  refine ⟨place, by simp [actionAt?, written, ← acts, same], ⟨entry, written, ?_⟩, ?_⟩
  · exact measures.found (measure_of_measure? found)
  · rintro other later size behind ⟨part, after, rfl, rfl, matched⟩
    obtain ⟨rule, stands, _, measuresLater⟩ := exists_rule_of_written behind
    obtain ⟨longest, measured, shorter⟩ := measuresLater.longest matched
    rcases lt_or_eq_of_choose? chosen (List.mem_of_getElem? stands) measured with
      less | ⟨rfl, applies⟩
    · exact .inl (Nat.lt_of_le_of_lt shorter less)
    · have behindFirst := first other rule stands (by simp [applies])
      omega

/-- No rule is chosen exactly where no expression has a match. -/
theorem choose?_eq_none_iff_matchesAt :
    choose? text = none ↔
      ∀ entry ∈ Regex.written, ∀ length, ¬ entry.2.MatchesAt text length := by
  constructor
  · rintro refused entry member length ⟨part, after, rfl, rfl, matched⟩
    obtain ⟨place, there⟩ := List.mem_iff_getElem?.mp member
    obtain ⟨rule, stands, _, measures⟩ := exists_rule_of_written there
    obtain ⟨longest, measured, _⟩ := measures.longest matched
    exact choose?_ne_none_of_measure (List.mem_of_getElem? stands) measured refused
  · intro unmatched
    cases chosen : choose? text with
    | none => rfl
    | some result =>
        obtain ⟨place, _, longest⟩ := isLongest_of_choose? chosen
        obtain ⟨entry, there, matched⟩ := longest.found
        exact absurd matched (unmatched entry (List.mem_of_getElem? there) _)

/-- The rules choose the longest match of all, and the first of those that are as long. -/
theorem choose?_eq_some_iff_isLongest :
    choose? text = some (action, length) ↔
      ∃ place, actionAt? place = some action ∧ IsLongest text place length := by
  constructor
  · exact isLongest_of_choose?
  · rintro ⟨place, acts, longest⟩
    obtain ⟨entry, there, matched⟩ := longest.found
    cases chosen : choose? text with
    | none =>
        exact absurd matched
          (choose?_eq_none_iff_matchesAt.mp chosen entry (List.mem_of_getElem? there) length)
    | some result =>
        obtain ⟨other, actsToo, longestToo⟩ := isLongest_of_choose? chosen
        obtain ⟨rfl, rfl⟩ := longest.unique longestToo
        rw [acts, Option.some.injEq] at actsToo
        rw [actsToo]

end Maximal

/-- Where a name or word stands, what is chosen takes all of the run. -/
theorem length_of_choose?_named
    {text : List Char}
    {action : Action}
    {length : Nat}
    (starts : ∀ first ∈ text.head?, isNameStart first = true)
    (chosen : choose? text = some (action, length)) :
    action.opening = some .identifier ∧ length = (run text).length ∧
      ∃ rule ∈ table, rule.action = action ∧ rule.measure? text = some length := by
  obtain ⟨rule, known, same, found⟩ := exists_rule_of_chosen chosen
  have measured := measure_of_measure? found
  obtain ⟨first, others, rfl⟩ := List.exists_cons_of_ne_nil (ne_nil_of_measure known measured)
  have named : rule.action.opening = some .identifier := by
    rw [← opens_of_mem_table rule known measured]
    exact Pattern.opening_of_isNameStart (starts first rfl)
  exact ⟨same ▸ named, (measure?_of_named known named measured).2.mp found, rule, known, same,
    found⟩

end Rule

namespace Cursor

variable {cursor after : Cursor} {tokens : List Token} {token : Token}

/-- A token that is read comes from a place on the way, and the reading goes on behind it. -/
theorem Reads.exists_place
    (reads : Reads cursor tokens after)
    (member : token ∈ tokens) :
    ∃ (front : List Char) (middle : Cursor) (action : Action) (length : Nat) (later : List Token),
      cursor.rest = front ++ middle.rest ∧
      middle.position = cursor.position + Text.byteLength front ∧
      Rule.choose? middle.rest = some (action, length) ∧
      token ∈ middle.emitted action length ∧
      Reads (middle.advance length) later after := by
  induction reads with
  | refl cursor => contradiction
  | @round cursor after action length tokens nonempty chosen later hypothesis =>
      rcases List.mem_append.mp member with here | behind
      · exact ⟨[], cursor, action, length, tokens, rfl, rfl, chosen, here, later⟩
      · obtain ⟨front, middle, found⟩ := hypothesis behind
        obtain ⟨next, size, tail, split, place, rest⟩ := found
        refine ⟨cursor.rest.take length ++ front, middle, next, size, tail, ?_, ?_, rest⟩
        · rw [List.append_assoc, ← split, advance, List.take_append_drop]
        · rw [place, advance, Text.byteLength_append, Nat.add_assoc]

/-- A name or word that is read is a token up to its end, of the kind that it tells. -/
theorem run_of_choose?
    {action : Action}
    {length : Nat}
    {kind : Kind}
    (starts : ∀ first ∈ cursor.rest.head?, isNameStart first = true)
    (chosen : Rule.choose? cursor.rest = some (action, length))
    (emits : action.kind? = some kind)
    (read : (cursor.advance length).tokens = .ok tokens) :
    cursor.rest.take length = Rule.run cursor.rest ∧
      kind = Rule.namedKind (String.ofList (cursor.rest.take length)) := by
  obtain ⟨named, whole, rule, known, rfl, found⟩ := Rule.length_of_choose?_named starts chosen
  have lexeme : cursor.rest.take length = Rule.run cursor.rest := by
    rw [whole]
    exact (List.prefix_iff_eq_take.mp (List.takeWhile_prefix isNamePart)).symm
  refine ⟨lexeme, ?_⟩
  obtain rfl | ⟨word, letter, letters, rfl, parts, tells⟩ :=
    Rule.named_of_mem_table rule known named
  · cases emits
    obtain ⟨_, _, _, _, _, free⟩ := (isName_iff _).mp (isName_of_choose? chosen read)
    exact (Rule.namedKind_of_notMem free).symm
  · cases emits
    obtain ⟨rest, split, size, _⟩ :=
      Pattern.split_of_measure_word (Rule.measure_of_measure? found)
    rw [split, size, List.take_left, tells]

end Cursor

/-- A token of a text is a lexeme at its place, and what stands behind it is read to its end. -/
theorem exists_lexeme_of_tokenize
    {text : List Char}
    {tokens : List Token}
    (read : tokenize text = .ok tokens)
    {token : Token}
    (member : token ∈ tokens) :
    ∃ (front : List Char) (cursor : Cursor) (action : Action) (length : Nat) (later : List Token),
      text = front ++ cursor.rest ∧ token.position = Text.byteLength front ∧
      Rule.choose? cursor.rest = some (action, length) ∧ action.kind? = some token.kind ∧
      token.text = String.ofList (cursor.rest.take length) ∧
      (cursor.advance length).tokens = .ok later := by
  obtain ⟨position, reads⟩ := Cursor.reads_of_tokens_ok read
  obtain ⟨front, cursor, action, length, later, whole, there, chosen, emitted, behind⟩ :=
    reads.exists_place member
  cases emits : action.kind? with
  | none => simp [Cursor.emitted, emits] at emitted
  | some kind =>
      obtain rfl : token = ⟨kind, String.ofList (cursor.rest.take length), cursor.position⟩ := by
        simpa [Cursor.emitted, emits] using emitted
      have readBehind : (cursor.advance length).tokens = .ok later := by
        rw [behind.tokens_eq, Cursor.tokens_nil]
        exact congrArg Except.ok (List.append_nil later)
      refine ⟨front, cursor, action, length, later, whole, ?_, chosen, emits, rfl, readBehind⟩
      rw [there]
      exact Nat.zero_add _

/-- At every place of a text the first rule that applies is the one with the longest match of
all expressions, the first of these where several are as long, and no rule applies exactly
where no expression has a match. Where all of the text is read, each token that starts like a
name is all of the run of name characters at its place, and it is of the kind of a word exactly
if it is that word. -/
theorem tokenize_longest (text : List Char) :
    (∀ front rest, text = front ++ rest →
      (∀ action length, Rule.choose? rest = some (action, length) ↔
        ∃ place, Rule.actionAt? place = some action ∧ Rule.IsLongest rest place length) ∧
      (Rule.choose? rest = none ↔
        ∀ entry ∈ Regex.written, ∀ length, ¬ entry.2.MatchesAt rest length)) ∧
    ∀ tokens, tokenize text = .ok tokens → ∀ token ∈ tokens, ∀ front first others,
      text = front ++ first :: others → Text.byteLength front = token.position →
        isNameStart first = true →
          token.text.toList = first :: others.takeWhile isNamePart ∧
            token.kind = Rule.namedKind token.text := by
  refine ⟨fun front rest _ => ⟨fun action length => Rule.choose?_eq_some_iff_isLongest,
    Rule.choose?_eq_none_iff_matchesAt⟩, ?_⟩
  intro tokens read token member front first others split place starts
  obtain ⟨before, cursor, action, length, later, whole, there, chosen, emits, lexeme, behind⟩ :=
    exists_lexeme_of_tokenize read member
  have here : Text.splitAt? text token.position = some (before, cursor.rest) :=
    Text.splitAt?_eq_some_iff.mpr ⟨whole, there.symm⟩
  rw [Text.splitAt?_eq_some_iff.mpr ⟨split, place⟩, Option.some.injEq, Prod.mk.injEq] at here
  obtain ⟨rfl, same⟩ := here
  obtain ⟨taken, tells⟩ := Cursor.run_of_choose? (by simpa [← same] using starts) chosen emits behind
  rw [lexeme]
  refine ⟨?_, tells⟩
  rw [String.toList_ofList, taken, ← same, Rule.run,
    List.takeWhile_cons_of_pos (Rule.isNamePart_of_isNameStart starts)]

/-- A word that a dot follows is read as a name, which is longer. -/
theorem tokenize_longest_of_dotted_word :
    tokenize "if then.x>1.e5".toList =
      .ok [⟨.ifWord, "if", 0⟩, ⟨.identifier, "then.x", 3⟩, ⟨.comparison, ">", 9⟩,
        ⟨.number, "1.e5", 10⟩] ∧
      (∃ place, Rule.actionAt? place = some (.emit .identifier) ∧
        Rule.IsLongest "then.x>1.e5".toList place 6) ∧
      "then.x".toList = 't' :: "hen.x>1.e5".toList.takeWhile isNamePart ∧
      Kind.identifier = Rule.namedKind "then.x" := by
  have read : tokenize "if then.x>1.e5".toList =
      .ok [⟨.ifWord, "if", 0⟩, ⟨.identifier, "then.x", 3⟩, ⟨.comparison, ">", 9⟩,
        ⟨.number, "1.e5", 10⟩] := by
    with_unfolding_all rfl
  obtain ⟨choices, names⟩ := tokenize_longest "if then.x>1.e5".toList
  refine ⟨read, ((choices "if ".toList "then.x>1.e5".toList (by decide)).1 _ _).mp ?_, ?_⟩
  · with_unfolding_all rfl
  · exact names _ read ⟨.identifier, "then.x", 3⟩ (by simp) "if ".toList 't' "hen.x>1.e5".toList
      (by decide) (by decide) (by decide)

end Token
end ModelEquation
