import ModelEquation.Proofs.Grammar.Continuation

/-!
# Reading what a derivation forms

The readers of the grammar accept the tokens of every greedy derivation and build
its tree, as long as the levels suffice for the derivation and the limit for the
height of the tree. What follows a phrase matters: its reader stops there only if
no production could go on. Each phrase therefore has a condition on the tokens
after it, and its statement says in which state its reader arrives there.
-/

namespace ModelEquation
namespace Expr
namespace Grammar

/-- No phrase that may be an operand starts with a closing parenthesis, and no
list is empty. -/
def Phrase.Starts (tokens : List Token) : Phrase → Prop
  | .chain _ _ | .operand _ | .condition _ => True
  | .list trees =>
      trees ≠ [] ∧ ∃ token others, tokens = token :: others ∧ token.kind ≠ .rightParenthesis
  | _ => ∃ token others, tokens = token :: others ∧ token.kind ≠ .rightParenthesis

/-- No derived operand starts with a closing parenthesis. A phrase that starts with another one
starts with the same token. -/
theorem Derives.starts
    {convention : Convention}
    {depth : Nat}
    {phrase : Phrase}
    {tokens : List Token}
    (derived : Derives convention depth phrase tokens) :
    phrase.Starts tokens := by
  have extended {front : List Token} (more : List Token)
      (starts : ∃ token others, front = token :: others ∧ token.kind ≠ .rightParenthesis) :
      ∃ token others, front ++ more = token :: others ∧ token.kind ≠ .rightParenthesis := by
    obtain ⟨token, others, rfl, other⟩ := starts
    exact ⟨token, others ++ more, rfl, other⟩
  induction derived with
  | ofTerm _ whole | ofFactor _ whole | ofPrimary _ whole => exact whole
  | sum _ _ _ _ first | product _ _ _ _ first => exact extended _ first
  | number kind | string kind | signed kind | name kind =>
      exact ⟨_, _, rfl, by rw [kind]; decide⟩
  | conditional kind | group kind =>
      exact ⟨_, _, by simp only [List.cons_append]; rfl, by rw [kind]; decide⟩
  | emptyCall _ _ _ applied => exact extended _ applied
  | call _ _ _ _ applied | index _ _ _ _ _ _ applied =>
      rw [List.append_assoc]
      exact extended _ applied
  | single _ only => exact ⟨List.cons_ne_nil _ _, only⟩
  | append _ _ _ before => exact ⟨by simp, extended _ before.2⟩
  | noMember | bareMember | member | comparison | conditionGroup | ofOperand | logical => trivial

/-- What the readers do with the tokens of a phrase: from where the phrase ends,
the reader is as if it had just built the tree. -/
def Reads (limit depth : Nat) (used : List Token) : Phrase → Prop
  | .expression ending tree =>
      tree.height ≤ limit →
      Resumes limit (level limit depth) used ∧
      ∀ rest, Avoids ending.stopKinds rest →
        (∀ token ∈ rest.head?, arithmetic? false token = none) →
        (expression limit (level limit depth)).run (used ++ rest) =
          (expressionFrom limit (level limit depth) tree.built).run rest
  | .term ending tree =>
      tree.height ≤ limit →
      Resumes limit (level limit depth) used ∧
      ∀ rest, Avoids ending.stopKinds rest →
        (term limit (level limit depth)).run (used ++ rest) =
          (termFrom limit (level limit depth) tree.built).run rest
  | .factor ending tree =>
      tree.height ≤ limit →
      Resumes limit (level limit depth) used ∧
      ∀ rest, Avoids ending.stopKinds rest →
        (level limit depth).factor.run (used ++ rest) = .ok (tree.built, rest)
  | .primary ending tree =>
      tree.height ≤ limit →
      Resumes limit (level limit (depth + 1)) used ∧
      ∀ rest, Avoids (.dot :: ending.openKinds) rest →
        (factorBody limit (level limit depth)).run (used ++ rest) =
          (postfixed limit (level limit depth) tree.built).run rest
  | .list trees =>
      tallest trees ≤ limit →
      ∀ rest, Avoids expressionKinds rest →
        (expressionList limit (level limit depth)).run (used ++ rest) =
          (expressionListFrom limit (level limit depth) ⟨trees, tallest trees⟩).run rest
  | .chain ending members =>
      Variable.tallest members ≤ limit →
      ∀ rest, Avoids ending.openKinds rest →
        (memberChain limit (level limit depth)).run (used ++ rest) =
          (memberChainFrom limit (level limit depth)
            ⟨members, Variable.tallest members⟩).run rest
  | .operand tree =>
      tree.height ≤ limit →
      ∀ rest, Avoids expressionKinds rest →
        (conditionOperand limit (level limit depth)).run (used ++ rest) =
          .ok (.condition tree.built, rest)
  | .condition tree =>
      tree.height ≤ limit →
      ∀ rest, Avoids expressionKinds rest →
        (level limit depth).operand.run (used ++ rest) =
          (logical limit (level limit (depth - 1)) tree.built >>= fun built =>
            pure (.condition built)).run rest

/-- An expression is read to its end where no operator follows. -/
theorem run_expression_of_read
    {limit depth : Nat}
    {ending : Ending}
    {tree : Expr}
    {used : List Token}
    (read : Reads limit depth used (.expression ending tree))
    (fits : tree.height ≤ limit)
    (rest : List Token)
    (avoids : Avoids expressionKinds rest) :
    (expression limit (level limit depth)).run (used ++ rest) = .ok (tree.built, rest) := by
  have noOperator : Avoids [.operator] rest := avoids.subset (by simp [expressionKinds])
  have stops : ∀ token ∈ rest.head?, arithmetic? false token = none := fun token next =>
    arithmetic?_eq_none (by simpa using noOperator token next)
  rw [(read fits).2 rest (avoids.subset ending.stopKinds_subset) stops]
  exact run_expressionFrom_of_avoids noOperator _

/-- A condition is read to its end where no connective follows. -/
theorem run_operand_of_read
    {limit depth : Nat}
    {tree : Expr}
    {used : List Token}
    (read : Reads limit depth used (.condition tree))
    (fits : tree.height ≤ limit)
    (rest : List Token)
    (avoids : Avoids (.andWord :: .orWord :: expressionKinds) rest) :
    (level limit depth).operand.run (used ++ rest) = .ok (.condition tree.built, rest) := by
  have ends : (logical limit (level limit (depth - 1)) tree.built).run rest =
      .ok (tree.built, rest) := by
    refine Reader.run_extend_of_stops (fun token next => ?_) _
    have other := avoids token next
    cases named : connective? token with
    | none => rfl
    | some operator =>
        rcases kind_of_connective? named with kind | kind <;> simp [kind] at other
  rw [read fits rest (avoids.subset (by simp [expressionKinds])), Reader.run_bind, ends]
  rfl

section Productions

variable {limit depth : Nat}

theorem reads_ofTerm
    {ending : Ending}
    {tree : Expr}
    {tokens : List Token}
    (whole : Reads limit depth tokens (.term ending tree)) :
    Reads limit depth tokens (.expression ending tree) := by
  intro fits
  refine ⟨resumes limit _ _, fun rest avoids stops => ?_⟩
  rw [expression, Reader.run_bind, (whole fits).2 rest avoids, run_termFrom_of_avoids stops]

theorem reads_ofFactor
    {ending : Ending}
    {tree : Expr}
    {tokens : List Token}
    (whole : Reads limit depth tokens (.factor ending tree)) :
    Reads limit depth tokens (.term ending tree) := by
  intro fits
  refine ⟨resumes limit _ _, fun rest avoids => ?_⟩
  rw [term, Reader.run_bind, (whole fits).2 rest avoids]

/-- A primary is read as a factor one level further out. -/
theorem reads_ofPrimary
    {ending : Ending}
    {tree : Expr}
    {tokens : List Token}
    (whole : Reads limit depth tokens (.primary ending tree)) :
    Reads limit (depth + 1) tokens (.factor ending tree) := by
  intro fits
  refine ⟨resumes limit _ _, fun rest avoids => ?_⟩
  rw [level, Reader.run_defer, (whole fits).2 rest (avoids.subset
    (by simp [Ending.stopKinds, postfixKinds]))]
  exact run_postfixed_of_avoids (avoids.subset (List.subset_append_left _ _)) _

/-- An expression in parentheses is read as a primary. -/
theorem reads_group
    {ending : Ending}
    {tree : Expr}
    {tokens : List Token}
    {opening closing : Token}
    (openingKind : opening.kind = .leftParenthesis)
    (inner : Reads limit depth tokens (.expression ending tree))
    (closingKind : closing.kind = .rightParenthesis) :
    Reads limit depth (opening :: tokens ++ [closing]) (.primary .closed tree) := by
  intro fits
  have reads rest := run_expression_of_read inner fits (closing :: rest)
    (by simp [closingKind, expressionKinds, postfixKinds])
  refine ⟨resumes limit _ _, fun rest _ => ?_⟩
  simp [factorBody, openingKind, grouped, reads, run_expect closingKind]

/-- A condition in parentheses is read as an operand of a condition. -/
theorem reads_conditionGroup
    {tree : Expr}
    {tokens : List Token}
    {opening closing : Token}
    (openingKind : opening.kind = .leftParenthesis)
    (inner : Reads limit depth tokens (.condition tree))
    (closingKind : closing.kind = .rightParenthesis) :
    Reads limit depth (opening :: tokens ++ [closing]) (.operand tree) := by
  intro fits rest _
  have reads := run_operand_of_read inner fits (closing :: rest)
    (by simp [closingKind, expressionKinds, postfixKinds])
  simp [conditionOperand, run_sees, openingKind, reads, run_expect closingKind]

/-- A term behind an additive operator extends a sum. -/
theorem reads_sum
    {before after : Ending}
    {left right : Expr}
    {front back : List Token}
    {token : Token}
    {operator : Arithmetic}
    (first : Reads limit depth front (.expression before left))
    (admitted : Convention.greedy.admitsOperator before = true)
    (named : arithmetic? true token = some operator)
    (second : Reads limit depth back (.term after right)) :
    Reads limit depth (front ++ token :: back)
      (.expression after (.binary operator left right)) := by
  intro fits
  have parts : left.height ≤ limit ∧ right.height ≤ limit := by
    rw [height] at fits
    omega
  refine ⟨resumes limit _ _, fun rest avoids stops => ?_⟩
  have kind := kind_of_arithmetic? named
  rw [List.append_assoc, List.cons_append, (first parts.1).2]
  · refine run_folded named ?_ fits
    rw [(second parts.2).2 rest avoids]
    exact run_termFrom_of_avoids stops _
  · have notOpen := Ending.operator_notMem_openKinds admitted
    simpa [Ending.stopKinds, postfixKinds, kind] using notOpen
  · simpa using arithmetic?_false_of_true named

/-- A factor behind another operator extends a product. -/
theorem reads_product
    {before after : Ending}
    {left right : Expr}
    {front back : List Token}
    {token : Token}
    {operator : Arithmetic}
    (first : Reads limit depth front (.term before left))
    (admitted : Convention.greedy.admitsOperator before = true)
    (named : arithmetic? false token = some operator)
    (second : Reads limit depth back (.factor after right)) :
    Reads limit depth (front ++ token :: back) (.term after (.binary operator left right)) := by
  intro fits
  have parts : left.height ≤ limit ∧ right.height ≤ limit := by
    rw [height] at fits
    omega
  refine ⟨resumes limit _ _, fun rest avoids => ?_⟩
  have kind := kind_of_arithmetic? named
  rw [List.append_assoc, (first parts.1).2]
  · exact run_folded named ((second parts.2).2 rest avoids) fits
  · have notOpen := Ending.operator_notMem_openKinds admitted
    simpa [Ending.stopKinds, postfixKinds, kind] using notOpen

/-- A conditional is read by its condition and both of its branches. -/
theorem reads_conditional
    {chosen whenTrue whenFalse : Expr}
    {trueEnding falseEnding : Ending}
    {conditionTokens trueTokens falseTokens : List Token}
    {ifToken thenToken elseToken : Token}
    (ifKind : ifToken.kind = .ifWord)
    (condition : Reads limit depth conditionTokens (.condition chosen))
    (thenKind : thenToken.kind = .thenWord)
    (first : Reads limit depth trueTokens (.expression trueEnding whenTrue))
    (elseKind : elseToken.kind = .elseWord)
    (second : Reads limit depth falseTokens (.expression falseEnding whenFalse)) :
    Reads limit (depth + 1)
      (ifToken :: conditionTokens ++ thenToken :: trueTokens ++ elseToken :: falseTokens)
      (.factor .branch (.conditional chosen whenTrue whenFalse)) := by
  intro fits
  have parts : (chosen.height ≤ limit ∧ whenTrue.height ≤ limit) ∧ whenFalse.height ≤ limit := by
    rw [height] at fits
    omega
  refine ⟨resumes limit _ _, fun rest avoids => ?_⟩
  have chooses := run_operand_of_read condition parts.1.1
    (thenToken :: (trueTokens ++ elseToken :: (falseTokens ++ rest)))
    (by simp [thenKind, expressionKinds, postfixKinds])
  have selects := run_expression_of_read first parts.1.2
    (elseToken :: (falseTokens ++ rest)) (by simp [elseKind, expressionKinds, postfixKinds])
  have otherwise := run_expression_of_read second parts.2 rest (avoids.subset
    (by simp [expressionKinds, Ending.stopKinds, Ending.openKinds, postfixKinds]))
  simp only [List.cons_append, List.append_assoc, level, Reader.run_defer, factorBody,
    Reader.run_bind, Reader.run_peek, List.head?_cons, ifKind, conditional, run_expect ifKind,
    chooses, Grammar.condition, Reader.run_pure, run_expect thenKind, selects,
    run_expect elseKind, otherwise]
  exact run_grow fits _ rest

/-- Two expressions with a comparison in between are read as an operand of a condition. -/
theorem reads_comparison
    {leftEnding rightEnding : Ending}
    {left right : Expr}
    {front back : List Token}
    {token : Token}
    {operator : Comparison}
    (first : Reads limit depth front (.expression leftEnding left))
    (named : comparison? token = some operator)
    (second : Reads limit depth back (.expression rightEnding right)) :
    Reads limit depth (front ++ token :: back) (.operand (.compare operator left right)) := by
  intro fits rest avoids
  have parts : left.height ≤ limit ∧ right.height ≤ limit := by
    rw [height] at fits
    omega
  have kind := kind_of_comparison? named
  have leads := run_expression_of_read first parts.1 (token :: (back ++ rest))
    (by simp [kind, expressionKinds, postfixKinds])
  have follows := run_expression_of_read second parts.2 rest avoids
  rw [List.append_assoc]
  refine (first parts.1).1 _ _ ?_
  have grows :
      (grow limit (max left.height right.height) (.compare operator left right)).run rest =
        .ok ((Expr.compare operator left right).built, rest) := run_grow fits _ rest
  simp only [List.cons_append, Reader.run_bind, leads, comparisonFrom, Reader.run_peek,
    List.head?_cons, Option.bind_some, named, Reader.run_skip, List.tail_cons, follows]
  simp only [built] at grows ⊢
  rw [grows]
  rfl

/-- Arguments in parentheses are read as a call of the primary in front. -/
theorem reads_call
    {ending : Ending}
    {callee : Expr}
    {arguments : List Expr}
    {tokens argumentTokens : List Token}
    {opening closing : Token}
    (applied : Reads limit depth tokens (.primary ending callee))
    (openingKind : opening.kind = .leftParenthesis)
    (starts : ∃ token others,
      argumentTokens = token :: others ∧ token.kind ≠ .rightParenthesis)
    (inner : Reads limit depth argumentTokens (.list arguments))
    (closingKind : closing.kind = .rightParenthesis) :
    Reads limit depth (tokens ++ opening :: argumentTokens ++ [closing])
      (.primary .closed (.call callee arguments)) := by
  intro fits
  have parts : callee.height ≤ limit ∧ tallest arguments ≤ limit := by
    rw [height] at fits
    omega
  refine ⟨resumes limit _ _, fun rest _ => ?_⟩
  have lists := run_expressionList rest (by rw [closingKind]; decide)
    (inner parts.2 (closing :: rest) (by simp [closingKind, expressionKinds, postfixKinds]))
  simp only [List.append_assoc, List.cons_append, List.nil_append]
  rw [(applied parts.1).2]
  · refine run_postfixed_call openingKind closingKind ?_ lists fits
    obtain ⟨token, others, rfl, other⟩ := starts
    simpa using other
  · cases ending <;> simp [openingKind, Ending.openKinds]

/-- Indices in brackets and members behind them are read as indexing the primary in front. -/
theorem reads_index
    {before after : Ending}
    {target : Expr}
    {indices : List Expr}
    {members : List Variable}
    {tokens indexTokens memberTokens : List Token}
    {opening closing : Token}
    (applied : Reads limit depth tokens (.primary before target))
    (admitted : Convention.greedy.admitsBracket before = true)
    (openingKind : opening.kind = .leftBracket)
    (nonempty : indices ≠ [])
    (inner : Reads limit depth indexTokens (.list indices))
    (closingKind : closing.kind = .rightBracket)
    (continued : Reads limit depth memberTokens (.chain after members)) :
    Reads limit depth (tokens ++ opening :: indexTokens ++ closing :: memberTokens)
      (.primary after (target.indexed indices members)) := by
  intro fits
  have parts :
      (target.height ≤ limit ∧ tallest indices ≤ limit) ∧ Variable.tallest members ≤ limit := by
    rw [height_indexed nonempty] at fits
    omega
  refine ⟨resumes limit _ _, fun rest avoids => ?_⟩
  have lists := run_expressionList (memberTokens ++ rest) (by rw [closingKind]; decide)
    (inner parts.1.2 (closing :: (memberTokens ++ rest))
      (by simp [closingKind, expressionKinds, postfixKinds]))
  have chains : (memberChain limit (level limit depth)).run (memberTokens ++ rest) =
      .ok (⟨members, Variable.tallest members⟩, rest) := by
    rw [continued parts.2 rest (avoids.subset (by simp)), memberChainFrom]
    refine Reader.run_extend_of_stops (fun token next => if_neg ?_) _
    have other := avoids token next
    simp only [List.mem_cons, not_or] at other
    exact other.1
  simp only [List.append_assoc, List.cons_append]
  rw [(applied parts.1.1).2]
  · exact run_postfixed_index openingKind closingKind nonempty lists chains fits
  · have notOpen := Ending.leftBracket_notMem_openKinds admitted
    simpa [openingKind] using notOpen

/-- A name with arguments behind a dot extends a chain. -/
theorem reads_member
    {ending : Ending}
    {members : List Variable}
    {arguments : List Expr}
    {tokens argumentTokens : List Token}
    {dot name opening closing : Token}
    (before : Reads limit depth tokens (.chain ending members))
    (dotKind : dot.kind = .dot)
    (nameKind : name.kind = .identifier)
    (openingKind : opening.kind = .leftBracket)
    (inner : Reads limit depth argumentTokens (.list arguments))
    (closingKind : closing.kind = .rightBracket) :
    Reads limit depth (tokens ++ dot :: name :: opening :: argumentTokens ++ [closing])
      (.chain .closed (members ++ [⟨name.text, none, some arguments, []⟩])) := by
  intro fits rest _
  have parts : Variable.tallest members ≤ limit ∧ tallest arguments ≤ limit := by
    simp only [Variable.tallest_append, Variable.tallest, Variable.height, groupHeight] at fits
    omega
  have lists := run_expressionList rest (by rw [closingKind]; decide)
    (inner parts.2 (closing :: rest) (by simp [closingKind, expressionKinds, postfixKinds]))
  simp only [List.append_assoc, List.cons_append, List.nil_append]
  rw [before parts.1]
  · exact run_memberChainFrom_member dotKind nameKind openingKind closingKind lists
  · cases ending <;> simp [dotKind, Ending.openKinds]

/-- An expression behind a comma extends a list. -/
theorem reads_append
    {ending : Ending}
    {trees : List Expr}
    {tree : Expr}
    {front back : List Token}
    {comma : Token}
    (before : Reads limit depth front (.list trees))
    (kind : comma.kind = .comma)
    (last : Reads limit depth back (.expression ending tree)) :
    Reads limit depth (front ++ comma :: back) (.list (trees ++ [tree])) := by
  intro fits rest avoids
  have parts : tallest trees ≤ limit ∧ tree.height ≤ limit := by
    simp only [tallest_append, tallest] at fits
    omega
  have reads := run_expression_of_read last parts.2 rest avoids
  rw [List.append_assoc, List.cons_append, before parts.1 _
    (by simp [kind, expressionKinds, postfixKinds])]
  refine Reader.run_extend_of_ran _ (if_pos kind) ?_
  rw [Reader.run_bind, reads]
  simp [Listed.append, built, tallest]

/-- An operand behind a connective extends a condition. -/
theorem reads_logical
    {left right : Expr}
    {front back : List Token}
    {token : Token}
    {operator : Connective}
    (first : Reads limit (depth + 1) front (.condition left))
    (named : connective? token = some operator)
    (second : Reads limit depth back (.operand right)) :
    Reads limit (depth + 1) (front ++ token :: back)
      (.condition (.logical operator left right)) := by
  intro fits rest avoids
  have parts : left.height ≤ limit ∧ right.height ≤ limit := by
    rw [height] at fits
    omega
  have follows := second parts.2 rest avoids
  have round :
      (logical limit (level limit depth) left.built).run (token :: (back ++ rest)) =
        (logical limit (level limit depth) (Expr.logical operator left right).built).run rest := by
    refine Reader.run_extend_of_ran _ (by rw [named]; rfl) ?_
    rw [Reader.run_bind, follows]
    exact run_grow fits _ rest
  rw [List.append_assoc, List.cons_append, first parts.1, Reader.run_bind, Reader.run_bind]
  · simp only [Nat.add_sub_cancel, round]
  · rcases kind_of_connective? named with kind | kind <;>
      simp [kind, expressionKinds, postfixKinds]

/-- An operand alone is read as a condition, since without a connective the loop for the further
operands makes no round. -/
theorem reads_ofOperand
    {tree : Expr}
    {tokens : List Token}
    (whole : Reads limit depth tokens (.operand tree)) :
    Reads limit (depth + 1) tokens (.condition tree) := by
  intro fits rest avoids
  rw [level, Reader.run_defer, operandBody, Reader.run_bind, whole fits rest avoids]
  cases named : rest.head?.bind connective? with
  | some operator => simp [named, Grammar.condition]
  | none =>
      have stops : (logical limit (level limit depth) tree.built).run rest =
          .ok (tree.built, rest) := by
        refine Reader.run_extend_of_stops (fun token next => ?_) _
        rw [Option.mem_def.mp next, Option.bind_some] at named
        rw [named]
        rfl
      simp [named, stops]

end Productions

/-- The readers read what a greedy derivation forms, and build its tree. -/
theorem Derives.reads
    {limit depth : Nat}
    {phrase : Phrase}
    {tokens : List Token}
    (derived : Derives .greedy depth phrase tokens) :
    Reads limit depth tokens phrase := by
  induction derived with
  | ofTerm _ whole => exact reads_ofTerm whole
  | sum _ admitted named _ first second => exact reads_sum first admitted named second
  | ofFactor _ whole => exact reads_ofFactor whole
  | product _ admitted named _ first second => exact reads_product first admitted named second
  | number kind denoted =>
      intro fits
      refine ⟨resumes limit _ _, fun rest _ => ?_⟩
      simp only [level, Reader.run_defer, factorBody, Reader.run_bind, Reader.run_peek,
        List.cons_append, List.head?_cons, kind, denoted, Reader.run_skip, List.tail_cons]
      rfl
  | string kind =>
      intro fits
      refine ⟨resumes limit _ _, fun rest _ => ?_⟩
      simp only [level, Reader.run_defer, factorBody, Reader.run_bind, Reader.run_peek,
        List.cons_append, List.head?_cons, kind, Reader.run_skip, List.tail_cons]
      rfl
  | signed kind named _ operand =>
      intro fits
      have part := Nat.le_of_succ_le fits
      refine ⟨resumes limit _ _, fun rest avoids => ?_⟩
      simp only [level, Reader.run_defer, factorBody, Reader.run_bind, Reader.run_peek,
        List.cons_append, List.head?_cons, kind, named, Grammar.signed, Reader.run_skip,
        List.tail_cons, (operand part).2 rest avoids]
      exact run_grow fits _ rest
  | conditional ifKind _ thenKind _ elseKind _ condition first second =>
      exact reads_conditional ifKind condition thenKind first elseKind second
  | ofPrimary _ whole => exact reads_ofPrimary whole
  | name kind =>
      intro fits
      refine ⟨resumes limit _ _, fun rest _ => ?_⟩
      simp only [factorBody, Reader.run_bind, Reader.run_peek, List.cons_append, List.head?_cons,
        kind, Reader.run_skip, List.tail_cons]
      rfl
  | group openingKind _ closingKind inner => exact reads_group openingKind inner closingKind
  | @emptyCall _ ending _ _ _ _ _ openingKind closingKind applied =>
      intro fits
      have part : _ ≤ limit := Nat.le_trans (Nat.le_max_left _ _) (Nat.le_of_succ_le fits)
      refine ⟨resumes limit _ _, fun rest _ => ?_⟩
      rw [List.append_assoc, (applied part).2]
      · exact run_postfixed_emptyCall openingKind closingKind fits
      · cases ending <;> simp [openingKind, Ending.openKinds]
  | call _ openingKind derivedInner closingKind applied inner =>
      exact reads_call applied openingKind derivedInner.starts.2 inner closingKind
  | index _ admitted openingKind derivedInner closingKind _ applied inner continued =>
      exact reads_index applied admitted openingKind derivedInner.starts.1 inner closingKind
        continued
  | @single _ _ tree _ _ only =>
      intro fits rest avoids
      have part : tree.height ≤ limit := Nat.le_trans (Nat.le_max_left _ _) fits
      rw [expressionList_eq, Reader.run_bind, run_expression_of_read only part rest avoids]
      simp [tallest, built]
  | append _ kind _ before last => exact reads_append before kind last
  | noMember => exact fun _ rest _ => rfl
  | @bareMember _ ending members _ _ _ _ dotKind nameKind before =>
      intro fits rest avoids
      have part : Variable.tallest members ≤ limit := by
        rw [Variable.tallest_append] at fits
        omega
      rw [List.append_assoc, before part]
      · exact run_memberChainFrom_bareMember dotKind nameKind avoids
      · cases ending <;> simp [dotKind, Ending.openKinds]
  | member _ dotKind nameKind openingKind _ closingKind before inner =>
      exact reads_member before dotKind nameKind openingKind inner closingKind
  | comparison _ named _ first second => exact reads_comparison first named second
  | conditionGroup openingKind _ closingKind inner =>
      exact reads_conditionGroup openingKind inner closingKind
  | ofOperand _ whole => exact reads_ofOperand whole
  | logical _ named _ first second => exact reads_logical first named second

end Grammar
end Expr
end ModelEquation
