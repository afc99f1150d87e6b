import ModelEquation.Proofs.Expr.Fusion
import ModelEquation.Proofs.Grammar.Language
import ModelEquation.Proofs.Token.Lexed

/-!
# The shape of what is read

Whatever a text denotes is parser-shaped: conditions stand only where conditions may
stand, groups hold something, a bare variable takes an index group as its own, and
names and literals are what the rules for lexemes take. The first part follows the
derivation of the expression, the second one comes from its tokens.
-/

namespace ModelEquation

/-- Items are parser-shaped one by one, the last one included. -/
theorem Expr.areParserShaped_concat (items : List Expr) (last : Expr) :
    Expr.areParserShaped (items ++ [last]) =
      (Expr.areParserShaped items && last.isParserShaped) := by
  induction items with
  | nil => simp [areParserShaped]
  | cons item rest hypothesis =>
      rw [List.cons_append, areParserShaped, areParserShaped, hypothesis, Bool.and_assoc]

theorem Variable.areShapedMembers_concat (members : List Variable) (last : Variable) :
    Variable.areShapedMembers (members ++ [last]) =
      (Variable.areShapedMembers members && last.isShapedMember) := by
  induction members with
  | nil => simp [areShapedMembers]
  | cons member rest hypothesis =>
      rw [List.cons_append, areShapedMembers, areShapedMembers, hypothesis, Bool.and_assoc]

namespace Expr

/-- The bare variable of a name is parser-shaped. -/
theorem isParserShaped_named
    {name : String}
    (known : Token.isName name = true) :
    (named name).isParserShaped = true := by
  simp [named, Variable.named, isParserShaped, Variable.isParserShaped, known, isShapedGroup,
    Variable.areShapedMembers]

/-- A member without indices is parser-shaped if its name and its arguments are. -/
theorem isShapedMember_of_isName
    {name : String}
    {group : Option (List Expr)}
    (known : Token.isName name = true)
    (shaped : isShapedGroup group = true) :
    Variable.isShapedMember ⟨name, none, group, []⟩ = true := by
  simp [Variable.isShapedMember, known, shaped]

/-- A bare variable is parser-shaped only by a name that can be written. -/
theorem isName_of_isParserShaped_named
    {name : String}
    (shaped : (named name).isParserShaped = true) :
    Token.isName name = true := by
  simp only [named, Variable.named, isParserShaped, Variable.isParserShaped,
    Bool.and_eq_true] at shaped
  exact shaped.1.1.1.1

/-- A bare expression is a name. -/
theorem exists_named_of_isBare
    {expression : Expr}
    (bare : expression.isBare = true) :
    ∃ name, expression = named name := by
  unfold isBare at bare
  split at bare
  · exact ⟨_, congrArg Expr.variable ((Variable.isBare_iff _).mp bare)⟩
  · contradiction

/-- An index group may be applied to whatever is parser-shaped. -/
theorem isParserShaped_indexed
    {target : Expr}
    {indices : List Expr}
    {members : List Variable}
    (targetShaped : target.isParserShaped = true)
    (group : isShapedGroup (some indices) = true)
    (chain : Variable.areShapedMembers members = true) :
    (target.indexed indices members).isParserShaped = true := by
  cases bare : target.isBare with
  | true =>
      obtain ⟨name, rfl⟩ := exists_named_of_isBare bare
      have known : Token.isName name = true := isName_of_isParserShaped_named targetShaped
      simp [isParserShaped, Variable.isParserShaped, known, group, chain]
  | false =>
      rw [indexed_of_isBare_eq_false bare]
      simp only [isShapedGroup, Bool.and_eq_true] at group
      simp [isParserShaped, targetShaped, bare, group, chain]

namespace Grammar

/-- What the phrase denotes is parser-shaped in its place. -/
def Phrase.Shaped : Phrase → Prop
  | .expression _ tree => tree.isParserShaped = true
  | .term _ tree => tree.isParserShaped = true
  | .factor _ tree => tree.isParserShaped = true
  | .primary _ tree => tree.isParserShaped = true
  | .list trees => isShapedGroup (some trees) = true
  | .chain _ members => Variable.areShapedMembers members = true
  | .operand tree => tree.isShapedCondition = true
  | .condition tree => tree.isShapedCondition = true

/-- Each production keeps to the shape if the lexemes of its tokens do. -/
theorem Derives.shaped
    {convention : Convention}
    {depth : Nat}
    {phrase : Phrase}
    {tokens : List Token}
    (derived : Derives convention depth phrase tokens)
    (lexed : ∀ token ∈ tokens, token.IsLexed) :
    phrase.Shaped := by
  induction derived with
  | ofTerm _ whole => exact whole lexed
  | sum _ _ _ _ first second | product _ _ _ _ first second =>
      simp only [List.forall_mem_append, List.forall_mem_cons] at lexed
      exact Bool.and_eq_true_iff.mpr ⟨first lexed.1, second lexed.2.2⟩
  | ofFactor _ whole => exact whole lexed
  | number kind denoted => exact (lexed _ (List.mem_singleton_self _)).literal kind _ denoted
  | string kind => exact (lexed _ (List.mem_singleton_self _)).quoted kind
  | signed _ _ _ operand => exact operand (List.forall_mem_cons.mp lexed).2
  | conditional _ _ _ _ _ _ condition first second =>
      simp only [List.forall_mem_append, List.forall_mem_cons] at lexed
      obtain ⟨⟨⟨_, chosen⟩, _, whenTrue⟩, _, whenFalse⟩ := lexed
      simp only [Phrase.Shaped, isParserShaped, Bool.and_eq_true]
      exact ⟨⟨condition chosen, first whenTrue⟩, second whenFalse⟩
  | ofPrimary _ whole => exact whole lexed
  | name kind => exact isParserShaped_named ((lexed _ (List.mem_singleton_self _)).name kind)
  | group _ _ _ inner | conditionGroup _ _ _ inner =>
      simp only [List.forall_mem_append, List.forall_mem_cons] at lexed
      exact inner lexed.1.2
  | emptyCall _ _ _ applied =>
      rw [List.forall_mem_append] at lexed
      exact Bool.and_eq_true_iff.mpr ⟨applied lexed.1, rfl⟩
  | call _ _ _ _ applied inner =>
      simp only [List.forall_mem_append, List.forall_mem_cons] at lexed
      have arguments := inner lexed.1.2.2
      simp only [Phrase.Shaped, isShapedGroup, Bool.and_eq_true] at arguments
      exact Bool.and_eq_true_iff.mpr ⟨applied lexed.1.1, arguments.2⟩
  | index _ _ _ _ _ _ applied inner continued =>
      simp only [List.forall_mem_append, List.forall_mem_cons] at lexed
      obtain ⟨⟨target, _, indices⟩, _, members⟩ := lexed
      exact isParserShaped_indexed (applied target) (inner indices) (continued members)
  | single _ only => exact Bool.and_eq_true_iff.mpr ⟨only lexed, rfl⟩
  | append _ _ _ before last =>
      simp only [List.forall_mem_append, List.forall_mem_cons] at lexed
      have others := before lexed.1
      have tree := last lexed.2.2
      simp only [Phrase.Shaped, isShapedGroup, Bool.and_eq_true] at others tree ⊢
      exact ⟨by simp, by rw [areParserShaped_concat, others.2, tree]; rfl⟩
  | noMember => rfl
  | bareMember _ _ nameKind before =>
      simp only [List.forall_mem_append, List.forall_mem_cons] at lexed
      have member : (Variable.named _).isShapedMember = true :=
        isShapedMember_of_isName (lexed.2.2.1.name nameKind) rfl
      exact (Variable.areShapedMembers_concat _ _).trans
        (Bool.and_eq_true_iff.mpr ⟨before lexed.1, member⟩)
  | member _ _ nameKind _ _ _ before inner =>
      simp only [List.forall_mem_append, List.forall_mem_cons] at lexed
      obtain ⟨⟨members, _, name, _, arguments⟩, _⟩ := lexed
      exact (Variable.areShapedMembers_concat _ _).trans (Bool.and_eq_true_iff.mpr
        ⟨before members, isShapedMember_of_isName (name.name nameKind) (inner arguments)⟩)
  | comparison _ _ _ first second =>
      simp only [List.forall_mem_append, List.forall_mem_cons] at lexed
      exact Bool.and_eq_true_iff.mpr ⟨first lexed.1, second lexed.2.2⟩
  | ofOperand _ whole => exact whole lexed
  | logical _ _ _ first second =>
      simp only [List.forall_mem_append, List.forall_mem_cons] at lexed
      exact Bool.and_eq_true_iff.mpr ⟨first lexed.1, second lexed.2.2⟩

end Grammar

open Grammar

/-- A text denotes what its tokens form. -/
theorem exists_tokenize_of_parse
    {options : Options}
    {text : List Char}
    {tree : Expr}
    (parsed : parse options text = .ok tree) :
    ∃ tokens, Token.tokenize text = .ok tokens ∧
      ofTokensUntil options (Text.byteLength text) tokens = .ok tree := by
  unfold parse at parsed
  split at parsed
  · contradiction
  · next tokens tokenized => exact ⟨tokens, tokenized, parsed⟩

/-- Whatever the tokens of a text are read as is parser-shaped. -/
theorem isParserShaped_of_tokenize
    {options : Options}
    {finish : Nat}
    {text : List Char}
    {tokens : List Token}
    {tree : Expr}
    (tokenized : Token.tokenize text = .ok tokens)
    (formed : ofTokensUntil options finish tokens = .ok tree) :
    tree.isParserShaped = true := by
  obtain ⟨depth, ending, derived⟩ := denotes_of_read (ofTokensUntil_eq_ok_iff.mp formed)
  exact derived.shaped (Token.isLexed_of_tokenize tokenized)

/-- Every expression that a text denotes is parser-shaped. -/
theorem isParserShaped_of_parse
    {options : Options}
    {text : List Char}
    {tree : Expr}
    (parsed : parse options text = .ok tree) :
    tree.isParserShaped = true := by
  obtain ⟨tokens, tokenized, formed⟩ := exists_tokenize_of_parse parsed
  exact isParserShaped_of_tokenize tokenized formed

/-- A conditional in which a name in parentheses takes the index group behind them as its
own. -/
theorem isParserShaped_of_parse_conditional :
    ∃ tree, parse { maxDepth := 6 } "if (a < 1.5) then (b)[2].c else \"q\"".toList = .ok tree ∧
      tree.isParserShaped = true := by
  have limit : Binary64.Canonical 6755399441055744 (-52) := by decide
  have parsed : parse { maxDepth := 6 } "if (a < 1.5) then (b)[2].c else \"q\"".toList =
      .ok (.conditional
        (.compare .less (.named "a")
          (.number (.real (.finite false 6755399441055744 (-52) limit))))
        (.variable ⟨"b", some [.number (.integer 2)], none, [.named "c"]⟩)
        (.string "\"q\"")) := by
    with_unfolding_all rfl
  exact ⟨_, parsed, isParserShaped_of_parse parsed⟩

end Expr
end ModelEquation
