import ModelEquation.Expr.Text
import ModelEquation.Proofs.Expr.Fusion
import ModelEquation.Proofs.Grammar.Derivation
import ModelEquation.Proofs.Token.Spelling

/-!
# Canonical texts and their derivations

What the pieces of a canonical text spell, given what their parts spell: lists, chains
of members, infix nodes, conditionals and what stands in front of a group. The tokens
are accepted by their derivation, which is always a greedy one.
-/

namespace ModelEquation
namespace Expr

open Grammar Token

/-- The tokens form the tree as a factor that an operator may follow. -/
def FormsFactor (depth : Nat) (tree : Expr) (tokens : List Token) : Prop :=
  ∃ ending, ending ≠ .branch ∧ Derives .greedy depth (.factor ending tree) tokens

/-- The tokens form the tree as a primary that a call may follow, and an index group
if they are to stand before one. -/
def FormsPrimary (bracket : Bool) (depth : Nat) (tree : Expr) (tokens : List Token) : Prop :=
  ∃ ending, ending ≠ .branch ∧ (bracket = true → ending ≠ .member) ∧
    Derives .greedy depth (.primary ending tree) tokens

variable {depth : Nat} {tree : Expr} {tokens : List Token}

theorem FormsPrimary.factor
    {bracket : Bool}
    (forms : FormsPrimary bracket depth tree tokens) :
    FormsFactor (depth + 1) tree tokens := by
  obtain ⟨ending, closed, _, derived⟩ := forms
  exact ⟨ending, closed, .ofPrimary derived⟩

/-- What stands in parentheses is closed. -/
theorem formsPrimary_of_group
    {bracket : Bool}
    (forms : Enclosed .leftParenthesis .rightParenthesis
      (fun inner => ∃ ending, Derives .greedy depth (.expression ending tree) inner) tokens) :
    FormsPrimary bracket depth tree tokens := by
  obtain ⟨opening, inner, closing, rfl, opens, ⟨ending, derived⟩, closes⟩ := forms
  exact ⟨.closed, by decide, by simp, .group opens derived closes⟩

theorem FormsFactor.expression
    (forms : FormsFactor depth tree tokens) :
    ∃ ending, Derives .greedy depth (.expression ending tree) tokens := by
  obtain ⟨ending, _, derived⟩ := forms
  exact ⟨ending, .ofTerm (.ofFactor derived)⟩

/-! ## Lists -/

/-- The tokens go on from a list with the given trees. -/
def ExtendsList (depth : Nat) (trees : List Expr) (tokens : List Token) : Prop :=
  ∀ before front, Derives .greedy depth (.list before) front →
    Derives .greedy depth (.list (before ++ trees)) (front ++ tokens)

/-- What follows the first item of a list. -/
def separated (items : List Expr) : List Char :=
  (texts items).flatMap fun part => ',' :: ' ' :: part

/-- Items after commas start with a comma, so that no lexeme goes on into them. -/
theorem breaks_separated
    {rest : List Char}
    (follows : Breaks rest)
    (items : List Expr) :
    Breaks (separated items ++ rest) := by
  cases items with
  | nil => exact follows
  | cons item others => exact breaks_cons (by decide) _

section Lists

variable {items : List Expr}

/-- Items after commas spell the rest of a list. -/
theorem spells_separated
    (each : ∀ item ∈ items, Spells item.text Breaks (FormsFactor depth item.fused)) :
    Spells (separated items) Breaks (ExtendsList depth (fusedList items)) := by
  induction items with
  | nil =>
      apply Spells.nil.imp
      rintro _ rfl before front derived
      simpa [fusedList] using derived
  | cons item others hypothesis =>
      have first := each item (List.mem_cons_self ..)
      have later := hypothesis fun other member => each other (List.mem_cons_of_mem _ member)
      have continued := first.append later fun rest follows => breaks_separated follows others
      apply ((spells_mark ',' rfl).append continued.blank fun _ _ => trivial).imp
      rintro _ ⟨_, _, rfl, ⟨comma, rfl, commaKind, _⟩, itemTokens, moreTokens, rfl, forms,
        continues⟩
      intro before front derived
      obtain ⟨ending, last⟩ := forms.expression
      have appended := continues _ _ (derived.append commaKind last)
      simpa only [fusedList, List.append_assoc, List.cons_append, List.nil_append] using appended

/-- The items of a list with commas between them spell the list. -/
theorem spells_commaSeparated
    (nonempty : items ≠ [])
    (each : ∀ item ∈ items, Spells item.text Breaks (FormsFactor depth item.fused)) :
    Spells (commaSeparated (texts items)) Breaks
      (fun tokens => Derives .greedy depth (.list (fusedList items)) tokens) := by
  cases items with
  | nil => contradiction
  | cons item others =>
      have first := each item (List.mem_cons_self ..)
      have later := spells_separated fun other member => each other (List.mem_cons_of_mem _ member)
      apply (first.append later fun rest follows => breaks_separated follows others).imp
      rintro _ ⟨itemTokens, moreTokens, rfl, forms, continues⟩
      obtain ⟨ending, only⟩ := forms.expression
      exact continues _ _ (.single only)

end Lists

/-- A group that is present spells the list of its expressions. -/
def SpellsGroup (depth : Nat) (group : Option (List Expr)) : Prop :=
  ∀ items, group = some items →
    Spells (commaSeparated (texts items)) Breaks
      (fun tokens => Derives .greedy depth (.list (fusedList items)) tokens)

/-! ## Chains of members -/

/-- The tokens go on from a chain with the given members. -/
def ExtendsChain (depth : Nat) (members : List Variable) (tokens : List Token) : Prop :=
  ∀ before ending front, ending ≠ .branch → Derives .greedy depth (.chain ending before) front →
    ∃ after, after ≠ .branch ∧ (members = [] → after = ending) ∧
      Derives .greedy depth (.chain after (before ++ members)) (front ++ tokens)

theorem extendsChain_nil : ExtendsChain depth [] [] := by
  intro before ending front closed derived
  refine ⟨ending, closed, fun _ => rfl, ?_⟩
  simpa using derived

/-- Chains of members are put one behind the other. -/
theorem ExtendsChain.append
    {first second : List Variable}
    {front back : List Token}
    (extended : ExtendsChain depth first front)
    (continued : ExtendsChain depth second back) :
    ExtendsChain depth (first ++ second) (front ++ back) := by
  intro before ending tokens closed derived
  obtain ⟨middle, middleClosed, same, later⟩ := extended before ending tokens closed derived
  obtain ⟨after, afterClosed, kept, last⟩ := continued _ middle _ middleClosed later
  refine ⟨after, afterClosed, fun empty => ?_, ?_⟩
  · obtain ⟨firstEmpty, secondEmpty⟩ := List.append_eq_nil_iff.mp empty
    rw [kept secondEmpty, same firstEmpty]
  · simpa only [List.append_assoc] using last

/-- A member of a chain that can be written after a dot. -/
structure SpelledMember (depth : Nat) (member : Variable) : Prop where
  name : isName member.name = true
  indices : member.indices = none
  members : member.members = []
  group : SpellsGroup depth member.arguments

section Members

variable {member : Variable} (spelled : SpelledMember depth member)
include spelled

/-- A member without a group ends where a break follows. -/
theorem spells_bareMember
    (bare : member.isBare = true) :
    Spells ('.' :: member.text) Breaks (ExtendsChain depth [member.fused]) := by
  have known := spelled.name
  rw [(Variable.isBare_iff member).mp bare] at known ⊢
  have text : (Variable.named member.name).text = member.name.toList := by
    simp [Variable.named, Variable.text, groupText, Variable.memberText]
  rw [text]
  apply ((spells_mark '.' rfl).append (spells_name known) fun _ _ => trivial).imp
  rintro _ ⟨_, _, rfl, ⟨dot, rfl, dotKind, _⟩, ⟨name, rfl, nameKind, named⟩⟩
  intro before ending front _ derived
  have last := derived.bareMember dotKind nameKind
  rw [named] at last
  exact ⟨.member, by decide, by simp, last⟩

/-- A member with a group ends at its bracket. -/
theorem spells_groupedMember
    (other : member.isBare = false) :
    Spells ('.' :: member.text) Anything (ExtendsChain depth [member.fused]) := by
  obtain ⟨name, indices, arguments, members⟩ := member
  obtain ⟨known, rfl, rfl, group⟩ := spelled
  cases arguments with
  | none => simp [Variable.isBare] at other
  | some items =>
      have text : (Variable.mk name none (some items) []).text =
          name.toList ++ '[' :: (commaSeparated (texts items) ++ [']']) := by
        simp [Variable.text, groupText, enclosed, Variable.memberText]
      have inside := Spells.enclosed '[' ']' rfl rfl (by decide) (group items rfl)
      have named := (spells_name known).append inside fun _ _ => breaks_cons (by decide) _
      rw [text]
      apply ((spells_mark '.' rfl).append named fun _ _ => trivial).imp
      rintro _ ⟨_, _, rfl, ⟨dot, rfl, dotKind, _⟩, _, _, rfl, ⟨token, rfl, nameKind, named⟩,
        opening, argumentTokens, closing, rfl, openingKind, listed, closingKind⟩
      intro before ending front _ derived
      have last := derived.member dotKind nameKind openingKind listed closingKind
      rw [named] at last
      refine ⟨.closed, by decide, by simp, ?_⟩
      simpa only [Variable.fused, fusedGroup, Variable.fusedMembers, List.append_assoc,
        List.cons_append, List.nil_append] using last

end Members

/-- Two names with a dot in between are a name. -/
theorem isName_qualified
    {qualifier name : String}
    (first : isName qualifier = true)
    (second : isName name = true) :
    isName (qualifier ++ "." ++ name) = true := by
  obtain ⟨start, others, qualifierSpelled, starts, parts, _⟩ := (isName_iff qualifier).mp first
  obtain ⟨nameStart, nameOthers, nameSpelled, nameStarts, nameParts, _⟩ :=
    (isName_iff name).mp second
  have spelled : (qualifier ++ "." ++ name).toList =
      start :: (others ++ '.' :: nameStart :: nameOthers) := by
    simp [qualifierSpelled, nameSpelled]
  refine (isName_iff _).mpr ⟨start, _, spelled, starts, ?_, fun member => ?_⟩
  · simp only [List.forall_mem_append, List.forall_mem_cons]
    exact ⟨parts, by decide, Rule.isNamePart_of_isNameStart nameStarts, nameParts⟩
  · have noDot : ∀ word ∈ reserved, '.' ∉ word.toList := by decide
    exact noDot _ member (by simp [spelled])

/-- A member is still spelled when its name is qualified. -/
theorem SpelledMember.qualified
    {qualifier : String}
    {member : Variable}
    (spelled : SpelledMember depth member)
    (known : isName qualifier = true) :
    SpelledMember depth (member.qualified qualifier) where
  name := isName_qualified known spelled.name
  indices := spelled.indices
  members := spelled.members
  group := spelled.group

/-- A bare member in front of another one is written like a qualifier of its name. -/
theorem text_qualified
    {qualifier : Variable}
    (bare : qualifier.isBare = true)
    (member : Variable) :
    qualifier.text ++ '.' :: member.text = (member.qualified qualifier.name).text := by
  rw [(Variable.isBare_iff qualifier).mp bare]
  obtain ⟨name, indices, arguments, members⟩ := member
  simp [Variable.named, Variable.text, Variable.qualified, groupText, Variable.memberText]

/-- The members of a chain spell the chain of the joined members. Where two members are read as
one, the rest is that of the joined member. -/
theorem spells_membersFrom
    {first : Variable}
    {rest : List Variable}
    (head : SpelledMember depth first)
    (tail : ∀ member ∈ rest, SpelledMember depth member) :
    Spells (Variable.memberText (first :: rest)) Breaks
      (ExtendsChain depth (Variable.fusedMembers (first :: rest))) := by
  induction rest generalizing first with
  | nil =>
      rw [Variable.fusedMembers, Variable.fusedMembers, Variable.fuse, Variable.memberText,
        Variable.memberText, List.append_nil]
      cases bare : first.isBare with
      | true => exact spells_bareMember head bare
      | false => exact (spells_groupedMember head bare).anywhere
  | cons next others hypothesis =>
      have nextSpelled := tail next (List.mem_cons_self ..)
      have later : ∀ member ∈ others, SpelledMember depth member := fun member present =>
        tail member (List.mem_cons_of_mem _ present)
      cases bare : first.isBare with
      | true =>
          have joined := hypothesis (nextSpelled.qualified head.name) later
          have text : Variable.memberText (next.qualified first.name :: others) =
              Variable.memberText (first :: next :: others) := by
            simp [Variable.memberText, ← text_qualified bare]
          rwa [text, Variable.fusedMembers_qualified bare] at joined
      | false =>
          have continued := hypothesis nextSpelled later
          have spelled := (spells_groupedMember head bare).append continued fun _ _ => trivial
          rw [Variable.fusedMembers, Variable.fuse_of_isBare_eq_false (by simpa using bare)]
          apply spelled.imp
          rintro _ ⟨_, _, rfl, extended, continued⟩
          exact extended.append continued

/-- The text of members spells the chain of the fused ones. -/
theorem spells_memberText
    {members : List Variable}
    (spelled : ∀ member ∈ members, SpelledMember depth member) :
    Spells (Variable.memberText members) Breaks
      (ExtendsChain depth (Variable.fusedMembers members)) := by
  cases members with
  | nil =>
      apply Spells.nil.imp
      rintro _ rfl
      exact extendsChain_nil
  | cons first rest =>
      exact spells_membersFrom (spelled first (List.mem_cons_self ..)) fun member present =>
        spelled member (List.mem_cons_of_mem _ present)

/-! ## Nodes in parentheses -/

/-- Tokens with an operator of the given kind and symbol between two operands. -/
def Infix
    (first : List Token → Prop)
    (kind : Kind)
    (symbol : String)
    (second : List Token → Prop)
    (tokens : List Token) :
    Prop :=
  ∃ front token back, tokens = front ++ token :: back ∧ first front ∧ token.kind = kind ∧
    token.text = symbol ∧ second back

/-- Two texts with an operator between blanks in their middle spell its operands. -/
theorem spells_operation
    {left right : List Char}
    {symbol : String}
    {kind : Kind}
    {first second : List Token → Prop}
    (leftSpells : Spells left Breaks first)
    (symbolSpells : Spells symbol.toList Spaced (IsToken kind symbol))
    (rightSpells : Spells right Breaks second) :
    Spells (left ++ ' ' :: (symbol.toList ++ ' ' :: right)) Breaks
      (Infix first kind symbol second) := by
  have later := symbolSpells.append rightSpells.blank fun rest _ => ⟨right ++ rest, rfl⟩
  apply (leftSpells.append later.blank fun rest _ => breaks_cons (by decide) _).imp
  rintro _ ⟨front, _, rfl, frontForms, _, back, rfl, ⟨token, rfl, tokenKind, named⟩, backForms⟩
  exact ⟨front, token, back, rfl, frontForms, tokenKind, named, backForms⟩

/-- Two sides with a symbol in between are spelled in parentheses. -/
theorem spells_parenthesized
    {left right : List Char}
    {symbol : String}
    {kind : Kind}
    {first second : List Token → Prop}
    (leftSpells : Spells left Breaks first)
    (symbolSpells : Spells symbol.toList Spaced (IsToken kind symbol))
    (rightSpells : Spells right Breaks second) :
    Spells (parenthesized left symbol right) Anything
      (Enclosed .leftParenthesis .rightParenthesis (Infix first kind symbol second)) := by
  apply Spells.enclosed '(' ')' rfl rfl (by decide)
  exact spells_operation leftSpells symbolSpells rightSpells

theorem FormsPrimary.succ
    {bracket : Bool}
    (forms : FormsPrimary bracket depth tree tokens) :
    FormsPrimary bracket (depth + 1) tree tokens := by
  obtain ⟨ending, closed, admitted, derived⟩ := forms
  exact ⟨ending, closed, admitted, derived.succ⟩

/-- Two factors with an arithmetic operator between them form its node. -/
theorem derives_binary
    {operator : Arithmetic}
    {left right : Expr}
    (forms : Infix (FormsFactor depth left) .operator operator.symbol (FormsFactor depth right)
      tokens) :
    ∃ ending, Derives .greedy depth (.expression ending (.binary operator left right)) tokens := by
  obtain ⟨front, token, back, rfl, ⟨before, closed, first⟩, kind, symbol, ⟨after, _, second⟩⟩ :=
    forms
  have admitted := admitsOperator_of_ne closed
  have named : arithmetic? operator.isAdditive token = some operator := by
    simp [arithmetic?, kind, symbol]
  refine ⟨after, ?_⟩
  cases additive : operator.isAdditive with
  | true =>
      rw [additive] at named
      exact .sum (.ofTerm (.ofFactor first)) admitted named (.ofFactor second)
  | false =>
      rw [additive] at named
      exact .ofTerm (.product (.ofFactor first) admitted named second)

/-- Two factors with a comparison between them form its node. -/
theorem derives_compare
    {operator : Comparison}
    {left right : Expr}
    (forms : Infix (FormsFactor depth left) .comparison operator.symbol (FormsFactor depth right)
      tokens) :
    Derives .greedy depth (.operand (.compare operator left right)) tokens := by
  obtain ⟨front, token, back, rfl, first, kind, symbol, second⟩ := forms
  obtain ⟨before, firstDerived⟩ := first.expression
  obtain ⟨after, secondDerived⟩ := second.expression
  have named : comparison? token = some operator := by
    simp [comparison?, kind, symbol]
  exact .comparison firstDerived named secondDerived

/-- Two conditions with a connective between them form its node. -/
theorem derives_logical
    {operator : Connective}
    {left right : Expr}
    (forms : Infix (Derives .greedy depth (.operand left)) (connectiveKind operator) operator.symbol
      (Derives .greedy depth (.operand right)) tokens) :
    Derives .greedy (depth + 1) (.condition (.logical operator left right)) tokens := by
  obtain ⟨front, token, back, rfl, first, kind, _, second⟩ := forms
  have named : connective? token = some operator := by
    cases operator <;> simp [connective?, kind, connectiveKind]
  exact .logical (.ofOperand first) named second

/-- A condition in parentheses is an operand of a condition. -/
theorem derives_conditionGroup
    (forms : Enclosed .leftParenthesis .rightParenthesis
      (fun inner => Derives .greedy depth (.condition tree) inner) tokens) :
    Derives .greedy depth (.operand tree) tokens := by
  obtain ⟨opening, inner, closing, rfl, opens, derived, closes⟩ := forms
  exact .conditionGroup opens derived closes

/-- The words of a conditional between a condition and two factors. -/
theorem spells_conditional
    {condition whenTrue whenFalse : List Char}
    {chosen first second : Expr}
    (conditionSpells : Spells condition Breaks (Derives .greedy depth (.operand chosen)))
    (trueSpells : Spells whenTrue Breaks (FormsFactor (depth + 1) first))
    (falseSpells : Spells whenFalse Breaks (FormsFactor (depth + 1) second)) :
    Spells
      (['i', 'f', ' '] ++ condition ++ [' ', 't', 'h', 'e', 'n', ' '] ++ whenTrue ++
        [' ', 'e', 'l', 's', 'e', ' '] ++ whenFalse)
      Breaks
      (Derives .greedy (depth + 2) (.factor .branch (.conditional chosen first second))) := by
  apply (spells_branching conditionSpells trueSpells falseSpells).imp
  rintro _ ⟨ifToken, conditionTokens, thenToken, trueTokens, elseToken, falseTokens, rfl, ifKind,
    derived, thenKind, trueForms, elseKind, falseForms⟩
  obtain ⟨trueEnding, trueDerived⟩ := trueForms.expression
  obtain ⟨falseEnding, falseDerived⟩ := falseForms.expression
  exact .conditional ifKind (.ofOperand derived) thenKind trueDerived elseKind falseDerived

/-! ## Operands and conditions -/

/-- The text of an expression spells it as a factor, and as what a group may follow
unless it needs parentheses there. -/
structure SpelledOperand (depth : Nat) (expression : Expr) : Prop where
  factor : Spells expression.text Breaks (FormsFactor (depth + 1) expression.fused)
  primary : ∀ bracket, expression.needsParentheses bracket = false →
    Spells expression.text Breaks (FormsPrimary bracket depth expression.fused)

/-- The text of a condition spells it as an operand of conditions. -/
def SpelledCondition (depth : Nat) (condition : Expr) : Prop :=
  Spells condition.text Breaks (Derives .greedy depth (.operand condition.fused))

/-- An operand that is written without parentheses is spelled as its primary is. -/
theorem spelledOperand_of_primary
    {expression : Expr}
    (free : expression.needsParentheses false = false)
    (primary : ∀ bracket, expression.needsParentheses bracket = false →
      Spells expression.text Breaks (FormsPrimary bracket depth expression.fused)) :
    SpelledOperand depth expression where
  factor := (primary false free).imp fun _ forms => forms.factor
  primary := primary

/-- Before a group a target is spelled as it is or in parentheses. -/
theorem SpelledOperand.target
    {expression : Expr}
    (spelled : SpelledOperand depth expression)
    (bracket : Bool) :
    Spells (expression.targetText bracket expression.text) Breaks
      (FormsPrimary bracket (depth + 1) expression.fused) := by
  cases needed : expression.needsParentheses bracket with
  | false =>
      rw [targetText, if_neg (by simp [needed])]
      exact (spelled.primary bracket needed).imp fun _ forms => forms.succ
  | true =>
      rw [targetText, if_pos needed, enclosed]
      have inside := Spells.enclosed '(' ')' rfl rfl (by decide) spelled.factor
      apply inside.anywhere.imp
      intro tokens forms
      exact formsPrimary_of_group (forms.imp fun _ factor => factor.expression)

section Nodes

variable {operand left right callee target condition whenTrue whenFalse : Expr}
variable {items : List Expr} {members : List Variable}

/-- A number without a sign is spelled by its numeral. -/
theorem spelledOperand_number
    {value : Number}
    (literal : value.isLiteral = true)
    (denoted : Number.ofText? value.text = some value) :
    SpelledOperand depth (.number value) where
  factor := by
    apply (spells_number (Number.measure_text literal)).imp
    rintro _ ⟨token, rfl, kind, lexeme⟩
    exact ⟨.closed, by decide, .number kind (by rw [lexeme, String.toList_ofList, denoted])⟩
  primary := by simp [needsParentheses]

theorem spelledOperand_string
    {value : String}
    (known : isQuoted value = true) :
    SpelledOperand depth (.string value) where
  factor := by
    apply (spells_quoted known).anywhere.imp
    rintro _ ⟨token, rfl, kind, rfl⟩
    exact ⟨.closed, by decide, .string kind⟩
  primary := by simp [needsParentheses]

/-- A name is closed, so that either group may follow. -/
theorem spells_named
    {name : String}
    (known : isName name = true)
    (bracket : Bool) :
    Spells name.toList Breaks (FormsPrimary bracket depth (named name)) := by
  apply (spells_name known).imp
  rintro _ ⟨token, rfl, kind, rfl⟩
  exact ⟨.closed, by decide, by simp, .name kind⟩

theorem spelledOperand_name
    {name : String}
    (known : isName name = true) :
    SpelledOperand depth (named name) := by
  apply spelledOperand_of_primary rfl
  intro bracket _
  have text : (named name).text = name.toList := by
    simp [named, Expr.text, Variable.named, Variable.text, groupText, Variable.memberText]
  rw [text]
  exact spells_named known bracket

/-- A sign in front of an operand takes one level. -/
theorem spelledOperand_unary
    {operator : Sign}
    (spelled : SpelledOperand depth operand) :
    SpelledOperand (depth + 1) (.unary operator operand) where
  factor := by
    apply ((spells_sign operator).append spelled.factor fun _ _ => trivial).imp
    rintro _ ⟨_, rest, rfl, ⟨token, rfl, kind, symbol⟩, forms⟩
    obtain ⟨ending, closed, derived⟩ := forms
    exact ⟨ending, closed, .signed kind (by simp [symbol]) derived⟩
  primary := by simp [needsParentheses]

/-- An operation takes one level, that of its parentheses. -/
theorem spelledOperand_binary
    {operator : Arithmetic}
    (first : SpelledOperand depth left)
    (second : SpelledOperand depth right) :
    SpelledOperand (depth + 1) (.binary operator left right) := by
  apply spelledOperand_of_primary rfl
  intro bracket _
  have spelled :=
    spells_parenthesized first.factor (spells_arithmetic operator).anywhere second.factor
  apply spelled.anywhere.imp
  intro tokens forms
  exact formsPrimary_of_group (forms.imp fun _ known => derives_binary known)

/-- A comparison takes two levels, that of its parentheses and its own. -/
theorem spelledCondition_compare
    {operator : Comparison}
    (first : SpelledOperand depth left)
    (second : SpelledOperand depth right) :
    SpelledCondition (depth + 2) (.compare operator left right) := by
  have spelled := spells_parenthesized first.factor (spells_comparison operator) second.factor
  apply spelled.anywhere.imp
  intro tokens forms
  exact derives_conditionGroup (forms.imp fun _ known => .ofOperand (derives_compare known))

theorem spelledCondition_logical
    {operator : Connective}
    (first : SpelledCondition depth left)
    (second : SpelledCondition depth right) :
    SpelledCondition (depth + 1) (.logical operator left right) := by
  have spelled := spells_parenthesized first (spells_connective operator) second
  apply spelled.anywhere.imp
  intro tokens forms
  exact derives_conditionGroup (forms.imp fun _ known => derives_logical known)

/-- A conditional takes two levels, that of its parentheses and its own. -/
theorem spelledOperand_conditional
    (chosen : SpelledCondition depth condition)
    (first : SpelledOperand depth whenTrue)
    (second : SpelledOperand depth whenFalse) :
    SpelledOperand (depth + 2) (.conditional condition whenTrue whenFalse) := by
  apply spelledOperand_of_primary rfl
  intro bracket _
  have inside := spells_conditional chosen first.factor second.factor
  have spelled := Spells.enclosed '(' ')' rfl rfl (by decide) inside
  apply spelled.anywhere.imp
  intro tokens forms
  exact formsPrimary_of_group (forms.imp fun _ derived => ⟨.branch, .ofTerm (.ofFactor derived)⟩)

/-- Expressions that are spelled on their own are spelled as a list. -/
theorem spells_items
    (nonempty : items ≠ [])
    (each : ∀ item ∈ items, SpelledOperand depth item) :
    Spells (commaSeparated (texts items)) Breaks
      (Derives .greedy (depth + 1) (.list (fusedList items))) :=
  spells_commaSeparated nonempty fun item member => (each item member).factor

/-- The arguments of a call in parentheses, of which there may be none. -/
theorem spelledOperand_call
    (applied : SpelledOperand depth callee)
    (each : ∀ item ∈ items, SpelledOperand depth item) :
    SpelledOperand (depth + 1) (.call callee items) := by
  apply spelledOperand_of_primary rfl
  intro bracket _
  have front := applied.target false
  rw [Expr.text, fused, enclosed]
  cases items with
  | nil =>
      have inside : Spells [] Breaks (· = []) := Spells.nil
      have group := Spells.enclosed '(' ')' rfl rfl (by decide) inside
      have spelled := front.append group fun _ _ => breaks_cons (by decide) _
      apply spelled.anywhere.imp
      rintro _ ⟨tokens, _, rfl, ⟨ending, _, _, derived⟩, opening, _, closing, rfl, opens, rfl,
        closes⟩
      exact ⟨.closed, by decide, by simp, .emptyCall derived opens closes⟩
  | cons first others =>
      have inside := spells_items (by simp) each
      have group := Spells.enclosed '(' ')' rfl rfl (by decide) inside
      have spelled := front.append group fun _ _ => breaks_cons (by decide) _
      apply spelled.anywhere.imp
      rintro _ ⟨tokens, _, rfl, ⟨ending, _, _, derived⟩, opening, inner, closing, rfl, opens,
        listed, closes⟩
      have called := derived.call opens listed closes
      refine ⟨.closed, by decide, by simp, ?_⟩
      simpa only [List.append_assoc, List.cons_append] using called

/-- An index group in brackets and the members after it. -/
theorem spells_indexed
    {text : List Char}
    {tree : Expr}
    {bracket : Bool}
    (applied : Spells text Breaks (FormsPrimary true (depth + 1) tree))
    (nonempty : items ≠ [])
    (each : ∀ item ∈ items, SpelledOperand depth item)
    (chain : ∀ member ∈ members, SpelledMember (depth + 1) member)
    (ends : bracket = true → members = []) :
    Spells (text ++ enclosed '[' ']' (commaSeparated (texts items)) ++ Variable.memberText members)
      Breaks
      (FormsPrimary bracket (depth + 1)
        (tree.indexed (fusedList items) (Variable.fusedMembers members))) := by
  have group := Spells.enclosed '[' ']' rfl rfl (by decide) (spells_items nonempty each)
  have later := group.append (spells_memberText chain) fun _ _ => trivial
  rw [List.append_assoc]
  apply (applied.append later fun _ _ => breaks_cons (by decide) _).imp
  rintro _ ⟨tokens, _, rfl, ⟨before, _, admitted, derived⟩, _, memberTokens, rfl,
    ⟨opening, inner, closing, rfl, opens, listed, closes⟩, continues⟩
  obtain ⟨after, closed, same, members⟩ := continues [] .closed [] (by decide) .noMember
  have indexed := derived.index (admitsBracket_of_ne (admitted rfl)) opens listed closes members
  refine ⟨after, closed, fun needed => ?_, ?_⟩
  · rw [same (by rw [ends needed]; rfl)]
    decide
  · simpa only [List.append_assoc, List.cons_append, List.nil_append] using indexed

/-- A variable with its index group and the members after it. -/
theorem spelledOperand_reference
    {name : String}
    (known : isName name = true)
    (nonempty : items ≠ [])
    (each : ∀ item ∈ items, SpelledOperand depth item)
    (chain : ∀ member ∈ members, SpelledMember (depth + 1) member) :
    SpelledOperand (depth + 1) (.variable ⟨name, some items, none, members⟩) := by
  apply spelledOperand_of_primary rfl
  intro bracket free
  have ends : bracket = true → members = [] := by
    rintro rfl
    simpa [needsParentheses] using free
  have spelled := spells_indexed (spells_named known true) nonempty each chain ends
  rw [indexed_named] at spelled
  simpa only [Expr.text, Variable.text, groupText, List.append_nil, fused, Variable.fused,
    fusedGroup] using spelled

/-- An index group after what is no bare variable, and the members after it. -/
theorem spelledOperand_index
    (applied : SpelledOperand depth target)
    (other : target.isBare = false)
    (nonempty : items ≠ [])
    (each : ∀ item ∈ items, SpelledOperand depth item)
    (chain : ∀ member ∈ members, SpelledMember (depth + 1) member) :
    SpelledOperand (depth + 1) (.index target items members) := by
  apply spelledOperand_of_primary rfl
  intro bracket free
  have ends : bracket = true → members = [] := by
    rintro rfl
    simpa [needsParentheses] using free
  have spelled := spells_indexed (applied.target true) nonempty each chain ends
  rw [indexed_of_isBare_eq_false (by simpa using other)] at spelled
  exact spelled

end Nodes

end Expr
end ModelEquation
