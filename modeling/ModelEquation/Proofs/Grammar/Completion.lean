import ModelEquation.Proofs.Grammar.Ambiguity
import ModelEquation.Proofs.Grammar.Continuation

/-!
# Completing what was read

Where a production fails, the tokens that it took are the beginning of a phrase of its
sort, unless it gave up because of nesting. A token of the expected kind always goes on,
and what is open after it can be closed: a bracket by its counterpart, a condition by a
comparison with zero, a conditional by its missing branches.

`Completes` states this of one production and one input. The rule for a sequence asks
how what the first reader leaves unfinished is completed for the whole, and what the
tokens that it took contribute to the rest.
-/

namespace ModelEquation
namespace Expr
namespace Grammar

/-! ## Completions -/

/-- The tokens are the beginning of some that are accepted. -/
def Completable (accepts : List Token → Prop) (tokens : List Token) : Prop :=
  ∃ more, accepts (tokens ++ more)

theorem completable_of
    {accepts : List Token → Prop}
    {tokens : List Token}
    (accepted : accepts tokens) :
    Completable accepts tokens :=
  ⟨[], by rwa [List.append_nil]⟩

/-- The failure is due to nesting, or the tokens before it are the beginning of some that
are accepted. -/
def Viable (accepts : List Token → Prop) (input : List Token) (failure : Failure) : Prop :=
  failure.GaveUp ∨ ∃ taken, input = taken ++ failure.remaining ∧ Completable accepts taken

/-- The production returns what the tokens taken form, or fails viably. -/
abbrev Completes
    {α : Type}
    (production : Production α)
    (input : List Token)
    (formed : α → List Token → Prop)
    (accepts : List Token → Prop) :
    Prop :=
  production.Ensures input (fun value taken _ => formed value taken) (Viable accepts input)

section Rules

variable {α β : Type} {input : List Token}
variable {formed wider : α → List Token → Prop} {wanted : β → List Token → Prop}
variable {accepts outer : List Token → Prop}

theorem Viable.mono
    {failure : Failure}
    (viable : Viable accepts input failure)
    (closes : ∀ tokens, accepts tokens → Completable outer tokens) :
    Viable outer input failure := by
  refine viable.imp_right ?_
  rintro ⟨taken, split, more, accepted⟩
  obtain ⟨further, final⟩ := closes _ accepted
  exact ⟨taken, split, more ++ further, by rwa [← List.append_assoc]⟩

/-- A failure behind some tokens is one of all the tokens. -/
theorem Viable.behind
    {failure : Failure}
    (before : List Token)
    (viable : Viable (fun tokens => accepts (before ++ tokens)) input failure) :
    Viable accepts (before ++ input) failure := by
  refine viable.imp_right ?_
  rintro ⟨taken, split, more, accepted⟩
  exact ⟨before ++ taken, by rw [split, List.append_assoc], more, by rwa [List.append_assoc]⟩

theorem Completes.mono
    {production : Production α}
    (completes : Completes production input formed accepts)
    (implies : ∀ value taken, formed value taken → wider value taken)
    (closes : ∀ tokens, accepts tokens → Completable outer tokens) :
    Completes production input wider outer :=
  Reader.Ensures.mono completes (fun value taken _ _ holds => implies value taken holds)
    fun _ viable => viable.mono closes

theorem completes_pure
    {value : α}
    (holds : formed value []) :
    Completes (pure value) input formed accepts :=
  Reader.ensures_pure holds

theorem completes_unexpected
    (expected : Expectation)
    (completable : Completable accepts []) :
    Completes (unexpected expected) input formed accepts :=
  Reader.ensures_fail (.inr ⟨[], rfl, completable⟩)

theorem completes_tooDeep : Completes tooDeep input formed accepts :=
  Reader.ensures_fail (.inl rfl)

theorem completes_grow
    {formed : Built → List Token → Prop}
    (limit below : Nat)
    (expression : Expr)
    (holds : ∀ built, formed built []) :
    Completes (grow limit below expression) input formed accepts := by
  unfold grow
  split
  · exact completes_pure (holds _)
  · exact completes_tooDeep

theorem completes_grow_bind
    {next : Built → Production β}
    (limit below : Nat)
    (expression : Expr)
    (continued : ∀ built, Completes (next built) input wanted outer) :
    Completes (grow limit below expression >>= next) input wanted outer := by
  unfold grow
  split
  · exact continued _
  · exact completes_tooDeep

/-- Readers one after the other complete what the first one begins and the second one ends. -/
theorem completes_bind
    {first : Production α}
    {next : α → Production β}
    (completes : Completes first input formed accepts)
    (closes : ∀ tokens, accepts tokens → Completable outer tokens)
    (continued : ∀ value taken rest, formed value taken →
      Completes (next value) rest (fun result more => wanted result (taken ++ more))
        fun tokens => outer (taken ++ tokens)) :
    Completes (first >>= next) input wanted outer := by
  refine Reader.ensures_bind (Reader.Ensures.mono completes ?_ fun _ viable => viable.mono closes)
  rintro value taken rest rfl holds
  exact Reader.Ensures.mono (continued value taken rest holds) (fun _ _ _ _ kept => kept)
    fun _ viable => viable.behind taken

/-- A token that is taken is the first one of what is completed. -/
theorem completes_skip_bind
    {token : Token}
    {next : Unit → Production β}
    (continued : Completes (next ()) input (fun result more => wanted result (token :: more))
      fun tokens => outer (token :: tokens)) :
    Completes (Reader.skip >>= next) (token :: input) wanted outer :=
  Reader.ensures_skip_bind (Reader.Ensures.mono continued (fun _ _ _ _ kept => kept)
    fun _ viable => viable.behind [token])

/-- An extension keeps what the tokens taken form. The invariant also says which tokens have
been taken since the start. -/
theorem completes_extend
    {before : List Token}
    {opens : Token → Option (α → Production α)}
    (formed : α → List Token → Prop)
    (step : ∀ token continuation value tokens others,
      opens token = some continuation → formed value tokens →
      Completes (continuation value) others
        (fun extended taken => formed extended (tokens ++ token :: taken))
        fun more => accepts (tokens ++ token :: more))
    {value : α}
    (start : formed value before) :
    Completes (Reader.extend opens value) input
      (fun result taken => formed result (before ++ taken))
      fun tokens => accepts (before ++ tokens) := by
  refine Reader.Ensures.imp (Reader.ensures_extend
    (fun value tokens rest => ∃ taken, tokens = before ++ taken ∧ input = taken ++ rest ∧
      formed value tokens) ?_ ⟨[], by simp, rfl, start⟩) ?_
  · rintro token continuation value _ others opened ⟨taken, rfl, rfl, holds⟩
    refine Reader.Ensures.mono (step token continuation value _ others opened holds) ?_ ?_
    · rintro extended more rest rfl kept
      exact ⟨taken ++ token :: more, by simp, by simp, kept⟩
    · intro failure viable
      have whole : taken ++ token :: others = (taken ++ [token]) ++ others := by simp
      rw [whole]
      refine Viable.behind _ (viable.mono fun tokens accepted => completable_of ?_)
      simpa using accepted
  · rintro result taken rest _ ⟨⟨_, _, _, holds⟩, _⟩
    exact holds

end Rules

/-! ## Sample tokens -/

/-- A lexeme of each kind. -/
def sampleText : Token.Kind → String
  | .number => "0"
  | .operator => "-"
  | .leftParenthesis => "("
  | .rightParenthesis => ")"
  | .leftBracket => "["
  | .rightBracket => "]"
  | .comma => ","
  | .ifWord => "if"
  | .thenWord => "then"
  | .elseWord => "else"
  | .comparison => "<"
  | .andWord => "and"
  | .orWord => "or"
  | .notWord => "not"
  | .identifier => "x"
  | .stringLiteral => "\"\""
  | .dot => "."

/-- A token of each kind. -/
def sample (kind : Token.Kind) : Token :=
  ⟨kind, sampleText kind, 0⟩

theorem recognized_zeroFactor : Recognized .factor [sample .number] := by
  have denoted : Number.ofText? (sample .number).text.toList = some (.integer 0) := by
    with_unfolding_all rfl
  exact .number rfl denoted

/-- A single numeral is recognized as an expression. -/
theorem recognized_zero : Recognized .expression [sample .number] :=
  .ofTerm (.ofFactor recognized_zeroFactor)

/-- A comparison with zero. -/
def belowZero : List Token :=
  [sample .comparison, sample .number]

/-- The missing branches of a conditional. -/
def zeroBranches : List Token :=
  [sample .thenWord, sample .number, sample .elseWord, sample .number]

section Samples

variable {tokens : List Token}

/-- An expression becomes a condition by a comparison. -/
theorem Recognized.belowZero
    (left : Recognized .expression tokens) :
    Recognized .operand (tokens ++ belowZero) := by
  have named : comparison? (sample .comparison) = some .less := rfl
  exact left.comparison named recognized_zero

/-- A condition behind its word is completed by branches of single numerals. -/
theorem Recognized.zeroBranches
    {token : Token}
    (kind : token.kind = .ifWord)
    (condition : Recognized .condition tokens) :
    Recognized .factor (token :: tokens ++ zeroBranches) := by
  have whole : Recognized .factor (token :: tokens ++
      sample .thenWord :: [sample .number] ++ sample .elseWord :: [sample .number]) :=
    .conditional kind condition rfl recognized_zero rfl recognized_zero
  simpa [Grammar.zeroBranches] using whole

end Samples

/-! ## Single steps -/

section Steps

variable {kind : Token.Kind} {input : List Token} {outer : List Token → Prop}

/-- Where a token is expected, a sample of its kind completes what is there. -/
theorem completes_expect_bind
    {α : Type}
    {next : String → Production α}
    {wanted : α → List Token → Prop}
    (closes : Completable outer [sample kind])
    (continued : ∀ token rest, token.kind = kind →
      Completes (next token.text) rest (fun result more => wanted result (token :: more))
        fun tokens => outer (token :: tokens)) :
    Completes (expect kind >>= next) input wanted outer := by
  have missing : Viable outer input ⟨.unexpected (.token kind), input⟩ := by
    obtain ⟨more, accepted⟩ := closes
    exact .inr ⟨[], rfl, sample kind :: more, accepted⟩
  refine Reader.ensures_bind (Reader.ensures_peek_bind ?_)
  cases input with
  | nil => exact Reader.ensures_fail missing
  | cons token rest =>
      dsimp only [List.head?_cons]
      split
      · next known =>
          refine Reader.ensures_skip_bind (Reader.ensures_pure ?_)
          exact Reader.Ensures.mono (continued token rest known) (fun _ _ _ _ kept => kept)
            fun _ viable => viable.behind [token]
      · exact Reader.ensures_fail missing

end Steps

/-- Behind some tokens the production goes on with a phrase of the sort. -/
abbrev Extends
    {α : Type}
    (production : Production α)
    (category : Category)
    (before input : List Token) :
    Prop :=
  Completes production input (fun _ taken => Recognized category (before ++ taken))
    fun tokens => Recognized category (before ++ tokens)

/-- What stands where a condition may stand is a phrase of the sort or an expression. -/
def Operand.Recognized (category : Category) (tokens : List Token) : Operand → Prop
  | .condition _ => Grammar.Recognized category tokens
  | .expression _ => Grammar.Recognized .expression tokens

/-- Behind some tokens the production goes on with a phrase of the sort, or with an
expression that a comparison makes one. -/
abbrev Offers
    (production : Production Operand)
    (category : Category)
    (before input : List Token) :
    Prop :=
  Completes production input (fun operand taken => operand.Recognized category (before ++ taken))
    fun tokens => Recognized category (before ++ tokens)

/-- What the readers of a level take can be completed. -/
structure Level.Completes (level : Level) : Prop where
  factor : ∀ input, Extends level.factor .factor [] input
  operand : ∀ input, Offers level.operand .condition [] input

/-! ## Sums and products -/

section Arithmetic

variable {before : List Token}

/-- Operations extend what is recognized by one operand after the other. -/
theorem folded_extends
    {additive : Bool}
    {operand : Production Built}
    {part whole : Category}
    (joins : ∀ {front back token operator}, Recognized whole front →
      arithmetic? additive token = some operator → Recognized part back →
      Recognized whole (front ++ token :: back))
    (operands : ∀ input, Extends operand part [] input)
    (limit : Nat)
    (first : Built)
    (formed : Recognized whole before)
    (input : List Token) :
    Extends (folded limit additive operand first) whole before input := by
  refine completes_extend (fun _ tokens => Recognized whole tokens) ?_ formed
  intro token continuation left tokens others opened front
  obtain ⟨operator, named, rfl⟩ := Option.map_eq_some_iff.mp opened
  refine completes_bind (operands others)
    (fun _ accepted => completable_of (joins front named accepted)) fun right taken rest back => ?_
  refine completes_grow _ _ _ fun _ => ?_
  rw [List.append_nil]
  exact joins front named back

variable {level : Level} (levels : level.Completes) (limit : Nat)
include levels

theorem termFrom_extends
    (first : Built)
    (formed : Recognized .term before)
    (input : List Token) :
    Extends (termFrom limit level first) .term before input :=
  folded_extends .product levels.factor limit first formed input

theorem term_extends (input : List Token) : Extends (term limit level) .term [] input :=
  completes_bind (levels.factor input) (fun _ accepted => completable_of (.ofFactor accepted))
    fun first _ rest formed => termFrom_extends levels limit first (.ofFactor formed) rest

theorem expressionFrom_extends
    (first : Built)
    (formed : Recognized .expression before)
    (input : List Token) :
    Extends (expressionFrom limit level first) .expression before input :=
  folded_extends .sum (term_extends levels limit) limit first formed input

/-- An expression is extended to a recognized one by any of its beginnings. -/
theorem expression_extends (input : List Token) :
    Extends (expression limit level) .expression [] input :=
  completes_bind (term_extends levels limit input)
    (fun _ accepted => completable_of (.ofTerm accepted))
    fun first _ rest formed => expressionFrom_extends levels limit first (.ofTerm formed) rest

end Arithmetic

/-! ## Lists, members and postfixes -/

section Postfixes

variable {level : Level} (levels : level.Completes) (limit : Nat)
variable {before : List Token} {opening dot : Token}
include levels

/-- A list is extended to a recognized one by any of its beginnings. -/
theorem expressionList_extends (input : List Token) :
    Extends (expressionList limit level) .list [] input := by
  refine completes_bind (expression_extends levels limit input)
    (fun _ accepted => completable_of (.single accepted)) fun first taken rest only => ?_
  refine completes_extend (fun _ tokens => Recognized .list tokens) ?_
    (Recognized.single only)
  intro token continuation listed tokens others opened front
  split at opened
  · next kind =>
      cases opened
      refine completes_bind (expression_extends levels limit others)
        (fun _ accepted => completable_of (.append front kind accepted))
        fun next taken rest last => completes_pure ?_
      rw [List.append_nil]
      exact .append front kind last
  · contradiction

/-- A group in brackets is closed by a bracket. -/
theorem member_extends
    (kind : dot.kind = .dot)
    (chain : Chain)
    (formed : Recognized .chain before)
    (input : List Token) :
    Completes (member limit level chain) input
      (fun _ taken => Recognized .chain (before ++ dot :: taken))
      fun tokens => Recognized .chain (before ++ dot :: tokens) := by
  refine completes_expect_bind (completable_of (.bareMember formed kind rfl))
    fun name rest nameKind => ?_
  refine ensures_sees_bind (fun opening others head openingKind => ?_) fun _ => ?_
  · subst head
    have whole {arguments : List Token} {closing : Token}
        (inner : Recognized .list arguments) (closingKind : closing.kind = .rightBracket) :
        Recognized .chain (before ++ dot :: name :: opening :: (arguments ++ [closing])) := by
      simpa using formed.member kind nameKind openingKind inner closingKind
    refine completes_skip_bind (completes_bind (expressionList_extends levels limit others)
      (fun _ inner => ⟨[sample .rightBracket], whole inner rfl⟩)
      fun listed taken rest inner => ?_)
    exact completes_expect_bind (completable_of (whole inner rfl))
      fun closing rest closingKind => completes_pure (whole inner closingKind)
  · exact completes_pure (.bareMember formed kind nameKind)

theorem memberChain_extends (input : List Token) :
    Extends (memberChain limit level) .chain [] input := by
  refine completes_extend (fun _ tokens => Recognized .chain tokens) ?_
    Recognized.noMember
  intro token continuation chain tokens others opened formed
  split at opened
  · next kind =>
      cases opened
      exact member_extends levels limit kind chain formed others
  · contradiction

/-- Arguments in parentheses are closed by a parenthesis. -/
theorem call_extends
    (kind : opening.kind = .leftParenthesis)
    (callee : Built)
    (formed : Recognized .primary before)
    (input : List Token) :
    Completes (call limit level callee) input
      (fun _ taken => Recognized .primary (before ++ opening :: taken))
      fun tokens => Recognized .primary (before ++ opening :: tokens) := by
  refine ensures_sees_bind (fun closing others head closingKind => ?_) fun _ => ?_
  · subst head
    refine Reader.ensures_bind (Reader.ensures_pure ?_)
    refine completes_expect_bind (completable_of (.emptyCall formed kind rfl))
      fun closing rest closingKind => completes_grow _ _ _ fun _ => ?_
    exact .emptyCall formed kind closingKind
  · have whole {arguments : List Token} {closing : Token}
        (inner : Recognized .list arguments) (closingKind : closing.kind = .rightParenthesis) :
        Recognized .primary (before ++ opening :: (arguments ++ [closing])) := by
      simpa using formed.call kind inner closingKind
    refine completes_bind (expressionList_extends levels limit input)
      (fun _ inner => ⟨[sample .rightParenthesis], whole inner rfl⟩)
      fun listed arguments rest inner => ?_
    refine completes_expect_bind (completable_of (whole inner rfl))
      fun closing rest closingKind => completes_grow _ _ _ fun _ => ?_
    exact whole inner closingKind

/-- Indices in brackets are closed by a bracket. -/
theorem index_extends
    (kind : opening.kind = .leftBracket)
    (target : Built)
    (formed : Recognized .primary before)
    (input : List Token) :
    Completes (index limit level target) input
      (fun _ taken => Recognized .primary (before ++ opening :: taken))
      fun tokens => Recognized .primary (before ++ opening :: tokens) := by
  have whole {indices members : List Token} {closing : Token}
      (inner : Recognized .list indices) (closingKind : closing.kind = .rightBracket)
      (continued : Recognized .chain members) :
      Recognized .primary (before ++ opening :: (indices ++ closing :: members)) := by
    simpa using formed.index kind inner closingKind continued
  refine completes_bind (expressionList_extends levels limit input)
    (fun _ inner => ⟨[sample .rightBracket], whole inner rfl .noMember⟩)
    fun listed indices rest inner => ?_
  refine completes_expect_bind (completable_of (whole inner rfl .noMember))
    fun closing rest closingKind => ?_
  refine completes_bind (memberChain_extends levels limit rest)
    (fun _ continued => completable_of (whole inner closingKind continued))
    fun chain members rest continued => completes_grow _ _ _ fun _ => ?_
  rw [List.append_nil]
  exact whole inner closingKind continued

theorem postfixed_extends
    (first : Built)
    (formed : Recognized .primary before)
    (input : List Token) :
    Extends (postfixed limit level first) .primary before input := by
  refine completes_extend (fun _ tokens => Recognized .primary tokens) ?_ formed
  intro token continuation built tokens others opened formed
  split at opened
  · next kind =>
      cases opened
      exact call_extends levels limit kind built formed others
  · next kind =>
      cases opened
      exact index_extends levels limit kind built formed others
  · contradiction

end Postfixes

/-! ## Conditions -/

section Conditions

variable {before : List Token}

/-- An expression where a condition must stand becomes one by a comparison. -/
theorem completes_condition_bind
    {α : Type}
    {operand : Operand}
    {next : Built → Production α}
    {wanted : α → List Token → Prop}
    {outer : List Token → Prop}
    {input : List Token}
    (category : Category)
    (offered : operand.Recognized category before)
    (closes : Recognized .operand (before ++ belowZero) → Completable outer belowZero)
    (continued : Recognized category before → ∀ built,
      Completes (next built) input wanted outer) :
    Completes (condition operand >>= next) input wanted outer := by
  cases operand with
  | condition built => exact continued offered built
  | expression built =>
      obtain ⟨more, accepted⟩ := closes (Recognized.belowZero offered)
      exact completes_unexpected _ ⟨belowZero ++ more, accepted⟩

/-- The left side of a comparison is read in steps. -/
theorem offers_bind
    {first : Production Built}
    {next : Built → Production Operand}
    {category : Category}
    {input : List Token}
    (goesOn : Extends first category before input)
    (widens : ∀ {tokens}, Recognized category tokens → Recognized .expression tokens)
    (continued : ∀ built taken rest, Recognized category (before ++ taken) →
      Offers (next built) .operand (before ++ taken) rest) :
    Offers (first >>= next) .operand before input := by
  refine completes_bind goesOn (fun tokens accepted => ⟨belowZero, ?_⟩)
    fun built taken rest formed => ?_
  · simpa using (widens accepted).belowZero
  · simpa only [Offers, List.append_assoc] using continued built taken rest formed

variable {level : Level} (levels : level.Completes) (limit : Nat)
include levels

theorem comparisonFrom_offers
    (left : Built)
    (formed : Recognized .expression before)
    (input : List Token) :
    Offers (comparisonFrom limit level left) .operand before input := by
  refine Reader.ensures_peek_bind ?_
  split
  · exact completes_pure (by simpa [Operand.Recognized] using formed)
  · next operator found =>
      obtain ⟨token, next, named⟩ := Option.bind_eq_some_iff.mp found
      obtain ⟨others, rfl⟩ := List.head?_eq_some_iff.mp next
      refine completes_skip_bind (completes_bind (expression_extends levels limit others)
        (fun _ accepted => completable_of (.comparison formed named accepted))
        fun right taken rest second => ?_)
      refine completes_grow_bind _ _ _ fun built => completes_pure ?_
      simpa [Operand.Recognized] using Recognized.comparison formed named second

/-- What follows a parenthesis that held an expression goes on with that expression. -/
theorem resumed_offers
    (inner : Built)
    (formed : Recognized .primary before)
    (input : List Token) :
    Offers (do
      let factor ← postfixed limit level inner
      let product ← termFrom limit level factor
      comparisonFrom limit level (← expressionFrom limit level product)) .operand before input :=
  offers_bind (postfixed_extends levels limit inner formed input)
    (fun primary => .ofTerm (.ofFactor (.ofPrimary primary))) fun factor _ rest primary =>
  offers_bind (termFrom_extends levels limit factor (.ofFactor (.ofPrimary primary)) rest)
    .ofTerm fun product _ rest term =>
  offers_bind (expressionFrom_extends levels limit product (.ofTerm term) rest)
    id fun left _ rest sum =>
  comparisonFrom_offers levels limit left sum rest

/-- A parenthesis is closed first; what was in it is then a condition or becomes one by a
comparison. -/
theorem conditionOperand_offers (input : List Token) :
    Offers (conditionOperand limit level) .operand [] input := by
  refine ensures_sees_bind (fun opening others head openingKind => ?_) fun _ => ?_
  · subst head
    refine completes_skip_bind (completes_bind (levels.operand others)
      (fun _ inner => ⟨[sample .rightParenthesis], .conditionGroup openingKind inner rfl⟩)
      fun inner tokens rest formed => ?_)
    cases inner with
    | condition built =>
        refine completes_expect_bind
          (completable_of (.conditionGroup openingKind formed rfl))
          fun closing rest closingKind => completes_pure ?_
        exact Recognized.conditionGroup openingKind formed closingKind
    | expression built =>
        have group {closing : Token} (closingKind : closing.kind = .rightParenthesis) :
            Recognized .primary (opening :: tokens ++ [closing]) :=
          .group openingKind formed closingKind
        refine completes_expect_bind ⟨belowZero, ?_⟩ fun closing rest closingKind => ?_
        · have sum : Recognized .expression (opening :: tokens ++ [sample .rightParenthesis]) :=
            .ofTerm (.ofFactor (.ofPrimary (group rfl)))
          simpa using sum.belowZero
        · simpa only [Offers, List.append_assoc, List.cons_append, List.nil_append] using
            resumed_offers levels limit built (group closingKind) rest
  · exact offers_bind (expression_extends levels limit input) id
      fun left _ rest sum => comparisonFrom_offers levels limit left sum rest

/-- Connectives extend a recognized condition by one operand after the other. -/
theorem logical_extends
    (first : Built)
    (formed : Recognized .condition before)
    (input : List Token) :
    Extends (Grammar.logical limit level first) .condition before input := by
  refine completes_extend (fun _ tokens => Recognized .condition tokens) ?_ formed
  intro token continuation left tokens others opened front
  obtain ⟨operator, named, rfl⟩ := Option.map_eq_some_iff.mp opened
  have joined {back : List Token} (second : Recognized .operand back) :
      Recognized .condition (tokens ++ token :: back) :=
    .logical front named second
  refine completes_bind (conditionOperand_offers levels limit others)
    (fun _ accepted => completable_of (joined accepted)) fun operand taken rest offered => ?_
  refine completes_condition_bind .operand offered (fun second => completable_of (joined second))
    fun second right => completes_grow _ _ _ fun _ => ?_
  rw [List.append_nil]
  exact joined second

theorem operandBody_offers (input : List Token) :
    Offers (operandBody limit level) .condition [] input := by
  refine completes_bind (conditionOperand_offers levels limit input)
    (fun _ accepted => completable_of (.ofOperand accepted)) fun first taken rest offered => ?_
  refine Reader.ensures_peek_bind ?_
  split
  · refine completes_pure ?_
    rw [List.append_nil]
    cases first with
    | condition built => exact Recognized.ofOperand offered
    | expression built => exact offered
  · refine completes_condition_bind .operand offered
      (fun operand => completable_of (.ofOperand operand)) fun operand left => ?_
    refine completes_bind (logical_extends levels limit left (.ofOperand operand) rest)
      (fun _ accepted => completable_of accepted) fun built more _ whole => completes_pure ?_
    simpa [Operand.Recognized] using whole

end Conditions

/-! ## Factors -/

section Factors

variable {level : Level} (levels : level.Completes) (limit : Nat)
include levels

/-- A conditional is completed by the branches that are missing. -/
theorem conditional_extends (input : List Token) :
    Extends (Grammar.conditional limit level) .factor [] input := by
  have comparison : Recognized .condition ([sample .number] ++ belowZero) :=
    .ofOperand recognized_zero.belowZero
  refine completes_expect_bind
    ⟨sample .number :: belowZero ++ zeroBranches, .zeroBranches rfl comparison⟩
    fun ifToken rest ifKind => ?_
  refine completes_bind (levels.operand rest)
    (fun _ condition => ⟨zeroBranches, .zeroBranches ifKind condition⟩)
    fun operand conditionTokens rest offered => ?_
  refine completes_condition_bind .condition offered
    (fun chosen => ⟨zeroBranches, ?_⟩) fun condition chosen => ?_
  · simpa using Recognized.zeroBranches ifKind (.ofOperand chosen)
  have whole {trueTokens falseTokens : List Token} {thenToken elseToken : Token}
      (thenKind : thenToken.kind = .thenWord)
      (first : Recognized .expression trueTokens)
      (elseKind : elseToken.kind = .elseWord)
      (second : Recognized .expression falseTokens) :
      Recognized .factor (ifToken ::
        (conditionTokens ++ thenToken :: (trueTokens ++ elseToken :: falseTokens))) := by
    simpa using Recognized.conditional ifKind condition thenKind first elseKind second
  have branches : Recognized .factor (ifToken :: (conditionTokens ++ zeroBranches)) :=
    whole rfl recognized_zero rfl recognized_zero
  refine completes_expect_bind ⟨zeroBranches.tail, branches⟩ fun thenToken rest thenKind => ?_
  refine completes_bind (expression_extends levels limit rest)
    (fun _ first => ⟨[sample .elseWord, sample .number], ?_⟩)
    fun whenTrue trueTokens rest first => ?_
  · exact whole thenKind first rfl recognized_zero
  refine completes_expect_bind ⟨[sample .number], whole thenKind first rfl recognized_zero⟩
    fun elseToken rest elseKind => ?_
  refine completes_bind (expression_extends levels limit rest)
    (fun _ second => completable_of (whole thenKind first elseKind second))
    fun whenFalse falseTokens rest second => completes_grow _ _ _ fun _ => ?_
  rw [List.append_nil]
  exact whole thenKind first elseKind second

theorem signed_extends
    {token : Token}
    {operator : Sign}
    (kind : token.kind = .operator)
    (named : Sign.ofSymbol? token.text = some operator)
    (input : List Token) :
    Extends (Grammar.signed limit level operator) .factor [] (token :: input) := by
  refine completes_skip_bind (completes_bind (levels.factor input)
    (fun _ accepted => completable_of (.signed kind named accepted))
    fun operand taken rest formed => completes_grow _ _ _ fun _ => ?_)
  rw [List.append_nil]
  exact Recognized.signed kind named formed

theorem grouped_extends
    {opening : Token}
    (kind : opening.kind = .leftParenthesis)
    (input : List Token) :
    Extends (grouped limit level) .primary [] (opening :: input) := by
  refine completes_skip_bind (completes_bind (expression_extends levels limit input)
    (fun _ inner => ⟨[sample .rightParenthesis], .group kind inner rfl⟩)
    fun inner tokens rest formed => ?_)
  refine completes_expect_bind (completable_of (.group kind formed rfl))
    fun closing rest closingKind => ?_
  simpa only [Extends, List.append_assoc, List.cons_append, List.nil_append] using
    postfixed_extends levels limit inner (.group kind formed closingKind) rest

/-- Any beginning of a factor is extended to a recognized one. -/
theorem factorBody_extends (input : List Token) :
    Extends (factorBody limit level) .factor [] input := by
  have missing : Completable (Recognized .factor) [] :=
    ⟨[sample .number], recognized_zeroFactor⟩
  refine Reader.ensures_peek_bind ?_
  cases input with
  | nil => exact completes_unexpected _ missing
  | cons token others =>
      dsimp only [List.head?_cons]
      split
      · next kind =>
          split
          · exact completes_unexpected _ missing
          · next operator named => exact signed_extends levels limit kind named others
      · next kind =>
          exact (grouped_extends levels limit kind others).mono (fun _ _ => .ofPrimary)
            fun _ primary => completable_of (.ofPrimary primary)
      · next kind =>
          split
          · exact completes_unexpected _ missing
          · next value denoted =>
              exact completes_skip_bind (completes_pure (.number kind denoted))
      · next kind => exact completes_skip_bind (completes_pure (.string kind))
      · exact conditional_extends levels limit (token :: others)
      · next kind =>
          exact completes_skip_bind ((postfixed_extends levels limit _ (.name kind) others).mono
            (fun _ _ => .ofPrimary) fun _ primary => completable_of (.ofPrimary primary))
      · exact completes_unexpected _ missing

end Factors

/-- Every level completes its factors and operands, by induction on the levels that are left. -/
theorem level_completes (limit budget : Nat) : (level limit budget).Completes := by
  induction budget with
  | zero => exact ⟨fun _ => completes_tooDeep, fun _ => completes_tooDeep⟩
  | succ below levels =>
      exact ⟨factorBody_extends levels limit, operandBody_offers levels limit⟩

/-- Behind a whole expression every token is one too many. -/
theorem wholeExpression_extends (limit : Nat) (input : List Token) :
    Extends (wholeExpression limit) .expression [] input := by
  refine completes_bind (expression_extends (level_completes limit limit) limit input)
    (fun _ accepted => completable_of accepted) fun built taken rest formed => ?_
  refine Reader.ensures_peek_bind ?_
  split
  · exact completes_pure (by simpa using formed)
  · exact completes_unexpected _ ⟨[], by simpa using formed⟩

end Grammar
end Expr
end ModelEquation
