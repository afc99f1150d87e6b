import ModelEquation.Proofs.Grammar.Completeness
import ModelEquation.Proofs.Reader.Outcome

/-!
# Deriving what a reader returns

Whatever the readers of the grammar return has a greedy derivation from the
tokens that were taken. With enough levels for the tokens that are left, and a
limit that is no less than the number of all tokens, they never fail because of
nesting: a factor enters one level and a condition two, each for at least one
token, and no tree is taller than its tokens are many.

The derivations are greedy because each reader stops where it must. After a last
branch no operator is left, after a member no bracket.
-/

namespace ModelEquation
namespace Expr
namespace Grammar

/-- A reader returns such a value, or fails for another reason than nesting. -/
abbrev Yields
    {α : Type}
    (production : Production α)
    (input : List Token)
    (returned : α → List Token → List Token → Prop) : Prop :=
  production.Ensures input returned fun failure => ¬ failure.GaveUp

/-- The limits suffice for the tokens that are left after others were taken. -/
structure Room (limit budget : Nat) (before input : List Token) : Prop where
  fits : before.length + input.length ≤ limit
  enters : 2 * input.length + 1 ≤ budget

namespace Room

variable {limit budget : Nat} {token : Token} {before taken input rest : List Token}

theorem start (room : Room limit budget before input) : Room limit budget [] input :=
  ⟨Nat.le_trans (Nat.add_le_add_right (Nat.zero_le _) _) room.fits, room.enters⟩

/-- Taking tokens leaves room. -/
theorem shift
    (room : Room limit budget before input)
    (split : input = taken ++ rest) :
    Room limit budget (before ++ taken) rest := by
  obtain ⟨fits, enters⟩ := room
  rw [split, List.length_append] at fits enters
  exact ⟨by rw [List.length_append]; omega, by omega⟩

theorem next (room : Room limit budget before (token :: input)) :
    Room limit budget (before ++ [token]) input :=
  room.shift rfl

end Room

/-- No arithmetic operator of the given precedence follows. -/
def Unfolded (additive : Bool) (rest : List Token) : Prop :=
  ∀ token ∈ rest.head?, arithmetic? additive token = none

/-- What a phrase of the given ending leaves open does not follow. -/
def Ending.Halts (rest : List Token) : Ending → Prop
  | .closed => True
  | .member => Avoids [.leftBracket] rest
  | .branch => ∀ additive, Unfolded additive rest

/-- An expression that some tokens form, where others are left. -/
structure Built.Formed
    (depth : Nat)
    (phrase : Ending → Expr → Phrase)
    (built : Built)
    (taken rest : List Token) : Prop where
  height_le : built.height ≤ taken.length
  derived : ∃ ending : Ending,
    Derives .greedy depth (phrase ending built.expression) taken ∧ ending.Halts rest

/-- Expressions that some tokens form. -/
structure Listed.Formed (depth : Nat) (listed : Listed) (taken : List Token) : Prop where
  height_le : listed.height ≤ taken.length
  derived : Derives .greedy depth (.list listed.expressions) taken

/-- Members that some tokens form, where others are left. -/
structure Chain.Formed (depth : Nat) (chain : Chain) (taken rest : List Token) : Prop where
  height_le : chain.height ≤ taken.length
  derived : ∃ ending : Ending,
    Derives .greedy depth (.chain ending chain.members) taken ∧ ending.Halts rest

/-- What some tokens form where a condition may stand. -/
def Operand.Formed
    (depth : Nat)
    (phrase : Expr → Phrase)
    (taken rest : List Token) : Operand → Prop
  | .condition built =>
      built.height ≤ taken.length ∧ Derives .greedy depth (phrase built.expression) taken
  | .expression built => built.Formed depth .expression taken rest

/-- The readers of a level return what tokens form, and they suffice. A condition
needs one level more than a factor. -/
structure Level.Sound (limit budget depth : Nat) (level : Level) : Prop where
  factor : ∀ {input}, Room limit budget [] input →
    Yields level.factor input fun built taken rest => built.Formed depth .factor taken rest
  operand : ∀ {input}, Room limit budget [] input → 2 * input.length + 2 ≤ budget →
    Yields level.operand input fun operand taken rest =>
      operand.Formed depth .condition taken rest

theorem Built.Formed.mono
    {depth larger : Nat}
    {phrase : Ending → Expr → Phrase}
    {built : Built}
    {taken rest : List Token}
    (formed : built.Formed depth phrase taken rest)
    (le : depth ≤ larger) :
    built.Formed larger phrase taken rest := by
  obtain ⟨height, ending, derived, halts⟩ := formed
  exact ⟨height, ending, derived.mono le, halts⟩

theorem Operand.Formed.mono
    {depth larger : Nat}
    {phrase : Expr → Phrase}
    {operand : Operand}
    {taken rest : List Token}
    (formed : operand.Formed depth phrase taken rest)
    (le : depth ≤ larger) :
    operand.Formed larger phrase taken rest := by
  cases operand with
  | condition built => exact ⟨formed.1, formed.2.mono le⟩
  | expression built => exact Built.Formed.mono formed le

theorem Level.Sound.mono
    {limit budget depth larger : Nat}
    {level : Level}
    (sound : level.Sound limit budget depth)
    (le : depth ≤ larger) :
    level.Sound limit budget larger where
  factor room := (sound.factor room).imp fun _ _ _ _ formed => formed.mono le
  operand room enters := (sound.operand room enters).imp fun _ _ _ _ formed => formed.mono le

/-! ## Single steps -/

section Steps

variable {α : Type} {kind : Token.Kind} {input : List Token}

theorem unexpected_yields
    (expected : Expectation)
    (returned : α → List Token → List Token → Prop) :
    Yields (unexpected expected) input returned :=
  Reader.ensures_fail (by simp [Failure.GaveUp])

/-- Where a kind is expected one token of it is taken. -/
theorem expect_yields :
    Yields (expect kind) input fun text taken _ =>
      ∃ token, taken = [token] ∧ token.kind = kind ∧ text = token.text := by
  refine Reader.ensures_peek_bind ?_
  cases input with
  | nil => exact unexpected_yields _ _
  | cons token rest =>
      dsimp only [List.head?_cons]
      split
      · next known =>
          exact Reader.ensures_skip_bind (Reader.ensures_pure ⟨token, rfl, known, rfl⟩)
      · exact unexpected_yields _ _

/-- A tree that is built is one level higher than what it is built of. -/
theorem grow_yields
    {limit below : Nat}
    {expression : Expr}
    {returned : Built → List Token → List Token → Prop}
    (fits : below + 1 ≤ limit)
    (holds : returned ⟨expression, below + 1⟩ [] input) :
    Yields (grow limit below expression) input returned := by
  rw [grow, if_pos fits]
  exact Reader.ensures_pure holds

end Steps

/-! ## Sums and products -/

section Arithmetic

variable {limit budget depth : Nat} {before input : List Token}

/-- A left side that an operator follows admits the operator. -/
theorem Ending.Halts.admitsOperator
    {ending : Ending}
    {token : Token}
    {others : List Token}
    {additive : Bool}
    {operator : Arithmetic}
    (halts : ending.Halts (token :: others))
    (named : arithmetic? additive token = some operator) :
    Convention.greedy.admitsOperator ending = true := by
  cases ending with
  | closed => rfl
  | member => rfl
  | branch =>
      have none := halts additive token rfl
      rw [none] at named
      contradiction

/-- Folding keeps to the derivations that each operator extends. -/
theorem folded_yields
    {additive : Bool}
    {operand : Production Built}
    {part whole : Ending → Expr → Phrase}
    (follow : List Token → Prop)
    (derives : ∀ {before after left right front back token operator},
      Derives .greedy depth (whole before left) front →
      Convention.greedy.admitsOperator before = true →
      arithmetic? additive token = some operator →
      Derives .greedy depth (part after right) back →
      Derives .greedy depth (whole after (.binary operator left right)) (front ++ token :: back))
    (operands : ∀ {input}, Room limit budget [] input →
      Yields operand input fun built taken rest =>
        built.Formed depth part taken rest ∧ follow rest)
    {first : Built}
    (room : Room limit budget before input)
    (formed : first.Formed depth whole before input)
    (follows : follow input) :
    Yields (folded limit additive operand first) input fun built taken rest =>
      built.Formed depth whole (before ++ taken) rest ∧ follow rest ∧ Unfolded additive rest := by
  refine (Reader.ensures_extend
    (fun built before rest =>
      Room limit budget before rest ∧ built.Formed depth whole before rest ∧ follow rest)
    ?_ ⟨room, formed, follows⟩).imp ?_
  · intro token continuation left before others opened ⟨room, formed, _⟩
    obtain ⟨operator, named, rfl⟩ := Option.map_eq_some_iff.mp opened
    have after := room.next
    refine Reader.ensures_bind ((operands after.start).imp fun right taken rest split result => ?_)
    have later := after.shift split
    have fits := later.fits
    obtain ⟨⟨rightHeight, afterEnding, second, halts⟩, follows⟩ := result
    obtain ⟨leftHeight, beforeEnding, first, beforeHalts⟩ := formed
    simp only [List.append_assoc, List.cons_append, List.nil_append, List.length_append,
      List.length_cons] at fits later
    refine grow_yields (by omega) ?_
    rw [List.append_nil]
    refine ⟨later, ⟨?_, afterEnding, ?_, halts⟩, follows⟩
    · simp only [List.length_append, List.length_cons]
      omega
    · exact derives first (beforeHalts.admitsOperator named) named second
  · intro built taken rest _ ⟨⟨_, formed, follows⟩, stops⟩
    exact ⟨formed, follows, fun token next => Option.map_eq_none_iff.mp (stops token next)⟩

variable {level : Level} (levels : level.Sound limit budget depth)
include levels

theorem termFrom_yields
    {first : Built}
    (room : Room limit budget before input)
    (formed : first.Formed depth .term before input) :
    Yields (termFrom limit level first) input fun built taken rest =>
      built.Formed depth .term (before ++ taken) rest ∧ Unfolded false rest :=
  (folded_yields (fun _ => True) .product
    (fun room => (levels.factor room).imp fun _ _ _ _ formed => ⟨formed, trivial⟩)
    room formed trivial).imp fun _ _ _ _ result => ⟨result.1, result.2.2⟩

/-- The tokens taken for a term are derived as the term, and no operator of its precedence
follows. -/
theorem term_yields (room : Room limit budget before input) :
    Yields (term limit level) input fun built taken rest =>
      built.Formed depth .term taken rest ∧ Unfolded false rest := by
  refine Reader.ensures_bind
    ((levels.factor room.start).imp fun first taken rest split formed => ?_)
  obtain ⟨height, ending, derived, halts⟩ := formed
  exact termFrom_yields levels (room.start.shift split) ⟨height, ending, .ofFactor derived, halts⟩

theorem expressionFrom_yields
    {first : Built}
    (room : Room limit budget before input)
    (formed : first.Formed depth .expression before input)
    (stops : Unfolded false input) :
    Yields (expressionFrom limit level first) input fun built taken rest =>
      built.Formed depth .expression (before ++ taken) rest ∧
        ∀ additive, Unfolded additive rest := by
  refine (folded_yields (Unfolded false) .sum (term_yields levels) room formed
    stops).imp fun built taken rest _ result => ⟨result.1, fun additive => ?_⟩
  cases additive with
  | false => exact result.2.1
  | true => exact result.2.2

/-- The tokens taken for an expression are derived as the expression, and no operator follows.
-/
theorem expression_yields (room : Room limit budget before input) :
    Yields (expression limit level) input fun built taken rest =>
      built.Formed depth .expression taken rest ∧ ∀ additive, Unfolded additive rest := by
  refine Reader.ensures_bind ((term_yields levels room).imp fun first taken rest split result => ?_)
  obtain ⟨⟨height, ending, derived, halts⟩, stops⟩ := result
  exact expressionFrom_yields levels (room.start.shift split)
    ⟨height, ending, .ofTerm derived, halts⟩ stops

end Arithmetic

/-! ## Lists, members and postfixes -/

section Postfixes

variable {limit budget depth : Nat} {before input : List Token}

/-- A phrase that a bracket follows admits an index group. -/
theorem Ending.Halts.admitsBracket
    {ending : Ending}
    {token : Token}
    {others : List Token}
    (halts : ending.Halts (token :: others))
    (kind : token.kind = .leftBracket) :
    Convention.greedy.admitsBracket ending = true := by
  cases ending with
  | closed => rfl
  | member => exact absurd kind (by simpa [Ending.Halts] using halts)
  | branch => rfl

variable {level : Level} (levels : level.Sound limit budget depth)
include levels

/-- The tokens taken for a list are derived as the list. -/
theorem expressionList_yields (room : Room limit budget before input) :
    Yields (expressionList limit level) input fun listed taken _ =>
      listed.Formed depth taken := by
  rw [expressionList_eq]
  refine Reader.ensures_bind
    ((expression_yields levels room.start).imp fun first taken rest split result => ?_)
  obtain ⟨⟨height, ending, only, _⟩, _⟩ := result
  refine (Reader.ensures_extend
    (fun listed before rest =>
      Room limit budget before rest ∧ listed.Formed depth before)
    ?_ ⟨room.start.shift split, height, .single only⟩).imp
      fun _ _ _ _ result => result.1.2
  intro token continuation listed before others opened ⟨room, height, derived⟩
  split at opened
  · next kind =>
      cases opened
      have after := room.next
      refine Reader.ensures_bind
        ((expression_yields levels after).imp fun next taken rest split result => ?_)
      obtain ⟨⟨nextHeight, ending, last, _⟩, _⟩ := result
      refine Reader.ensures_pure ⟨?_, ?_, ?_⟩
      · simpa using after.shift split
      · simp only [Listed.append, List.append_nil, List.length_append, List.length_cons]
        omega
      · rw [List.append_nil]
        exact .append derived kind last
  · contradiction

/-- A name and an optional group go on with the members before them. -/
theorem member_yields
    {chain : Chain}
    {dot : Token}
    (room : Room limit budget (before ++ [dot]) input)
    (kind : dot.kind = .dot)
    (formed : chain.Formed depth before (dot :: input)) :
    Yields (member limit level chain) input fun longer taken rest =>
      longer.Formed depth (before ++ dot :: taken) rest := by
  obtain ⟨height, ending, derived, _⟩ := formed
  refine Reader.ensures_bind (expect_yields.imp fun text taken rest split result => ?_)
  obtain ⟨name, rfl, nameKind, rfl⟩ := result
  refine ensures_sees_bind (fun opening others head openingKind => ?_) fun avoids => ?_
  · subst head
    have after := (room.shift split).next
    refine Reader.ensures_skip_bind (Reader.ensures_bind
      ((expressionList_yields levels after).imp fun listed arguments rest split result => ?_))
    obtain ⟨listedHeight, inner⟩ := result
    refine Reader.ensures_bind (expect_yields.imp fun _ _ _ _ result => ?_)
    obtain ⟨closing, rfl, closingKind, _⟩ := result
    refine Reader.ensures_pure ⟨?_, .closed, ?_, trivial⟩
    · simp only [List.length_append, List.length_cons, List.length_nil]
      omega
    · have longer := derived.member kind nameKind openingKind inner closingKind
      simpa using longer
  · refine Reader.ensures_pure ⟨?_, .member, ?_, avoids⟩
    · simp only [List.length_append, List.length_cons, List.length_nil]
      omega
    · exact derived.bareMember kind nameKind

theorem memberChain_yields (room : Room limit budget before input) :
    Yields (memberChain limit level) input fun chain taken rest =>
      chain.Formed depth taken rest := by
  refine (Reader.ensures_extend
    (fun chain before rest =>
      Room limit budget before rest ∧ chain.Formed depth before rest)
    ?_ ⟨room.start, Nat.le_refl _, .closed, .noMember, trivial⟩).imp
      fun _ _ _ _ result => result.1.2
  intro token continuation chain before others opened ⟨room, formed⟩
  split at opened
  · next kind =>
      cases opened
      have after := room.next
      refine (member_yields levels after kind formed).imp fun longer taken rest split result => ?_
      exact ⟨by simpa using after.shift split, result⟩
  · contradiction

/-- Arguments in parentheses go on with the expression before them. -/
theorem call_yields
    {callee : Built}
    {opening : Token}
    (room : Room limit budget (before ++ [opening]) input)
    (kind : opening.kind = .leftParenthesis)
    (formed : callee.Formed depth .primary before (opening :: input)) :
    Yields (call limit level callee) input fun built taken rest =>
      built.Formed depth .primary (before ++ opening :: taken) rest := by
  obtain ⟨height, ending, applied, _⟩ := formed
  have fits := room.fits
  refine ensures_sees_bind (fun closing others head closingKind => ?_) fun _ => ?_
  · subst head
    refine Reader.ensures_bind (Reader.ensures_pure ?_)
    refine Reader.ensures_bind (expect_yields.imp fun _ taken rest split result => ?_)
    obtain ⟨closing, rfl, closingKind, _⟩ := result
    simp only [List.length_append, List.length_cons, List.length_nil] at fits
    refine grow_yields (by simp only; omega) ⟨?_, .closed, ?_, trivial⟩
    · simp only [List.length_append, List.length_cons, List.length_nil]
      omega
    · exact applied.emptyCall kind closingKind
  · refine Reader.ensures_bind
      ((expressionList_yields levels room).imp fun listed arguments rest split result => ?_)
    obtain ⟨listedHeight, inner⟩ := result
    refine Reader.ensures_bind (expect_yields.imp fun _ taken rest further result => ?_)
    obtain ⟨closing, rfl, closingKind, _⟩ := result
    subst further split
    simp only [List.length_append, List.length_cons, List.length_nil] at fits
    refine grow_yields (by omega) ⟨?_, .closed, ?_, trivial⟩
    · simp only [List.length_append, List.length_cons, List.length_nil]
      omega
    · have longer := applied.call kind inner closingKind
      simpa using longer

/-- Indices in brackets, and members, go on with the expression before them. -/
theorem index_yields
    {target : Built}
    {opening : Token}
    (room : Room limit budget (before ++ [opening]) input)
    (kind : opening.kind = .leftBracket)
    (formed : target.Formed depth .primary before (opening :: input)) :
    Yields (index limit level target) input fun built taken rest =>
      built.Formed depth .primary (before ++ opening :: taken) rest := by
  obtain ⟨height, ending, applied, halts⟩ := formed
  have fits := room.fits
  refine Reader.ensures_bind
    ((expressionList_yields levels room).imp fun listed indices rest split result => ?_)
  obtain ⟨listedHeight, inner⟩ := result
  refine Reader.ensures_bind (expect_yields.imp fun _ taken rest further result => ?_)
  obtain ⟨closing, rfl, closingKind, _⟩ := result
  have after := (room.shift split).shift further
  refine Reader.ensures_bind
    ((memberChain_yields levels after).imp fun chain members rest last result => ?_)
  obtain ⟨chainHeight, final, continued, finalHalts⟩ := result
  subst last further split
  simp only [List.length_append, List.length_cons, List.length_nil] at fits
  refine grow_yields (by omega) ⟨?_, final, ?_, finalHalts⟩
  · simp only [List.length_append, List.length_cons, List.length_nil]
    omega
  · have longer := applied.index (halts.admitsBracket kind) kind inner closingKind continued
    simpa using longer

/-- The tokens taken for the groups behind a primary are derived together with it. -/
theorem postfixed_yields
    {first : Built}
    (room : Room limit budget before input)
    (formed : first.Formed depth .primary before input) :
    Yields (postfixed limit level first) input fun built taken rest =>
      built.Formed depth .primary (before ++ taken) rest := by
  refine (Reader.ensures_extend
    (fun built before rest =>
      Room limit budget before rest ∧ built.Formed depth .primary before rest)
    ?_ ⟨room, formed⟩).imp fun _ _ _ _ result => result.1.2
  intro token continuation value before others opened ⟨room, formed⟩
  have after := room.next
  split at opened
  · next kind =>
      cases opened
      refine (call_yields levels after kind formed).imp fun built taken rest split result => ?_
      exact ⟨by simpa using after.shift split, result⟩
  · next kind =>
      cases opened
      refine (index_yields levels after kind formed).imp fun built taken rest split result => ?_
      exact ⟨by simpa using after.shift split, result⟩
  · contradiction

end Postfixes

/-! ## Conditions -/

section Conditions

variable {limit budget depth : Nat} {before input : List Token}

/-- An operand that holds a condition is derived as the condition. -/
theorem condition_yields
    {phrase : Expr → Phrase}
    {operand : Operand}
    {taken : List Token}
    (formed : operand.Formed depth phrase taken input) :
    Yields (condition operand) input fun built more _ =>
      more = [] ∧ built.height ≤ taken.length ∧
        Derives .greedy depth (phrase built.expression) taken := by
  cases operand with
  | condition built => exact Reader.ensures_pure ⟨rfl, formed⟩
  | expression built => exact unexpected_yields _ _

variable {level : Level} (levels : level.Sound limit budget depth)
include levels

/-- The tokens taken for a comparison are derived together with its left side. -/
theorem comparisonFrom_yields
    {left : Built}
    (room : Room limit budget before input)
    (formed : left.Formed depth .expression before input) :
    Yields (comparisonFrom limit level left) input fun operand taken rest =>
      operand.Formed depth .operand (before ++ taken) rest := by
  refine Reader.ensures_peek_bind ?_
  split
  · exact Reader.ensures_pure (by simpa [Operand.Formed] using formed)
  · next operator found =>
      obtain ⟨token, next, named⟩ := Option.bind_eq_some_iff.mp found
      obtain ⟨others, rfl⟩ := List.head?_eq_some_iff.mp next
      obtain ⟨leftHeight, leftEnding, first, _⟩ := formed
      have fits := room.fits
      have after := room.next
      refine Reader.ensures_skip_bind (Reader.ensures_bind
        ((expression_yields levels after).imp fun right taken rest split result => ?_))
      obtain ⟨⟨rightHeight, rightEnding, second, _⟩, _⟩ := result
      subst split
      simp only [List.length_append, List.length_cons] at fits
      refine Reader.ensures_bind (grow_yields (by omega) (Reader.ensures_pure ⟨?_, ?_⟩))
      · simp only [List.length_append, List.length_cons, List.length_nil]
        omega
      · have whole := Derives.comparison first named second
        simpa using whole

/-- What follows a parenthesis that held an expression is read with the level
around the parenthesis. -/
theorem conditionOperand_yields (room : Room limit budget before input) :
    Yields (conditionOperand limit level) input fun operand taken rest =>
      operand.Formed (depth + 1) .operand taken rest := by
  have larger := levels.mono depth.le_succ
  refine ensures_sees_bind (fun opening others head openingKind => ?_) fun _ => ?_
  · subst head
    have after := room.start.next
    have enters := room.enters
    simp only [List.length_cons] at enters
    refine Reader.ensures_skip_bind (Reader.ensures_bind
      ((levels.operand after.start (by omega)).imp fun inner tokens rest split formed => ?_))
    refine Reader.ensures_bind (expect_yields.imp fun _ taken rest further result => ?_)
    obtain ⟨closing, rfl, closingKind, _⟩ := result
    have later := (after.shift split).shift further
    cases inner with
    | condition built =>
        refine Reader.ensures_pure ⟨?_, ?_⟩
        · have height := formed.1
          simp only [List.length_append, List.length_cons, List.length_nil]
          omega
        · have whole := Derives.conditionGroup openingKind formed.2 closingKind
          simpa using whole.succ
    | expression built =>
        obtain ⟨height, ending, derived, _⟩ := formed
        have group : built.Formed depth .primary ([opening] ++ tokens ++ [closing]) rest := by
          refine ⟨?_, .closed, .group openingKind derived closingKind, trivial⟩
          simp only [List.length_append, List.length_cons, List.length_nil]
          omega
        refine Reader.ensures_bind
          ((postfixed_yields levels later group).imp fun factor more rest split formed => ?_)
        have later := later.shift split
        obtain ⟨height, ending, primary, halts⟩ := formed
        have first : factor.Formed (depth + 1) .term _ rest :=
          ⟨height, ending, .ofFactor (.ofPrimary primary), halts⟩
        refine Reader.ensures_bind
          ((termFrom_yields larger later first).imp fun product more rest split result => ?_)
        have later := later.shift split
        obtain ⟨⟨height, ending, term, halts⟩, stops⟩ := result
        have sum : product.Formed (depth + 1) .expression _ rest :=
          ⟨height, ending, .ofTerm term, halts⟩
        refine Reader.ensures_bind
          ((expressionFrom_yields larger later sum stops).imp fun left more rest split result => ?_)
        have later := later.shift split
        refine (comparisonFrom_yields larger later result.1).imp fun operand _ _ _ formed => ?_
        simpa using formed
  · refine Reader.ensures_bind
      ((expression_yields larger room.start).imp fun left taken rest split result => ?_)
    exact comparisonFrom_yields larger (room.start.shift split) result.1

/-- The tokens taken for connectives are derived together with the condition in front. -/
theorem logical_yields
    {first : Built}
    (room : Room limit budget before input)
    (height : first.height ≤ before.length)
    (derived : Derives .greedy (depth + 2) (.condition first.expression) before) :
    Yields (Grammar.logical limit level first) input fun built taken _ =>
      built.height ≤ (before ++ taken).length ∧
        Derives .greedy (depth + 2) (.condition built.expression) (before ++ taken) := by
  refine (Reader.ensures_extend
    (fun built before rest =>
      Room limit budget before rest ∧ built.height ≤ before.length ∧
        Derives .greedy (depth + 2) (.condition built.expression) before)
    ?_ ⟨room, height, derived⟩).imp fun _ _ _ _ result => result.1.2
  intro token continuation left before others opened ⟨room, leftHeight, first⟩
  obtain ⟨operator, named, rfl⟩ := Option.map_eq_some_iff.mp opened
  have after := room.next
  refine Reader.ensures_bind
    ((conditionOperand_yields levels after).imp fun operand taken rest split formed => ?_)
  refine Reader.ensures_bind ((condition_yields formed).imp fun right _ _ further result => ?_)
  obtain ⟨rfl, rightHeight, second⟩ := result
  subst further
  have later := after.shift split
  have fits := later.fits
  simp only [List.append_assoc, List.cons_append, List.nil_append, List.length_append,
    List.length_cons] at fits later
  refine grow_yields (by omega) ?_
  refine ⟨by simpa using later, ?_, ?_⟩
  · simp only [List.append_nil, List.length_append, List.length_cons]
    omega
  · rw [List.append_nil, List.append_nil]
    exact .logical first named second

/-- The tokens taken for an operand are derived as a condition. -/
theorem operandBody_yields (room : Room limit budget before input) :
    Yields (operandBody limit level) input fun operand taken rest =>
      operand.Formed (depth + 2) .condition taken rest := by
  refine Reader.ensures_bind
    ((conditionOperand_yields levels room).imp fun operand taken rest split formed => ?_)
  refine Reader.ensures_peek_bind ?_
  split
  · refine Reader.ensures_pure ?_
    rw [List.append_nil]
    cases operand with
    | condition built => exact ⟨formed.1, .ofOperand formed.2⟩
    | expression built => exact Built.Formed.mono formed (Nat.le_succ _)
  · refine Reader.ensures_bind ((condition_yields formed).imp fun left _ _ further result => ?_)
    obtain ⟨rfl, height, derived⟩ := result
    subst further
    refine Reader.ensures_bind
      ((logical_yields levels (room.start.shift split) height (.ofOperand derived)).imp
        fun built more rest _ result => ?_)
    refine Reader.ensures_pure ?_
    simpa [Operand.Formed] using result

/-- The tokens taken for a conditional are derived as a factor. -/
theorem conditional_yields (room : Room limit (budget + 1) before input) :
    Yields (Grammar.conditional limit level) input fun built taken rest =>
      built.Formed (depth + 1) .factor taken rest := by
  obtain ⟨fits, enters⟩ := room
  refine Reader.ensures_bind (expect_yields.imp fun _ taken rest split result => ?_)
  obtain ⟨ifToken, rfl, ifKind, _⟩ := result
  subst split
  simp only [List.cons_append, List.nil_append, List.length_cons] at fits enters
  have inside : Room limit budget [] rest := ⟨by simp only [List.length_nil]; omega, by omega⟩
  refine Reader.ensures_bind ((levels.operand inside (by omega)).imp
    fun operand conditionTokens rest split formed => ?_)
  have inside := inside.shift split
  refine Reader.ensures_bind ((condition_yields formed).imp fun chosen _ _ further result => ?_)
  obtain ⟨rfl, chosenHeight, condition⟩ := result
  subst further
  refine Reader.ensures_bind (expect_yields.imp fun _ taken rest split result => ?_)
  obtain ⟨thenToken, rfl, thenKind, _⟩ := result
  have inside := inside.shift split
  refine Reader.ensures_bind ((expression_yields levels inside).imp
    fun whenTrue trueTokens rest split result => ?_)
  obtain ⟨⟨trueHeight, trueEnding, first, _⟩, _⟩ := result
  have inside := inside.shift split
  refine Reader.ensures_bind (expect_yields.imp fun _ taken rest split result => ?_)
  obtain ⟨elseToken, rfl, elseKind, _⟩ := result
  have inside := inside.shift split
  refine Reader.ensures_bind ((expression_yields levels inside).imp
    fun whenFalse falseTokens rest split result => ?_)
  obtain ⟨⟨falseHeight, falseEnding, second, _⟩, stops⟩ := result
  have inside := inside.shift split
  have within := inside.fits
  simp only [List.length_append, List.length_cons, List.length_nil] at within
  refine grow_yields (by omega) ⟨?_, .branch, ?_, stops⟩
  · simp only [List.length_append, List.length_cons, List.length_nil]
    omega
  · have whole := Derives.conditional ifKind condition thenKind first elseKind second
    simpa using whole

end Conditions

/-! ## Factors -/

section Factors

variable {limit budget depth : Nat} {before input : List Token}

/-- The tokens after the first one of a factor leave room in the next level. -/
theorem Room.below
    {token : Token}
    (room : Room limit (budget + 1) before (token :: input)) :
    Room limit budget [token] input := by
  obtain ⟨fits, enters⟩ := room
  simp only [List.length_cons] at fits enters
  exact ⟨by simp only [List.length_cons, List.length_nil]; omega, by omega⟩

variable {level : Level} (levels : level.Sound limit budget depth)
include levels

/-- The tokens taken for a sign and its operand are derived as a factor. -/
theorem signed_yields
    {token : Token}
    {operator : Sign}
    (room : Room limit (budget + 1) before (token :: input))
    (kind : token.kind = .operator)
    (named : Sign.ofSymbol? token.text = some operator) :
    Yields (Grammar.signed limit level operator) (token :: input) fun built taken rest =>
      built.Formed (depth + 1) .factor taken rest := by
  have inside := room.below
  refine Reader.ensures_skip_bind (Reader.ensures_bind
    ((levels.factor inside.start).imp fun operand taken rest split formed => ?_))
  obtain ⟨height, ending, derived, halts⟩ := formed
  have within := (inside.shift split).fits
  simp only [List.length_append, List.length_cons, List.length_nil] at within
  refine grow_yields (by omega) ⟨?_, ending, ?_, halts⟩
  · simp only [List.append_nil, List.length_cons]
    omega
  · rw [List.append_nil]
    exact .signed kind named derived

theorem grouped_yields
    {token : Token}
    (room : Room limit (budget + 1) before (token :: input))
    (kind : token.kind = .leftParenthesis) :
    Yields (grouped limit level) (token :: input) fun built taken rest =>
      built.Formed depth .primary taken rest := by
  have inside := room.below
  refine Reader.ensures_skip_bind (Reader.ensures_bind
    ((expression_yields levels inside).imp fun inner taken rest split result => ?_))
  obtain ⟨⟨height, ending, derived, _⟩, _⟩ := result
  refine Reader.ensures_bind (expect_yields.imp fun _ _ rest further result => ?_)
  obtain ⟨closing, rfl, closingKind, _⟩ := result
  have later := (inside.shift split).shift further
  refine (postfixed_yields levels later ⟨?_, .closed, .group kind derived closingKind,
    trivial⟩).imp fun built more rest _ formed => ?_
  · simp only [List.length_append, List.length_cons, List.length_nil]
    omega
  · simpa using formed

/-- The tokens taken for a factor are derived as the factor. -/
theorem factorBody_yields (room : Room limit (budget + 1) before input) :
    Yields (factorBody limit level) input fun built taken rest =>
      built.Formed (depth + 1) .factor taken rest := by
  have primary {built : Built} {taken rest : List Token}
      (formed : built.Formed depth .primary taken rest) :
      built.Formed (depth + 1) .factor taken rest := by
    obtain ⟨height, ending, derived, halts⟩ := formed
    exact ⟨height, ending, .ofPrimary derived, halts⟩
  refine Reader.ensures_peek_bind ?_
  cases input with
  | nil => exact unexpected_yields _ _
  | cons token others =>
      dsimp only [List.head?_cons]
      split
      · next kind =>
          split
          · exact unexpected_yields _ _
          · next operator named => exact signed_yields levels room kind named
      · next kind =>
          exact (grouped_yields levels room kind).imp fun _ _ _ _ formed => primary formed
      · next kind =>
          split
          · exact unexpected_yields _ _
          · next value denoted =>
              exact Reader.ensures_skip_bind
                (Reader.ensures_pure ⟨Nat.le_refl _, .closed, .number kind denoted, trivial⟩)
      · next kind =>
          exact Reader.ensures_skip_bind
            (Reader.ensures_pure ⟨Nat.le_refl _, .closed, .string kind, trivial⟩)
      · exact conditional_yields levels room
      · next kind =>
          refine Reader.ensures_skip_bind ((postfixed_yields levels room.below
            ⟨Nat.le_refl _, .closed, .name kind, trivial⟩).imp fun _ _ _ _ formed => ?_)
          exact primary formed
      · exact unexpected_yields _ _

end Factors

/-- Every level is sound. Its derivations nest twice as deep as there are levels,
because a factor that was first taken for a condition is one level further out. -/
theorem level_sound
    {limit : Nat}
    (budget : Nat) :
    (level limit budget).Sound limit budget (2 * budget) := by
  induction budget with
  | zero =>
      exact ⟨fun room => absurd room.enters (by omega), fun room => absurd room.enters (by omega)⟩
  | succ budget levels =>
      refine ⟨fun room => ?_, fun room enters => ?_⟩
      · exact (factorBody_yields levels room).imp fun _ _ _ _ formed => formed.mono (by omega)
      · exact operandBody_yields levels ⟨room.fits, by omega⟩

/-- A whole expression is derived from all its tokens. -/
theorem wholeExpression_yields
    {limit : Nat}
    {tokens : List Token}
    (enough : 2 * tokens.length + 1 ≤ limit) :
    Yields (wholeExpression limit) tokens fun built _ _ =>
      Denotes .greedy tokens built.expression := by
  have room : Room limit limit [] tokens :=
    ⟨by rw [List.length_nil]; omega, enough⟩
  refine Reader.ensures_bind ((expression_yields (level_sound limit) room).imp
    fun built taken rest split result => ?_)
  obtain ⟨⟨_, ending, derived, _⟩, _⟩ := result
  refine Reader.ensures_peek_bind ?_
  cases rest with
  | cons token others => exact unexpected_yields _ _
  | nil =>
      rw [List.append_nil] at split
      subst split
      exact Reader.ensures_pure ⟨_, ending, derived⟩

end Grammar
end Expr
end ModelEquation
