import ModelEquation.Expr.Traversal
import ModelEquation.Proofs.Grammar.Language

/-!
# The yield of expressions

What an expression is made of, in the order in which it is written: its numbers, texts,
names and operators. Marks and the words of a conditional only say how these belong
together, so the yield of what tokens form is what the other tokens stand for, token by
token.
-/

namespace ModelEquation

/-- What a token contributes to an expression. Arithmetic operators and signs share
their symbols, and only their place tells them apart. -/
inductive Item
  | number (value : Number)
  | string (text : String)
  | name (text : String)
  | operator (symbol : String)
  | comparison (operator : Comparison)
  | connective (operator : Connective)
  deriving DecidableEq

namespace Item

/-- The kind of the tokens that contribute the item. -/
def kind : Item → Token.Kind
  | .number _ => .number
  | .string _ => .stringLiteral
  | .name _ => .identifier
  | .operator _ => .operator
  | .comparison _ => .comparison
  | .connective .and => .andWord
  | .connective .or => .orWord

/-- The number that an item is, if it is one. -/
def number? : Item → Option Number
  | .number value => some value
  | _ => none

/-- The string that an item is, if it is one. -/
def string? : Item → Option String
  | .string text => some text
  | _ => none

end Item

namespace Token

/-- Whether the tokens of a kind contribute to an expression. The others are marks and
the words of a conditional. -/
def Kind.isContent : Kind → Bool
  | .number | .stringLiteral | .identifier | .operator | .comparison | .andWord | .orWord => true
  | _ => false

/-- What the token contributes to an expression. -/
def item? (token : Token) : Option Item :=
  match token.kind with
  | .number => (Number.ofText? token.text.toList).map .number
  | .stringLiteral => some (.string token.text)
  | .identifier => some (.name token.text)
  | .operator => some (.operator token.text)
  | .comparison => (Comparison.ofSymbol? token.text).map .comparison
  | .andWord => some (.connective .and)
  | .orWord => some (.connective .or)
  | _ => none

/-- An item is of the kind of its token. -/
theorem kind_of_item?
    {token : Token}
    {item : Item}
    (contributed : token.item? = some item) :
    item.kind = token.kind := by
  unfold item? at contributed
  split at contributed
  · next kind =>
      obtain ⟨value, _, rfl⟩ := Option.map_eq_some_iff.mp contributed
      exact kind.symm
  · next kind => cases contributed; exact kind.symm
  · next kind => cases contributed; exact kind.symm
  · next kind => cases contributed; exact kind.symm
  · next kind =>
      obtain ⟨operator, _, rfl⟩ := Option.map_eq_some_iff.mp contributed
      exact kind.symm
  · next kind => cases contributed; exact kind.symm
  · next kind => cases contributed; exact kind.symm
  · contradiction

/-- What the tokens that contribute to an expression contribute, one after the other. -/
def contents (tokens : List Token) : List (Option Item) :=
  (tokens.filter fun token => token.kind.isContent).map item?

@[simp] theorem contents_nil : contents [] = [] := rfl

@[simp] theorem contents_append (front back : List Token) :
    contents (front ++ back) = contents front ++ contents back := by
  simp [contents]

/-- A mark of punctuation contributes nothing. -/
theorem contents_cons_of_mark
    {token : Token}
    {kind : Kind}
    (known : token.kind = kind)
    (mark : kind.isContent = false)
    (others : List Token) :
    contents (token :: others) = contents others := by
  simp [contents, known, mark]

/-- A token that contributes an item contributes it in its place. -/
theorem contents_cons_of_item?
    {token : Token}
    {item : Item}
    (contributed : token.item? = some item)
    (others : List Token) :
    contents (token :: others) = some item :: contents others := by
  have content : token.kind.isContent = true := by
    rw [← kind_of_item? contributed]
    cases item with
    | connective operator => cases operator <;> rfl
    | _ => rfl
  simp [contents, content, contributed]

end Token

/-! ## Yields -/

mutual

/-- The items of an expression in the order in which they are written. -/
def Expr.yield : Expr → List Item
  | .number value => [.number value]
  | .string value => [.string value]
  | .variable reference => reference.yield
  | .unary operator operand => .operator operator.symbol :: operand.yield
  | .binary operator left right => left.yield ++ .operator operator.symbol :: right.yield
  | .compare operator left right => left.yield ++ .comparison operator :: right.yield
  | .logical operator left right => left.yield ++ .connective operator :: right.yield
  | .call callee arguments => callee.yield ++ Expr.yieldList arguments
  | .index target indices members =>
      target.yield ++ Expr.yieldList indices ++ Variable.yieldMembers members
  | .conditional condition whenTrue whenFalse =>
      condition.yield ++ whenTrue.yield ++ whenFalse.yield

/-- The name of a variable, and the items of its groups and its members. -/
def Variable.yield : Variable → List Item
  | ⟨name, indices, arguments, members⟩ =>
      .name name ::
        (Expr.yieldGroup indices ++ Expr.yieldGroup arguments ++ Variable.yieldMembers members)

/-- The items of an optional group. -/
def Expr.yieldGroup : Option (List Expr) → List Item
  | none => []
  | some items => Expr.yieldList items

/-- The items of a list of expressions. -/
def Expr.yieldList : List Expr → List Item
  | [] => []
  | item :: rest => item.yield ++ Expr.yieldList rest

/-- The items of the members of a chain. -/
def Variable.yieldMembers : List Variable → List Item
  | [] => []
  | member :: rest => member.yield ++ Variable.yieldMembers rest

end

@[simp] theorem Expr.yieldList_append (front back : List Expr) :
    Expr.yieldList (front ++ back) = Expr.yieldList front ++ Expr.yieldList back := by
  induction front with
  | nil => rfl
  | cons item rest hypothesis => simp [Expr.yieldList, hypothesis]

@[simp] theorem Variable.yieldMembers_append (front back : List Variable) :
    Variable.yieldMembers (front ++ back) =
      Variable.yieldMembers front ++ Variable.yieldMembers back := by
  induction front with
  | nil => rfl
  | cons member rest hypothesis => simp [Variable.yieldMembers, hypothesis]

@[simp] theorem Variable.yield_named (name : String) : (Variable.named name).yield = [.name name] :=
  rfl

@[simp] theorem Expr.yield_named (name : String) : (Expr.named name).yield = [.name name] := rfl

/-- Whoever takes an index group, the group and the members stand behind the target. -/
@[simp] theorem Expr.yield_indexed
    (target : Expr)
    (indices : List Expr)
    (members : List Variable) :
    (target.indexed indices members).yield =
      target.yield ++ Expr.yieldList indices ++ Variable.yieldMembers members := by
  unfold Expr.indexed
  split
  · next reference =>
      split
      · next bare =>
          rw [(Variable.isBare_iff reference).mp bare]
          simp [Expr.yield, Variable.yield, Expr.yieldGroup, Variable.named,
            Variable.yieldMembers]
      · rfl
  · rfl

/-! ## Literals on a walk -/

/-- The items of a kind are what is selected as being of that kind. -/
theorem Item.filter_kind
    {α : Type}
    {kind : Token.Kind}
    {select : Item → Option α}
    {rebuild : α → Item}
    (selects : ∀ item : Item,
      (select item).map rebuild = Option.guard (fun item => item.kind = kind) item)
    (items : List Item) :
    (items.filter fun item => item.kind = kind) = (items.filterMap select).map rebuild := by
  rw [List.map_filterMap, ← List.filterMap_eq_filter, funext selects]

/-- The items of string literals are those that hold a string. -/
theorem Item.filter_string (items : List Item) :
    (items.filter fun item => item.kind = .stringLiteral) =
      (items.filterMap Item.string?).map .string := by
  apply filter_kind
  rintro (_ | _ | _ | _ | _ | (_ | _)) <;> rfl

/-- The items of numerals are those that hold a number. -/
theorem Item.filter_number (items : List Item) :
    (items.filter fun item => item.kind = .number) =
      (items.filterMap Item.number?).map .number := by
  apply filter_kind
  rintro (_ | _ | _ | _ | _ | (_ | _)) <;> rfl

/-- The item that a node without parts is. -/
def Expr.literal? : Expr → Option Item
  | .number value => some (.number value)
  | .string value => some (.string value)
  | _ => none

/-- Whether an item is a number or a string. -/
def Item.isLiteral : Item → Bool
  | .number _ => true
  | .string _ => true
  | _ => false

mutual

/-- A walk meets the literals in the order in which they are written. -/
theorem Expr.literals_walk :
    ∀ expression : Expr,
      expression.walk.filterMap Expr.literal? = expression.yield.filter Item.isLiteral
  | .number _ => rfl
  | .string _ => rfl
  | .variable reference => by
      simp [Expr.walk, Expr.yield, Expr.literal?, List.filterMap_cons,
        reference.literals_walkInside]
  | .unary _ operand => by
      simp [Expr.walk, Expr.yield, Expr.literal?, List.filterMap_cons, Item.isLiteral,
        operand.literals_walk]
  | .binary _ left right | .compare _ left right | .logical _ left right => by
      simp [Expr.walk, Expr.yield, Expr.literal?, List.filterMap_cons, Item.isLiteral,
        left.literals_walk, right.literals_walk]
  | .call callee arguments => by
      simp [Expr.walk, Expr.yield, Expr.literal?, List.filterMap_cons, callee.literals_walk,
        Expr.literals_walkList arguments]
  | .index target indices members => by
      simp [Expr.walk, Expr.yield, Expr.literal?, List.filterMap_cons, target.literals_walk,
        Expr.literals_walkList indices, Variable.literals_walkMembers members]
  | .conditional condition whenTrue whenFalse => by
      simp [Expr.walk, Expr.yield, Expr.literal?, List.filterMap_cons, condition.literals_walk,
        whenTrue.literals_walk, whenFalse.literals_walk]

/-- The literals inside a variable are met in the order in which they are written. -/
theorem Variable.literals_walkInside :
    ∀ reference : Variable,
      reference.walkInside.filterMap Expr.literal? = reference.yield.filter Item.isLiteral
  | ⟨_, indices, arguments, members⟩ => by
      simp [Variable.walkInside, Variable.yield, Item.isLiteral, Expr.literals_walkGroup indices,
        Expr.literals_walkGroup arguments, Variable.literals_walkMembers members]

theorem Expr.literals_walkGroup :
    ∀ group : Option (List Expr),
      (Expr.walkGroup group).filterMap Expr.literal? =
        (Expr.yieldGroup group).filter Item.isLiteral
  | none => rfl
  | some items => Expr.literals_walkList items

theorem Expr.literals_walkList :
    ∀ items : List Expr,
      (Expr.walkList items).filterMap Expr.literal? =
        (Expr.yieldList items).filter Item.isLiteral
  | [] => rfl
  | item :: rest => by
      simp [Expr.walkList, Expr.yieldList, item.literals_walk, Expr.literals_walkList rest]

theorem Variable.literals_walkMembers :
    ∀ members : List Variable,
      (Variable.walkMembers members).filterMap Expr.literal? =
        (Variable.yieldMembers members).filter Item.isLiteral
  | [] => rfl
  | member :: rest => by
      simp [Variable.walkMembers, Variable.yieldMembers, member.literals_walkInside,
        Variable.literals_walkMembers rest]

end

namespace Expr

/-- What is selected among the literals of a walk is selected among the items. -/
theorem filterMap_walk
    {α : Type}
    {select : Item → Option α}
    (others : ∀ item, item.isLiteral = false → select item = none)
    (expression : Expr) :
    (expression.walk.filterMap fun node => node.literal?.bind select) =
      expression.yield.filterMap select := by
  have ignores : (fun item => if item.isLiteral = true then select item else none) = select := by
    funext item
    cases known : item.isLiteral with
    | true => rfl
    | false => exact (others item known).symm
  rw [← List.filterMap_filterMap, literals_walk, List.filterMap_filter, ignores]

/-- The string literals of an expression are those among what it is written with. -/
theorem stringLiterals_eq (expression : Expr) :
    expression.stringLiterals = expression.yield.filterMap Item.string? := by
  have others : ∀ item : Item, item.isLiteral = false → item.string? = none := by
    rintro (_ | _) <;> simp [Item.isLiteral, Item.string?]
  rw [← filterMap_walk others, stringLiterals]
  congr
  funext node
  cases node <;> rfl

/-- The numbers of an expression are those among what it is written with. -/
theorem numbers_eq (expression : Expr) :
    expression.numbers = expression.yield.filterMap Item.number? := by
  have others : ∀ item : Item, item.isLiteral = false → item.number? = none := by
    rintro (_ | _) <;> simp [Item.isLiteral, Item.number?]
  rw [← filterMap_walk others, numbers]
  congr
  funext node
  cases node <;> rfl

/-! ## What tokens form -/

namespace Grammar

open Token (contents contents_nil contents_append contents_cons_of_mark contents_cons_of_item?)

/-- The items of what the phrase stands for. -/
def Phrase.yield : Phrase → List Item
  | .expression _ tree => tree.yield
  | .term _ tree => tree.yield
  | .factor _ tree => tree.yield
  | .primary _ tree => tree.yield
  | .list trees => yieldList trees
  | .chain _ members => Variable.yieldMembers members
  | .operand tree => tree.yield
  | .condition tree => tree.yield

section Operators

variable {token : Token}

theorem item?_of_identifier
    (kind : token.kind = .identifier) :
    token.item? = some (.name token.text) := by
  simp [Token.item?, kind]

/-- A token that is read as an arithmetic operator contributes its symbol. -/
theorem item?_of_arithmetic?
    {additive : Bool}
    {operator : Arithmetic}
    (named : arithmetic? additive token = some operator) :
    token.item? = some (.operator operator.symbol) := by
  unfold arithmetic? at named
  split at named
  · next kind =>
      have known := (Option.filter_eq_some_iff.mp named).1
      rw [Arithmetic.symbol_of_ofSymbol? known]
      simp [Token.item?, kind]
  · contradiction

theorem item?_of_sign
    {operator : Sign}
    (kind : token.kind = .operator)
    (named : Sign.ofSymbol? token.text = some operator) :
    token.item? = some (.operator operator.symbol) := by
  rw [Sign.symbol_of_ofSymbol? named]
  simp [Token.item?, kind]

theorem item?_of_comparison?
    {operator : Comparison}
    (named : comparison? token = some operator) :
    token.item? = some (.comparison operator) := by
  unfold comparison? at named
  split at named
  · next kind => simp [Token.item?, kind, named]
  · contradiction

theorem item?_of_connective?
    {operator : Connective}
    (named : connective? token = some operator) :
    token.item? = some (.connective operator) := by
  unfold connective? at named
  split at named
  · next kind => cases named; simp [Token.item?, kind]
  · next kind => cases named; simp [Token.item?, kind]
  · contradiction

end Operators

/-- Each production keeps the items of its parts, in their order, and adds those of its own
tokens in their places. -/
theorem Derives.contents_eq
    {convention : Convention}
    {depth : Nat}
    {phrase : Phrase}
    {tokens : List Token}
    (derived : Derives convention depth phrase tokens) :
    contents tokens = phrase.yield.map some := by
  induction derived with
  | ofTerm _ whole | ofFactor _ whole | ofPrimary _ whole | ofOperand _ whole => exact whole
  | sum _ _ named _ first second | product _ _ named _ first second =>
      rw [contents_append, contents_cons_of_item? (item?_of_arithmetic? named), first, second]
      simp [Phrase.yield, yield]
  | number kind denoted => exact contents_cons_of_item? (by simp [Token.item?, kind, denoted]) []
  | string kind => exact contents_cons_of_item? (by simp [Token.item?, kind]) []
  | signed kind named _ operand =>
      rw [contents_cons_of_item? (item?_of_sign kind named), operand]
      rfl
  | conditional ifKind _ thenKind _ elseKind _ condition first second =>
      rw [contents_append, contents_append, contents_cons_of_mark ifKind rfl,
        contents_cons_of_mark thenKind rfl, contents_cons_of_mark elseKind rfl, condition, first,
        second]
      simp [Phrase.yield, yield]
  | name kind => exact contents_cons_of_item? (item?_of_identifier kind) []
  | group openingKind _ closingKind inner | conditionGroup openingKind _ closingKind inner =>
      rw [contents_append, contents_cons_of_mark openingKind rfl,
        contents_cons_of_mark closingKind rfl, inner, contents_nil, List.append_nil]
      rfl
  | emptyCall _ openingKind closingKind applied =>
      rw [contents_append, contents_cons_of_mark openingKind rfl,
        contents_cons_of_mark closingKind rfl, applied]
      simp [Phrase.yield, yield, yieldList]
  | call _ openingKind _ closingKind applied inner =>
      rw [contents_append, contents_append, contents_cons_of_mark openingKind rfl,
        contents_cons_of_mark closingKind rfl, applied, inner]
      simp [Phrase.yield, yield]
  | index _ _ openingKind _ closingKind _ applied inner continued =>
      rw [contents_append, contents_append, contents_cons_of_mark openingKind rfl,
        contents_cons_of_mark closingKind rfl, applied, inner, continued]
      simp [Phrase.yield]
  | single _ only => simpa [Phrase.yield, yieldList] using only
  | append _ kind _ before last =>
      rw [contents_append, contents_cons_of_mark kind rfl, before, last]
      simp [Phrase.yield, yieldList]
  | noMember => rfl
  | bareMember _ dotKind nameKind before =>
      rw [contents_append, contents_cons_of_mark dotKind rfl,
        contents_cons_of_item? (item?_of_identifier nameKind), before]
      simp [Phrase.yield, Variable.yieldMembers]
  | member _ dotKind nameKind openingKind _ closingKind before inner =>
      rw [contents_append, contents_append, contents_cons_of_mark dotKind rfl,
        contents_cons_of_item? (item?_of_identifier nameKind),
        contents_cons_of_mark openingKind rfl, contents_cons_of_mark closingKind rfl, before, inner]
      simp [Phrase.yield, Variable.yieldMembers, Variable.yield, yieldGroup]
  | comparison _ named _ first second =>
      rw [contents_append, contents_cons_of_item? (item?_of_comparison? named), first, second]
      simp [Phrase.yield, yield]
  | logical _ named _ first second =>
      rw [contents_append, contents_cons_of_item? (item?_of_connective? named), first, second]
      simp [Phrase.yield, yield]

end Grammar

variable {options : Options} {tokens : List Token} {tree : Expr}

/-- The tokens of one kind contribute the items of that kind. -/
theorem contents_of_kind
    {items : List Item}
    (carried : Token.contents tokens = items.map some)
    (kind : Token.Kind)
    (content : kind.isContent = true) :
    (tokens.filter fun token => token.kind = kind).map Token.item? =
      (items.filter fun item => item.kind = kind).map some := by
  induction tokens generalizing items with
  | nil =>
      cases items with
      | nil => rfl
      | cons item rest => simp at carried
  | cons token others hypothesis =>
      cases known : token.kind.isContent with
      | false =>
          rw [Token.contents_cons_of_mark rfl known] at carried
          have other : token.kind ≠ kind := fun same => by simp [same, content] at known
          simpa [other] using hypothesis carried
      | true =>
          have split : Token.contents (token :: others) =
              token.item? :: Token.contents others := by
            simp [Token.contents, known]
          cases items with
          | nil => simp [split] at carried
          | cons item rest =>
              rw [split, List.map_cons, List.cons.injEq] at carried
              have same := Token.kind_of_item? carried.1
              by_cases chosen : token.kind = kind
              · simp [chosen, same, carried.1, hypothesis carried.2]
              · simp [chosen, same, hypothesis carried.2]

/-- The tokens of an expression that are neither marks nor words of a conditional stand for
its items, one by one and in their order. So its strings are the lexemes of the string
literals, and the numbers that a walk meets are those of the numerals. -/
theorem yield_of_ofTokens
    (read : ofTokens options tokens = .ok tree) :
    (tokens.filter fun token => token.kind.isContent).map Token.item? = tree.yield.map some ∧
      tree.stringLiterals =
        (tokens.filter fun token => token.kind = .stringLiteral).map Token.text ∧
      tree.numbers.map some =
        (tokens.filter fun token => token.kind = .number).map fun token =>
          Number.ofText? token.text.toList := by
  obtain ⟨depth, ending, derived⟩ := denotes_of_read (ofTokensUntil_eq_ok_iff.mp read)
  have carried : Token.contents tokens = tree.yield.map some := derived.contents_eq
  refine ⟨carried, ?_, ?_⟩
  · have strings := contents_of_kind carried .stringLiteral rfl
    rw [Item.filter_string, ← stringLiterals_eq, List.map_map] at strings
    have injective : Function.Injective (some ∘ Item.string) :=
      fun _ _ same => Item.string.inj (Option.some.inj same)
    refine (List.map_inj_right fun _ _ same => injective same).mp ?_
    rw [← strings, List.map_map]
    refine List.map_congr_left fun token member => ?_
    have kind : token.kind = .stringLiteral := by simpa using (List.mem_filter.mp member).2
    simp [Token.item?, kind]
  · have numbers := contents_of_kind carried .number rfl
    rw [Item.filter_number, ← numbers_eq, List.map_map] at numbers
    have alike : Option.map Item.number ∘ some = some ∘ Item.number := rfl
    have injective : Function.Injective (Option.map Item.number) :=
      Option.map_injective fun _ _ same => Item.number.inj same
    refine (List.map_inj_right fun _ _ same => injective same).mp ?_
    rw [List.map_map, List.map_map, alike, ← numbers]
    refine List.map_congr_left fun token member => ?_
    have kind : token.kind = .number := by simpa using (List.mem_filter.mp member).2
    simp [Token.item?, kind]

/-- The tokens of `if -(x)[1].y["s"] <= f(2) or a == b then "t" else c * 3`. The name in
parentheses takes the index group as its own, and nothing changes places. -/
theorem yield_of_ofTokens_of_conditional :
    let tokens : List Token :=
      [⟨.ifWord, "if", 0⟩, ⟨.operator, "-", 3⟩, ⟨.leftParenthesis, "(", 4⟩, ⟨.identifier, "x", 5⟩,
        ⟨.rightParenthesis, ")", 6⟩, ⟨.leftBracket, "[", 7⟩, ⟨.number, "1", 8⟩,
        ⟨.rightBracket, "]", 9⟩, ⟨.dot, ".", 10⟩, ⟨.identifier, "y", 11⟩, ⟨.leftBracket, "[", 12⟩,
        ⟨.stringLiteral, "\"s\"", 13⟩, ⟨.rightBracket, "]", 16⟩, ⟨.comparison, "<=", 18⟩,
        ⟨.identifier, "f", 21⟩, ⟨.leftParenthesis, "(", 22⟩, ⟨.number, "2", 23⟩,
        ⟨.rightParenthesis, ")", 24⟩, ⟨.orWord, "or", 26⟩, ⟨.identifier, "a", 29⟩,
        ⟨.comparison, "==", 31⟩, ⟨.identifier, "b", 34⟩, ⟨.thenWord, "then", 36⟩,
        ⟨.stringLiteral, "\"t\"", 41⟩, ⟨.elseWord, "else", 45⟩, ⟨.identifier, "c", 50⟩,
        ⟨.operator, "*", 52⟩, ⟨.number, "3", 54⟩]
    ∃ tree, ofTokens { maxDepth := 7 } tokens = .ok tree ∧
      [Item.operator "-", .name "x", .number (.integer 1), .name "y", .string "\"s\"",
        .comparison .lessEqual, .name "f", .number (.integer 2), .connective .or, .name "a",
        .comparison .equal, .name "b", .string "\"t\"", .name "c", .operator "*",
        .number (.integer 3)].map some = tree.yield.map some ∧
      tree.stringLiterals = ["\"s\"", "\"t\""] := by
  intro tokens
  have read : ofTokens { maxDepth := 7 } tokens = .ok
      (.conditional
        (.logical .or
          (.compare .lessEqual
            (.unary .minus (.variable ⟨"x", some [.number (.integer 1)], none,
              [⟨"y", none, some [.string "\"s\""], []⟩]⟩))
            (.call (.named "f") [.number (.integer 2)]))
          (.compare .equal (.named "a") (.named "b")))
        (.string "\"t\"")
        (.binary .multiply (.named "c") (.number (.integer 3)))) := by
    with_unfolding_all rfl
  obtain ⟨items, strings, _⟩ := yield_of_ofTokens read
  refine ⟨_, read, Eq.trans ?_ items, strings⟩
  with_unfolding_all rfl

end Expr
end ModelEquation
