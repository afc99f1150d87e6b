import Mathlib.Data.List.Induction
import Mathlib.Data.List.Nodup
import ModelEquation.Expr.Traversal

/-!
# Names on a walk

The names of an expression are collected on a way down of their own, which passes over
what is called by a bare name. A walk alone tells the same names. It enters a call
through its callee, so that a node is called where the node before it is a call; the
names are then those of the variables that the walk meets, without the bare ones that
are called, each at its first appearance.
-/

namespace ModelEquation
namespace Expr

/-- Whether a node is a call. -/
def isCall : Expr → Bool
  | .call _ _ => true
  | _ => false

/-- Whether a node is nothing but a name. -/
def isBareName : Expr → Bool
  | .variable reference => reference.isBare
  | _ => false

/-- The name of a variable. Other nodes have none. -/
def name? : Expr → Option String
  | .variable reference => some reference.name
  | _ => none

/-- The name of the value that a node refers to. A bare name that is called refers to a
function. -/
def valueName? (called : Bool) (node : Expr) : Option String :=
  if called && node.isBareName then none else node.name?

/-- The names of values along a stretch of a walk. The flag tells whether its first node is
called; each later one is called if the node before it is a call. -/
def valueNames (called : Bool) : List Expr → List String
  | [] => []
  | node :: others => (node.valueName? called).toList ++ valueNames node.isCall others

/-! ## A walk goes through each node as a whole -/

/-- Every walk starts with its own node. -/
theorem exists_walk_eq_cons (expression : Expr) :
    ∃ inside, expression.walk = expression :: inside := by
  cases expression <;> exact ⟨_, rfl⟩

/-- A bare name has nothing inside. -/
theorem walk_of_isBareName
    {expression : Expr}
    (bare : expression.isBareName = true) :
    expression.walk = [expression] := by
  unfold isBareName at bare
  split at bare
  · next reference =>
      rw [(Variable.isBare_iff reference).mp bare]
      rfl
  · contradiction

/-- Wherever a node stands on the stretch, its whole walk starts there. -/
def Unbroken (nodes : List Expr) : Prop :=
  ∀ node others, (node :: others) <:+ nodes → node.walk <+: node :: others

theorem unbroken_nil : Unbroken [] :=
  fun _ _ suffix => absurd (List.suffix_nil.mp suffix) (List.cons_ne_nil _ _)

/-- Walks of whole nodes stay whole when another stretch follows. -/
theorem Unbroken.append
    {front back : List Expr}
    (first : Unbroken front)
    (second : Unbroken back) :
    Unbroken (front ++ back) := by
  rintro node others ⟨before, split⟩
  obtain ⟨onward, rfl, rest⟩ | ⟨onward, rfl, rest⟩ := List.append_eq_append_iff.mp split
  · cases onward with
    | nil => exact second node others ⟨[], rest⟩
    | cons head later =>
        cases rest
        exact (first node later ⟨before, rfl⟩).trans ⟨back, rfl⟩
  · exact second node others ⟨onward, rest.symm⟩

/-- A node whose inside is walked through node by node is itself walked through as a whole. -/
theorem unbroken_walk_of_inside
    {expression : Expr}
    {inside : List Expr}
    (entered : expression.walk = expression :: inside)
    (unbroken : Unbroken inside) :
    Unbroken expression.walk := by
  intro node others suffix
  rw [entered, List.suffix_cons_iff] at suffix
  obtain same | later := suffix
  · cases same
    exact entered ▸ List.prefix_rfl
  · exact unbroken node others later

end Expr

mutual

/-- The walk through an expression goes through each of its nodes as a whole. -/
theorem Expr.unbroken_walk : ∀ expression : Expr, Expr.Unbroken expression.walk
  | .number _ | .string _ => Expr.unbroken_walk_of_inside rfl Expr.unbroken_nil
  | .variable reference => Expr.unbroken_walk_of_inside rfl reference.unbroken_walkInside
  | .unary _ operand => Expr.unbroken_walk_of_inside rfl operand.unbroken_walk
  | .binary _ left right | .compare _ left right | .logical _ left right =>
      Expr.unbroken_walk_of_inside rfl (left.unbroken_walk.append right.unbroken_walk)
  | .call callee arguments =>
      Expr.unbroken_walk_of_inside rfl
        (callee.unbroken_walk.append (Expr.unbroken_walkList arguments))
  | .index target indices members =>
      Expr.unbroken_walk_of_inside rfl
        ((target.unbroken_walk.append (Expr.unbroken_walkList indices)).append
          (Variable.unbroken_walkMembers members))
  | .conditional condition whenTrue whenFalse =>
      Expr.unbroken_walk_of_inside rfl
        ((condition.unbroken_walk.append whenTrue.unbroken_walk).append whenFalse.unbroken_walk)

theorem Variable.unbroken_walkInside :
    ∀ reference : Variable, Expr.Unbroken reference.walkInside
  | ⟨_, indices, arguments, members⟩ =>
      ((Expr.unbroken_walkGroup indices).append (Expr.unbroken_walkGroup arguments)).append
        (Variable.unbroken_walkMembers members)

theorem Expr.unbroken_walkGroup :
    ∀ group : Option (List Expr), Expr.Unbroken (Expr.walkGroup group)
  | none => Expr.unbroken_nil
  | some items => Expr.unbroken_walkList items

theorem Expr.unbroken_walkList : ∀ items : List Expr, Expr.Unbroken (Expr.walkList items)
  | [] => Expr.unbroken_nil
  | item :: rest => item.unbroken_walk.append (Expr.unbroken_walkList rest)

theorem Variable.unbroken_walkMembers :
    ∀ members : List Variable, Expr.Unbroken (Variable.walkMembers members)
  | [] => Expr.unbroken_nil
  | member :: rest => member.unbroken_walkInside.append (Variable.unbroken_walkMembers rest)

end

namespace Expr

/-- The node behind a call is its callee, and the callee is walked through there. -/
theorem walk_callee_prefix
    {expression callee : Expr}
    {arguments others : List Expr}
    (suffix : (.call callee arguments :: others) <:+ expression.walk) :
    callee.walk <+: others := by
  have whole := expression.unbroken_walk _ _ suffix
  rw [walk, List.cons_prefix_cons] at whole
  exact (List.prefix_append _ _).trans whole.2

/-! ## Names as they are collected -/

/-- The names collected along a stretch of a walk, after those met before it. -/
def collectAlong (called : Bool) (names : List String) (nodes : List Expr) : List String :=
  (valueNames called nodes).foldl addName names

@[simp] theorem collectAlong_nil (called : Bool) (names : List String) :
    collectAlong called names [] = names := rfl

/-- The first node gives its name, if it has one that counts, and decides whether the next one
is called. -/
theorem collectAlong_cons
    (called : Bool)
    (names : List String)
    (node : Expr)
    (others : List Expr) :
    collectAlong called names (node :: others) =
      collectAlong node.isCall ((node.valueName? called).toList.foldl addName names) others := by
  rw [collectAlong, valueNames, List.foldl_append]
  rfl

/-- Nodes other than variables and calls only let the way go on. -/
theorem collectAlong_passing
    {node : Expr}
    (nameless : node.name? = none)
    (noCall : node.isCall = false)
    (names : List String)
    (others : List Expr) :
    collectAlong false names (node :: others) = collectAlong false names others := by
  simp [collectAlong_cons, valueName?, nameless, noCall]

/-- Of a callee the names are collected unless it is bare. -/
theorem collectNames_call
    (names : List String)
    (callee : Expr)
    (arguments : List Expr) :
    (Expr.call callee arguments).collectNames names =
      collectListNames (if callee.isBareName then names else callee.collectNames names)
        arguments := by
  cases callee <;> rfl

/-- Being called makes a difference to a bare name alone. -/
theorem collectAlong_callee
    {callee : Expr}
    {names : List String}
    (others : List Expr)
    (whole : collectAlong false names (callee.walk ++ others) =
      collectAlong false (callee.collectNames names) others) :
    collectAlong true names (callee.walk ++ others) =
      collectAlong false (if callee.isBareName then names else callee.collectNames names)
        others := by
  cases bare : callee.isBareName with
  | true =>
      have noCall : callee.isCall = false := by
        cases callee <;> first | rfl | contradiction
      simp [walk_of_isBareName bare, collectAlong_cons, valueName?, bare, noCall]
  | false =>
      obtain ⟨inside, entered⟩ := callee.exists_walk_eq_cons
      rw [entered, List.cons_append, collectAlong_cons] at whole ⊢
      simpa [valueName?, bare] using whole

end Expr

mutual

/-- What is collected from an expression is what its walk tells, whatever was collected
before and wherever the walk goes on. -/
theorem Expr.collectAlong_walk :
    ∀ (expression : Expr) (names : List String) (others : List Expr),
      Expr.collectAlong false names (expression.walk ++ others) =
        Expr.collectAlong false (expression.collectNames names) others
  | .number _, _, _ | .string _, _, _ => Expr.collectAlong_passing rfl rfl _ _
  | .variable ⟨name, indices, arguments, members⟩, names, others => by
      rw [Expr.walk, List.cons_append, Expr.collectAlong_cons]
      exact Variable.collectAlong_walkInside ⟨name, indices, arguments, members⟩ _ others
  | .unary _ operand, names, others => by
      rw [Expr.walk, List.cons_append, Expr.collectAlong_passing rfl rfl,
        operand.collectAlong_walk, Expr.collectNames]
  | .binary _ left right, names, others
  | .compare _ left right, names, others
  | .logical _ left right, names, others => by
      rw [Expr.walk, List.cons_append, Expr.collectAlong_passing rfl rfl, List.append_assoc,
        left.collectAlong_walk, right.collectAlong_walk, Expr.collectNames]
  | .call callee arguments, names, others => by
      rw [Expr.walk, List.cons_append, Expr.collectAlong_cons, List.append_assoc]
      refine (Expr.collectAlong_callee _ (callee.collectAlong_walk names _)).trans ?_
      rw [Expr.collectAlong_walkList arguments, Expr.collectNames_call]
  | .index target indices members, names, others => by
      rw [Expr.walk, List.cons_append, Expr.collectAlong_passing rfl rfl, List.append_assoc,
        List.append_assoc, target.collectAlong_walk, Expr.collectAlong_walkList indices,
        Variable.collectAlong_walkMembers members, Expr.collectNames]
  | .conditional condition whenTrue whenFalse, names, others => by
      rw [Expr.walk, List.cons_append, Expr.collectAlong_passing rfl rfl, List.append_assoc,
        List.append_assoc, condition.collectAlong_walk, whenTrue.collectAlong_walk,
        whenFalse.collectAlong_walk, Expr.collectNames]

/-- The inside of a variable tells what is collected from its groups and members. -/
theorem Variable.collectAlong_walkInside :
    ∀ (reference : Variable) (names : List String) (others : List Expr),
      Expr.collectAlong false names (reference.walkInside ++ others) =
        Expr.collectAlong false (reference.collectInnerNames names) others
  | ⟨_, indices, arguments, members⟩, names, others => by
      rw [Variable.walkInside, List.append_assoc, List.append_assoc,
        Expr.collectAlong_walkGroup indices, Expr.collectAlong_walkGroup arguments,
        Variable.collectAlong_walkMembers members, Variable.collectInnerNames]

theorem Expr.collectAlong_walkGroup :
    ∀ (group : Option (List Expr)) (names : List String) (others : List Expr),
      Expr.collectAlong false names (Expr.walkGroup group ++ others) =
        Expr.collectAlong false (Expr.collectGroupNames names group) others
  | none, _, _ => rfl
  | some items, names, others => Expr.collectAlong_walkList items names others

theorem Expr.collectAlong_walkList :
    ∀ (items : List Expr) (names : List String) (others : List Expr),
      Expr.collectAlong false names (Expr.walkList items ++ others) =
        Expr.collectAlong false (Expr.collectListNames names items) others
  | [], _, _ => rfl
  | item :: rest, names, others => by
      rw [Expr.walkList, List.append_assoc, item.collectAlong_walk,
        Expr.collectAlong_walkList rest, Expr.collectListNames]

theorem Variable.collectAlong_walkMembers :
    ∀ (members : List Variable) (names : List String) (others : List Expr),
      Expr.collectAlong false names (Variable.walkMembers members ++ others) =
        Expr.collectAlong false (Variable.collectMemberNames names members) others
  | [], _, _ => rfl
  | member :: rest, names, others => by
      rw [Variable.walkMembers, List.append_assoc, member.collectAlong_walkInside,
        Variable.collectAlong_walkMembers rest, Variable.collectMemberNames]

end

namespace Expr

/-! ## First appearances -/

/-- A name is added where it appears first. -/
theorem addName_eraseDups (names : List String) (name : String) :
    addName names.eraseDups name = (names ++ [name]).eraseDups := by
  rw [List.eraseDups_append, addName, List.removeAll, List.filter_singleton]
  by_cases known : name ∈ names <;> simp [known, List.eraseDups_cons]

/-- Adding names one after the other leaves each where it appears first. -/
theorem foldl_addName (names : List String) : names.foldl addName [] = names.eraseDups := by
  induction names using List.reverseRecOn with
  | nil => rfl
  | append_singleton front name hypothesis =>
      rw [List.foldl_append, hypothesis]
      exact addName_eraseDups front name

/-- Adding a name to distinct ones keeps them distinct. -/
theorem nodup_addName
    {names : List String}
    (distinct : names.Nodup)
    (name : String) :
    (addName names name).Nodup := by
  unfold addName
  split
  · exact distinct
  · next absent => exact List.concat_eq_append ▸ distinct.concat (by simpa using absent)

theorem nodup_foldl_addName
    {names : List String}
    (distinct : names.Nodup)
    (added : List String) :
    (added.foldl addName names).Nodup := by
  induction added generalizing names with
  | nil => exact distinct
  | cons name others hypothesis => exact hypothesis (nodup_addName distinct name)

/-! ## Names on a stretch of a walk -/

/-- The name of a value is that of a variable that is not bare or not called. -/
theorem valueName?_eq_some_iff
    {called : Bool}
    {node : Expr}
    {name : String} :
    node.valueName? called = some name ↔
      ∃ reference, node = .variable reference ∧ reference.name = name ∧
        (reference.isBare = true → called = false) := by
  cases node <;> simp [valueName?, name?, isBareName, and_comm]

/-- Whether the place behind a stretch is called depends on its last node, and on the flag only
if there is none. -/
theorem getLast?_cons_elim_isCall (called : Bool) (node : Expr) (before : List Expr) :
    (node :: before).getLast?.elim called isCall = before.getLast?.elim node.isCall isCall := by
  rw [List.getLast?_cons]
  cases before.getLast? <;> rfl

/-- The names of values on a stretch of a walk are those of its variables that are not bare
or not called. -/
theorem mem_valueNames_iff
    {called : Bool}
    {nodes : List Expr}
    {name : String} :
    name ∈ valueNames called nodes ↔
      ∃ before reference others,
        nodes = before ++ .variable reference :: others ∧ reference.name = name ∧
          (reference.isBare = true → before.getLast?.elim called isCall = false) := by
  induction nodes generalizing called with
  | nil => simp [valueNames]
  | cons node later hypothesis =>
      rw [valueNames, List.mem_append, Option.mem_toList, valueName?_eq_some_iff,
        hypothesis]
      constructor
      · rintro (⟨reference, rfl, named, uncalled⟩ |
          ⟨before, reference, others, rfl, named, uncalled⟩)
        · exact ⟨[], reference, later, rfl, named, uncalled⟩
        · refine ⟨node :: before, reference, others, rfl, named, fun bare => ?_⟩
          rw [getLast?_cons_elim_isCall, uncalled bare]
      · rintro ⟨before, reference, others, split, named, uncalled⟩
        cases before with
        | nil =>
            cases split
            exact .inl ⟨reference, rfl, named, uncalled⟩
        | cons first before =>
            cases split
            refine .inr ⟨before, reference, others, rfl, named, fun bare => ?_⟩
            rw [← getLast?_cons_elim_isCall called, uncalled bare]

/-- A node of a walk is called where it is the callee of the call right before it. -/
theorem uncalled_iff
    {expression node : Expr}
    {before others : List Expr}
    (walked : expression.walk = before ++ node :: others) :
    before.getLast?.elim false isCall = false ↔
      ∀ front arguments, before ≠ front ++ [.call node arguments] := by
  constructor
  · rintro uncalled front arguments rfl
    simp [isCall] at uncalled
  · intro uncalled
    obtain rfl | ⟨front, last, rfl⟩ := List.eq_nil_or_concat' before
    · rfl
    · rw [List.getLast?_concat, Option.elim_some]
      by_contra called
      unfold isCall at called
      split at called
      · next callee arguments =>
          obtain ⟨inside, entered⟩ := callee.exists_walk_eq_cons
          have ahead : callee.walk <+: node :: others :=
            walk_callee_prefix ⟨front, by rw [walked, List.append_assoc]; rfl⟩
          rw [entered, List.cons_prefix_cons] at ahead
          exact uncalled front arguments (by rw [ahead.1])
      · exact called rfl

/-- The names of an expression are those of the variables that a walk meets, in the order in
which it meets them and each where it appears first, without the bare ones that are called.
They are distinct, and a name is among them as soon as one variable of that name carries a
group or members or stands elsewhere than behind a call that it is the callee of. -/
theorem variableNames_walk (expression : Expr) :
    expression.variableNames = (valueNames false expression.walk).eraseDups ∧
      expression.variableNames.Nodup ∧
      (∀ name, name ∈ expression.variableNames ↔
        ∃ before reference others,
          expression.walk = before ++ .variable reference :: others ∧ reference.name = name ∧
            (reference.isBare = true →
              ∀ front arguments, before ≠ front ++ [.call (.variable reference) arguments])) ∧
      ∀ callee arguments others,
        (.call callee arguments :: others) <:+ expression.walk → callee.walk <+: others := by
  have along : expression.variableNames = (valueNames false expression.walk).foldl addName [] := by
    have whole := expression.collectAlong_walk [] []
    rw [List.append_nil, collectAlong_nil] at whole
    exact whole.symm
  refine ⟨along.trans (foldl_addName _), ?_, fun name => ?_, fun _ _ _ => walk_callee_prefix⟩
  · rw [along]
    exact nodup_foldl_addName List.nodup_nil _
  · rw [along, foldl_addName, List.mem_eraseDups, mem_valueNames_iff]
    refine exists_congr fun before => exists_congr fun reference => exists_congr fun others => ?_
    refine and_congr_right fun walked => and_congr_right fun _ => imp_congr_right fun _ => ?_
    exact uncalled_iff walked

/-- The names of `f(f, g(x[y].m[x]))`. The first `f` is called and bare, the second one is an
argument and counts. The member `m` is no node, so only what is in its brackets is met. -/
theorem variableNames_walk_of_call :
    let reference : Variable := ⟨"x", some [.named "y"], none, [⟨"m", none, some [.named "x"], []⟩]⟩
    let tree : Expr := .call (.named "f") [.named "f", .call (.named "g") [.variable reference]]
    tree.variableNames = ["f", "x", "y"] ∧ "f" ∈ tree.variableNames ∧
      (Expr.named "f").walk <+: tree.walk.tail := by
  intro reference tree
  obtain ⟨names, _, mem_iff, callees⟩ := variableNames_walk tree
  refine ⟨names.trans (by decide), (mem_iff "f").mpr ?_, callees _ _ _ (List.suffix_refl _)⟩
  refine ⟨[tree, .named "f"], .named "f", tree.walk.drop 3, rfl, rfl, ?_⟩
  intro _ front arguments same
  have last := congrArg List.getLast? same
  rw [List.getLast?_concat] at last
  exact Expr.noConfusion (Option.some.inj last)

end Expr
end ModelEquation
