import ModelEquation.Equation.Parser
import ModelEquation.Proofs.Equation.Alignment
import ModelEquation.Proofs.Equation.Sides
import ModelEquation.Proofs.Expr.Shape
import ModelEquation.Proofs.Grammar.Places
import ModelEquation.Proofs.Token.Enclosed

/-!
# Equations put together from an expression

Any text that is read as an expression may be put behind an output and a separator, and is
read as the same expression there. The scan for separators passes over what the tokens are
read from, finds the separator behind the output and no other, and what is trimmed away
around the expression is blank or the semicolon put behind it, never a part of a token.
-/

namespace ModelEquation
namespace Expr

open Text (AllBlank byteLength)

/-- What a text between blanks denotes is denoted by the text itself. -/
theorem parse_of_parse_enclosed
    {options : Options}
    {front core back : List Char}
    {tree : Expr}
    (blankFront : AllBlank front)
    (visible : Text.EndsVisibly core)
    (blankBack : AllBlank back)
    (read : parse options (front ++ (core ++ back)) = .ok tree) :
    parse options core = .ok tree := by
  obtain ⟨tokens, tokenized, formed⟩ := exists_tokenize_of_parse read
  rw [Token.tokenize_enclosed blankFront visible blankBack] at tokenized
  cases inside : Token.tokenize core with
  | error fault =>
      rw [inside] at tokenized
      contradiction
  | ok found =>
      rw [inside] at tokenized
      cases tokenized
      have moved : ofTokensUntil options (byteLength core + byteLength front)
          (found.map (Token.shifted (byteLength front))) = .ok tree :=
        ofTokensUntil_eq_ok_iff.mpr (ofTokensUntil_eq_ok_iff.mp formed)
      rw [ofTokensUntil_shifted] at moved
      simp only [parse, inside]
      cases again : ofTokensUntil options (byteLength core) found with
      | error fault =>
          rw [again] at moved
          contradiction
      | ok built =>
          rw [again] at moved
          cases moved
          rfl

/-- No expression is denoted by the empty text. -/
theorem ne_nil_of_parse
    {options : Options}
    {text : List Char}
    {tree : Expr}
    (read : parse options text = .ok tree) :
    text ≠ [] := by
  rintro rfl
  obtain ⟨tokens, tokenized, formed⟩ := exists_tokenize_of_parse read
  rw [Token.tokenize, Token.Cursor.start, Token.Cursor.tokens_nil] at tokenized
  cases tokenized
  obtain ⟨depth, ending, derived⟩ := denotes_of_read (ofTokensUntil_eq_ok_iff.mp formed)
  obtain ⟨token, others, absurd, _⟩ := derived.starts
  contradiction

end Expr

namespace Equation

open Text (AllBlank trim)
open Token (Closing)

/-- Blanks and semicolons are passed over. -/
theorem Passes.closing
    {text : List Char}
    (closes : Closing text)
    (rest : List Char) :
    Passes text rest := by
  refine Passes.plain (fun character member => ?_) rest
  exact Token.notMem_of_excluded (closes character member) (by decide)

/-- A text in which strings are closed and nothing is a separator is passed over together with
the blank behind it. Inside a string, the double quotes in the text close it. A step that is
taken in front of the one blank is taken in front of the other. -/
theorem splitAtBare_append_blank
    {inside : Bool}
    {text : List Char}
    (unseparated : splitAtBare inside (text ++ [' ']) = none)
    (closed : inside = true ↔ text.count '"' % 2 = 1)
    (rest : List Char) :
    splitAtBare inside (text ++ ' ' :: rest) =
      (splitAtBare false rest).map (putBefore (text ++ [' '])) := by
  have step {flag next : Bool} (front : List Char) {text : List Char}
      (unseparated : splitAtBare flag (front ++ (text ++ [' '])) = none)
      (here : splitAtBare flag (front ++ (text ++ [' '])) =
        (splitAtBare next (text ++ [' '])).map (putBefore front))
      (there : splitAtBare flag (front ++ (text ++ ' ' :: rest)) =
        (splitAtBare next (text ++ ' ' :: rest)).map (putBefore front))
      (hypothesis : splitAtBare next (text ++ [' ']) = none →
        splitAtBare next (text ++ ' ' :: rest) =
          (splitAtBare false rest).map (putBefore (text ++ [' ']))) :
      splitAtBare flag (front ++ (text ++ ' ' :: rest)) =
        (splitAtBare false rest).map (putBefore (front ++ (text ++ [' ']))) := by
    rw [here, Option.map_eq_none_iff] at unseparated
    rw [there, hypothesis unseparated, map_putBefore_map]
  fun_induction splitAtBare inside text with
  | case1 inside =>
      have outside : inside = false := by simpa using closed
      subst outside
      exact Passes.single (by decide) (by decide) fun known => absurd known (by decide)
  | case2 character others hypothesis =>
      refine step [character] unseparated rfl rfl fun free => hypothesis free ?_
      by_cases quote : character = '"'
      · subst quote
        rw [List.count_cons_self] at closed
        simp only [bne_self_eq_false, Bool.false_eq_true, false_iff, true_iff] at closed ⊢
        omega
      · rw [List.count_cons_of_ne quote] at closed
        simpa [quote] using closed
  | case3 others hypothesis =>
      refine step ['"'] unseparated rfl rfl fun free => hypothesis free ?_
      rw [List.count_cons_self] at closed
      simp only [Bool.false_eq_true, false_iff, true_iff] at closed ⊢
      omega
  | case4 others hypothesis =>
      exact step ['=', '='] unseparated rfl rfl fun free => hypothesis free closed
  | case5 others hypothesis =>
      exact step ['!', '='] unseparated rfl rfl fun free => hypothesis free closed
  | case6 others hypothesis =>
      exact step ['<', '='] unseparated rfl rfl fun free => hypothesis free closed
  | case7 others hypothesis =>
      exact step ['>', '='] unseparated rfl rfl fun free => hypothesis free closed
  | case8 others alone =>
      have bare : (others ++ [' ']).head? ≠ some '=' := by
        cases others with
        | nil => decide
        | cons next later =>
            intro equals
            exact alone later (by simpa using equals)
      rw [List.cons_append, splitAtBare_separator bare] at unseparated
      contradiction
  | case9 character others noQuote _ noNot noLess noGreater noSeparator hypothesis =>
      have passes (more : List Char) : Passes [character] (others ++ ' ' :: more) := by
        refine .single noQuote noSeparator fun known equals => ?_
        cases others with
        | nil => simp at equals
        | cons next later =>
            have same : next = '=' := by simpa using equals
            subst same
            simp only [symbols, List.mem_cons, List.not_mem_nil, or_false] at known
            rcases known with rfl | rfl | rfl | rfl
            · exact noSeparator rfl
            · exact noNot later rfl rfl
            · exact noLess later rfl rfl
            · exact noGreater later rfl rfl
      refine step [character] unseparated (passes []) (passes rest) fun free => hypothesis free ?_
      rwa [List.count_cons_of_ne noQuote] at closed

/-- The separator behind an output and a blank is the one that is found. -/
theorem splitAtBare_output
    {output : List Char}
    (closed : output.count '"' % 2 = 0)
    (unseparated : bareOffset? (output ++ [' ']) = none)
    (rest : List Char) :
    splitAtBare false (output ++ [' '] ++ '=' :: ' ' :: rest) =
      some (output ++ [' '], ' ' :: rest) := by
  have before := splitAtBare_append_blank (Option.map_eq_none_iff.mp unseparated)
    (by simp [closed]) ('=' :: ' ' :: rest)
  rw [List.append_assoc, List.singleton_append, before, splitAtBare_separator (by simp)]
  simp [putBefore]

section Expression

variable {options : Options} {core : List Char} {tree : Expr}
variable (visible : Text.EndsVisibly core) (read : Expr.parse options core = .ok tree)
include read

/-- What is read as an expression does not end with a semicolon. -/
theorem getLast?_ne_of_parse : core.getLast? ≠ some ';' := by
  obtain ⟨tokens, tokenized, _⟩ := Expr.exists_tokenize_of_parse read
  obtain ⟨position, reads⟩ := Token.Cursor.reads_of_tokens_ok tokenized
  exact reads.getLast?_taken_ne (List.append_nil core).symm

include visible

/-- No separator is found in what is read as an expression or in the blanks and semicolons
around it. -/
theorem splitAtBare_expression
    {front back : List Char}
    (opens : Closing front)
    (closes : Closing back) :
    splitAtBare false (front ++ (core ++ back)) = none := by
  obtain ⟨tokens, tokenized, _⟩ := Expr.exists_tokenize_of_parse read
  obtain ⟨position, reads⟩ := Token.Cursor.reads_of_tokens_ok tokenized
  have middle : Passes core back := (reads.followed visible closes.delimited).passes rfl
  have ahead : splitAtBare false back = none := by
    have passed := Passes.closing closes []
    rw [Passes, List.append_nil] at passed
    rw [passed]
    rfl
  rw [Passes.closing opens, middle, ahead]
  rfl

end Expression

/-- An expression that is read by itself is read from every equation that is put together from
an output and it, under the same options, whatever blanks and semicolon are put behind. The
blanks around the expression go with those that the equation adds on either side. -/
theorem parse_of_parse_expression
    (options : Options)
    (output expression tail : List Char)
    (tree : Expr)
    (read : Expr.parse options expression = .ok tree)
    (nonempty : output ≠ [])
    (trimmed : trim output = output)
    (closed : output.count '"' % 2 = 0)
    (unseparated : bareOffset? (output ++ [' ']) = none)
    (terminates : IsTerminator tail) :
    parse options (output ++ [' ', '=', ' '] ++ expression ++ tail) =
      .ok ⟨String.ofList output, tree⟩ := by
  obtain ⟨front, back, whole, blankFront, blankBack⟩ := Text.exists_trim expression
  have visible := Text.trimmed_trim expression
  generalize trim expression = core at whole visible
  subst whole
  have inner := Expr.parse_of_parse_enclosed blankFront visible.last blankBack read
  have blank : AllBlank (' ' :: front) := List.forall_mem_cons.mpr ⟨rfl, blankFront⟩
  have ending : IsTerminator (back ++ tail) := terminates.blanks_append blankBack
  have found := splitAtBare_output closed unseparated (front ++ (core ++ (back ++ tail)))
  have free : splitAtBare false (' ' :: front ++ (core ++ (back ++ tail))) = none :=
    splitAtBare_expression visible.last inner (Token.closing_of_allBlank blank) ending.closing
  have outer : trim (output ++ [' ']) = output :=
    Text.trim_enclosed Text.allBlank_nil (trimmed ▸ Text.trimmed_trim output)
      (List.forall_mem_singleton.mpr rfl : AllBlank [' '])
  obtain ⟨offset, divided⟩ := split_of_parts found free (outer.symm ▸ nonempty) blank visible
    (Expr.ne_nil_of_parse inner) (getLast?_ne_of_parse inner) ending
  have parts : output ++ [' ', '=', ' '] ++ (front ++ (core ++ back)) ++ tail =
      output ++ [' '] ++ '=' :: (' ' :: front ++ (core ++ (back ++ tail))) := by simp
  simp only [parse, parts, divided, outer, inner]

/-- An output with a comparison and a quoted separator in it, and an expression between wide
blanks in which strings look like the rest of an equation. -/
theorem parse_of_parse_expression_quoted :
    ∃ tree,
      Expr.parse { maxDepth := 4 }
        "\u3000if \"=;\" >= b then f(x)[2].k else \"; =\"\u00a0".toList = .ok tree ∧
      bareOffset? "a == \"=\" ! ".toList = none ∧
      parse { maxDepth := 4 }
        ("a == \"=\" !".toList ++ [' ', '=', ' '] ++
          "\u3000if \"=;\" >= b then f(x)[2].k else \"; =\"\u00a0".toList ++ " ;\n".toList) =
        .ok ⟨"a == \"=\" !", tree⟩ := by
  have read : Expr.parse { maxDepth := 4 }
      "\u3000if \"=;\" >= b then f(x)[2].k else \"; =\"\u00a0".toList =
        .ok (.conditional (.compare .greaterEqual (.string "\"=;\"") (.named "b"))
          (.index (.call (.named "f") [.named "x"]) [.number (.integer 2)] [.named "k"])
          (.string "\"; =\"")) := by
    with_unfolding_all rfl
  have unseparated : bareOffset? "a == \"=\" ! ".toList = none := by decide
  have terminates : IsTerminator " ;\n".toList := by
    refine .inr ⟨[' '], ['\n'], rfl, ?_, ?_⟩ <;> exact List.forall_mem_singleton.mpr rfl
  exact ⟨_, read, unseparated, parse_of_parse_expression _ "a == \"=\" !".toList _ _ _ read
    (by decide) (by decide) (by decide) unseparated terminates⟩

end Equation
end ModelEquation
