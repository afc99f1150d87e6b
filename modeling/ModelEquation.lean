import ModelEquation.Operator
import ModelEquation.Token.Basic
import ModelEquation.Text.Blank
import ModelEquation.Token.Cursor
import ModelEquation.Binary64.Shortest
import ModelEquation.Token.Json
import ModelEquation.Json.Writer
import ModelEquation.Expr.Height
import ModelEquation.Expr.Traversal
import ModelEquation.Expr.Text
import ModelEquation.Expr.Json
import ModelEquation.Expr.Same
import ModelEquation.Reader
import ModelEquation.Expr.Parser
import ModelEquation.Equation.Parser
import ModelEquation.Json.Reader
import ModelEquation.Json.Document
import ModelEquation.Equation.JsonReader
import ModelEquation.Options.Json
import ModelEquation.Proofs.Grammar.Derivation
import ModelEquation.Proofs.Grammar.Height
import ModelEquation.Proofs.Grammar.Levels
import ModelEquation.Proofs.Grammar.Ambiguity
import ModelEquation.Proofs.Grammar.Completeness
import ModelEquation.Proofs.Grammar.Language
import ModelEquation.Proofs.Expr.Fusion
import ModelEquation.Proofs.Expr.Interpretation
import ModelEquation.Proofs.Expr.Reread
import ModelEquation.Proofs.Expr.Roundtrip
import ModelEquation.Proofs.Grammar.Lookahead
import ModelEquation.Proofs.Grammar.Threshold
import ModelEquation.Proofs.Grammar.Completion
import ModelEquation.Proofs.Grammar.Refusal
import ModelEquation.Proofs.Expr.Shape
import ModelEquation.Proofs.Expr.Reparse
import ModelEquation.Proofs.Expr.Yield
import ModelEquation.Proofs.Equation.Alignment
import ModelEquation.Proofs.Equation.Assembly
import ModelEquation.Proofs.Equation.Location
import ModelEquation.Proofs.Token.Calls
import ModelEquation.Proofs.Expr.Denotation
import ModelEquation.Proofs.Expr.ValueForm
import ModelEquation.Proofs.Expr.Canonical
import ModelEquation.Proofs.Expr.Streaming
import ModelEquation.Proofs.Json.Tracking
import ModelEquation.Proofs.Json.Reach
import ModelEquation.Proofs.Json.Budget
import ModelEquation.Proofs.Expr.Containers
import ModelEquation.Proofs.Expr.Agreement
import ModelEquation.Proofs.Expr.Stability
import ModelEquation.Proofs.Expr.Limit
import ModelEquation.Proofs.Expr.Leading
import ModelEquation.Proofs.Token.Longest
import ModelEquation.Proofs.Token.Opening
import ModelEquation.Proofs.Expr.Spacing
import ModelEquation.Proofs.Grammar.Flat
import ModelEquation.Proofs.Json.Written
import ModelEquation.Proofs.Json.Unspaced
import ModelEquation.Proofs.Equation.Outcome
import ModelEquation.Proofs.Equation.Document
import ModelEquation.Proofs.Equation.Rearranged
import ModelEquation.Proofs.Number.Literal
import ModelEquation.Proofs.Expr.Names
