import ModelEquation.Json.Value
import ModelEquation.Token.Basic

/-!
# Tokens in structured output
-/

namespace ModelEquation
namespace Token

/-- A token as an object with its kind, its lexeme and its position. -/
def toJson (token : Token) : Json.Value :=
  .object [("kind", .string token.kind.name), ("text", .string token.text),
    ("position", .whole token.position)]

end Token
end ModelEquation
