import ModelEquation.Binary64.Basic

/-!
# JSON values

The values that JSON text denotes. Numbers are whole or doubles. An object is
the list of its members in the order of the text, names repeated or not;
`canonical` keeps the last member of each name and orders the members by name.
-/

namespace ModelEquation
namespace Json

/-- A JSON value. -/
inductive Value
  | null
  | boolean (value : Bool)
  | whole (value : Int)
  | double (value : Binary64)
  | string (text : String)
  | array (items : List Value)
  | object (members : List (String × Value))

namespace Value

/-- Puts a member in its place in a list of members ordered by name. A member of
the same name gives way to it. -/
def insertMember
    (name : String)
    (value : Value) :
    List (String × Value) → List (String × Value)
  | [] => [(name, value)]
  | (other, kept) :: rest =>
      if name < other then (name, value) :: (other, kept) :: rest
      else if name = other then (name, value) :: rest
      else (other, kept) :: insertMember name value rest

mutual

/-- The value with the members of every object ordered by name, the last member
of each name kept. -/
def canonical : Value → Value
  | .null => .null
  | .boolean value => .boolean value
  | .whole value => .whole value
  | .double value => .double value
  | .string text => .string text
  | .array items => .array (canonicalItems items)
  | .object members => .object (canonicalMembers members [])

/-- The values of a list, each in canonical form. -/
def canonicalItems : List Value → List Value
  | [] => []
  | item :: rest => item.canonical :: canonicalItems rest

/-- Adds members one after the other, each in canonical form, to members that
are ordered by name. -/
def canonicalMembers :
    List (String × Value) → List (String × Value) → List (String × Value)
  | [], ordered => ordered
  | (name, value) :: rest, ordered =>
      canonicalMembers rest (insertMember name value.canonical ordered)

end

end Value
end Json
end ModelEquation
