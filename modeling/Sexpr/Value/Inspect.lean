import Sexpr.Text.Inspected
import Sexpr.Value.Render

/-!
# Inspecting values

The unambiguous form of a value that log lines and error messages show. Unlike the
written form it tells symbols from strings by name and covers foreign objects.
-/
namespace Sexpr

/-- A primitive as shown in log lines: its name and least number of arguments. -/
def Primitive.inspect (primitive : Primitive) : String :=
  "Primitive(" ++ Text.Inspected.encode primitive.name ++ ", min_arity=" ++
    toString primitive.minArity ++ ")"

/-- The texts of the members of a list between parentheses; a single one is followed by a comma. -/
def inspectMembers : List String → String
  | [text] => "(" ++ text ++ ",)"
  | texts => "(" ++ ", ".intercalate texts ++ ")"

namespace Value

mutual

/-- The form of a value in log lines and error messages. -/
def inspect (room : Nat) : Value → Except Unwritable String
  | .nil => .ok "nil"
  | .bool true => .ok "True"
  | .bool false => .ok "False"
  | .int n => Unwritable.numeral n
  | .str text => .ok (Text.Inspected.encode text)
  | .sym name => .ok ("Symbol(" ++ Text.Inspected.encode name ++ ")")
  | .list items => do
    let room ← Unwritable.within Room.inspectList room
    let texts ← inspectEach room items
    return inspectMembers texts
  | .quote inner => do
    let room ← Unwritable.within Room.inspectQuote room
    let text ← inspect room inner
    return "Quote(" ++ text ++ ")"
  | .prim primitive => .ok primitive.inspect
  | .foreign object => .ok object.text

/-- The forms of several values, from the first on. -/
def inspectEach (room : Nat) : List Value → Except Unwritable (List String)
  | [] => .ok []
  | value :: rest => do
    let text ← inspect room value
    let texts ← inspectEach room rest
    return text :: texts

end

/-- The form of a value inside a sentence: strings and symbols as they are, all else inspected. -/
def display (room : Nat) : Value → Except Unwritable String
  | .str text => .ok text
  | .sym name => .ok name
  | value => value.inspect room

end Value

/-- The message of an object that was taken for an expression. -/
def Foreign.message (object : Foreign) : String :=
  "Not an expression value: " ++ object.text ++ " (" ++ object.typeName ++ ")"

end Sexpr
