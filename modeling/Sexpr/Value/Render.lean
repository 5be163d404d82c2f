import Sexpr.Numeral
import Sexpr.Room
import Sexpr.Text.Quoted
import Sexpr.Value.Basic

/-!
# Rendering values

The written form of a value, which the reader reads back unless the value holds a
primitive or a symbol whose name is no name in source text.
-/
namespace Sexpr

/-- Why a value has no text. -/
inductive Unwritable where
  /-- The value is nested too deeply. -/
  | tooDeep
  /-- The value holds an integer with too many digits. -/
  | oversizedInteger
  /-- The value holds an object that is no expression. -/
  | notAnExpression (object : Foreign)
  deriving Repr, DecidableEq

/-- The room left after one level of this cost. -/
def Unwritable.within (cost room : Nat) : Except Unwritable Nat :=
  match Room.enter cost room with
  | some room => .ok room
  | none => .error .tooDeep

/-- The numeral of an integer. -/
def Unwritable.numeral (n : Int) : Except Unwritable String :=
  match Numeral.render n with
  | .ok text => .ok text
  | .error .oversized => .error .oversizedInteger

namespace Value

mutual

/-- The written form of a value. -/
def render (room : Nat) : Value → Except Unwritable String
  | .nil => .ok "nil"
  | .bool true => .ok "true"
  | .bool false => .ok "false"
  | .int n => Unwritable.numeral n
  | .str text => .ok (Text.Quoted.literal text)
  | .sym name => .ok name
  | .list items => do
    let room ← Unwritable.within Room.renderList room
    let texts ← renderEach room items
    return "(" ++ " ".intercalate texts ++ ")"
  | .quote inner => do
    let room ← Unwritable.within Room.renderQuote room
    let text ← render room inner
    return "'" ++ text
  | .prim primitive => .ok ("#<primitive " ++ primitive.name ++ ">")
  | .foreign object => .error (.notAnExpression object)

/-- The written forms of several values, from the first on. -/
def renderEach (room : Nat) : List Value → Except Unwritable (List String)
  | [] => .ok []
  | value :: rest => do
    let text ← render room value
    let texts ← renderEach room rest
    return text :: texts

end

end Value
end Sexpr
