import Sexpr.Room
import Sexpr.Value.Basic

/-!
# Equality of values

Two values are equal if they are the same tree. A boolean is never an integer, a
string never a symbol, and the empty list is not nil. `Value.compare` walks the
two trees side by side and stops at the first difference, so it can tell unequal
trees apart before their depth matters.
-/
namespace Sexpr.Value

mutual

/-- The values are the same tree; `none` if there is too little room to tell. -/
def compare (room : Nat) : Value → Value → Option Bool
  | .nil, .nil => some true
  | .bool a, .bool b => some (a == b)
  | .int a, .int b => some (a == b)
  | .str a, .str b => some (a == b)
  | .sym a, .sym b => some (a == b)
  | .prim a, .prim b => some (decide (a = b))
  | .foreign a, .foreign b => some (decide (a = b))
  | .list as, .list bs =>
    if as.length = bs.length then
      match Room.enter Room.compareLevel room with
      | none => none
      | some room => compareEach room as bs
    else
      some false
  | .quote a, .quote b =>
    match Room.enter Room.compareLevel room with
    | none => none
    | some room => compare room a b
  | _, _ => some false

/-- The members of two lists of one length agree, looked at in order. -/
def compareEach (room : Nat) : List Value → List Value → Option Bool
  | [], [] => some true
  | a :: as, b :: bs =>
    match compare room a b with
    | some true => compareEach room as bs
    | answer => answer
  | _, _ => some false

end

end Sexpr.Value
