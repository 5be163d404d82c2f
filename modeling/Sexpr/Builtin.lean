import Sexpr.Value.Inspect

/-!
# Built-in operations

What the ten built-in primitives do with evaluated arguments. Each either answers
with a value or rejects its arguments, and the rejection says why.
-/
namespace Sexpr

/-! ## Rejections -/

/-- Why a primitive rejects its arguments. -/
inductive Rejection where
  /-- The argument is no integer. Booleans are none. -/
  | notAnInteger (argument : Value)
  /-- The argument is no list. -/
  | notAList (argument : Value)
  /-- The primitive takes exactly `count` arguments. -/
  | exactly (name : String) (count : Nat)
  /-- No arguments are suitable. -/
  | refused
  deriving Repr

/-- The rejection in words. It shows the offending argument, which may have no text. -/
def Rejection.message (room : Nat) : Rejection → Except Unwritable String
  | .notAnInteger argument => ("expected an integer, got " ++ ·) <$> argument.inspect room
  | .notAList argument => ("expected a list, got " ++ ·) <$> argument.inspect room
  | .exactly name 1 => .ok (name ++ " takes exactly 1 argument")
  | .exactly name count => .ok (name ++ " takes exactly " ++ toString count ++ " arguments")
  | .refused => .ok "rejected"

/-! ## Arguments -/

/-- The arguments as integers; the first that is none is rejected. -/
def integers : List Value → Except Rejection (List Int)
  | [] => .ok []
  | .int n :: rest => (n :: ·) <$> integers rest
  | argument :: _ => .error (.notAnInteger argument)

/-- The members of a list argument. -/
def members : Value → Except Rejection (List Value)
  | .list items => .ok items
  | argument => .error (.notAList argument)

/-- Each number stands in the relation to the next one. -/
def chained (related : Int → Int → Bool) : List Int → Bool
  | a :: b :: rest => related a b && chained related (b :: rest)
  | _ => true

/-! ## Operations -/

namespace Builtin

/-- The sum of the numbers; zero if there are none. -/
def total (numbers : List Int) : Int := numbers.foldl (· + ·) 0

/-- The first number less all others; the negative of a single one. -/
def difference : List Int → Int
  | [] => 0
  | [n] => -n
  | n :: others => n - total others

/-- The product of the numbers; one if there are none. -/
def product (numbers : List Int) : Int := numbers.foldl (· * ·) 1

/-- Apply a built-in operation to evaluated arguments. -/
def apply : Builtin → List Value → Except Rejection Value
  | .add, args => return .int (total (← integers args))
  | .subtract, args => return .int (difference (← integers args))
  | .multiply, args => return .int (product (← integers args))
  | .equal, args => return .bool (chained (fun a b => decide (a = b)) (← integers args))
  | .less, args => return .bool (chained (fun a b => decide (a < b)) (← integers args))
  | .list, args => .ok (.list args)
  | .first, [arg] => return ((← members arg).head?).getD .nil
  | .first, _ => .error (.exactly "first" 1)
  | .rest, [arg] => return .list (← members arg).tail
  | .rest, _ => .error (.exactly "rest" 1)
  | .cons, [head, arg] => return .list (head :: (← members arg))
  | .cons, _ => .error (.exactly "cons" 2)
  | .isNil, args => .ok (.bool (args.all Value.isNil))

end Builtin

/-! ## Primitives -/

/-- The primitives every session starts with, in the order in which they are bound. -/
def Primitive.builtins : List Primitive :=
  [⟨"+", 0, .builtin .add⟩, ⟨"-", 1, .builtin .subtract⟩, ⟨"*", 0, .builtin .multiply⟩,
    ⟨"=", 1, .builtin .equal⟩, ⟨"<", 1, .builtin .less⟩, ⟨"list", 0, .builtin .list⟩,
    ⟨"first", 1, .builtin .first⟩, ⟨"rest", 1, .builtin .rest⟩, ⟨"cons", 2, .builtin .cons⟩,
    ⟨"nil?", 1, .builtin .isNil⟩]

/-- The built-in primitive of this name. -/
def Primitive.builtin? (name : String) : Option Primitive :=
  builtins.find? (·.name = name)

end Sexpr
