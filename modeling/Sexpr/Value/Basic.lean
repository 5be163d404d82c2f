/-!
# Values

Code and data are one type, `Value`: what the reader produces, what evaluation
takes and what it returns. Primitives come only from the environment, since they
have no written form. A foreign value is an object of the embedding program that
is no expression: it can be passed around, but neither evaluated nor written.
-/
namespace Sexpr

/-! ## Primitives -/

/-- The operations every session starts with. -/
inductive Builtin where
  | add | subtract | multiply | equal | less
  | list | first | rest | cons | isNil
  deriving Repr, DecidableEq

/-- The operations an embedding program may register besides. -/
inductive Hosted where
  /-- The number of arguments. -/
  | count
  /-- The arguments as a list. -/
  | collect
  /-- The first argument, after all have been recorded in the journal. -/
  | record
  /-- No arguments are ever suitable. -/
  | refuse
  /-- Fails with a fault that evaluation does not handle. -/
  | divideByZero
  /-- Fails as an unbound name does. -/
  | undefined
  /-- Any other operation, known by its name. -/
  | custom (name : String)
  deriving Repr, DecidableEq

/-- What a primitive does with its evaluated arguments. -/
inductive Operation where
  | builtin (operation : Builtin)
  | hosted (operation : Hosted)
  deriving Repr, DecidableEq

/-- A function that the language does not define itself. -/
structure Primitive where
  name : String
  minArity : Nat
  operation : Operation
  deriving Repr, DecidableEq

/-! ## Values -/

/-- An object of the embedding program that is no expression. -/
inductive Foreign where
  | number | null | array | table
  deriving Repr, DecidableEq

/-- An expression, or the result of evaluating one. -/
inductive Value where
  | nil
  | bool (b : Bool)
  | int (n : Int)
  | str (text : String)
  | sym (name : String)
  | list (items : List Value)
  | quote (inner : Value)
  | prim (primitive : Primitive)
  | foreign (object : Foreign)
  deriving Repr

instance : Inhabited Value := ⟨.nil⟩

/-- The variants of an expression. -/
inductive Kind where
  | nil | boolean | integer | string | symbol | list | quote | primitive
  deriving Repr, DecidableEq

/-- The name of the variant. -/
def Kind.name : Kind → String
  | .nil => "nil"
  | .boolean => "boolean"
  | .integer => "integer"
  | .string => "string"
  | .symbol => "symbol"
  | .list => "list"
  | .quote => "quote"
  | .primitive => "primitive"

/-- The text an object of the embedding program is shown as. -/
def Foreign.text : Foreign → String
  | .number => "1.5"
  | .null => "None"
  | .array => "[1, 2]"
  | .table => "\x7b\x7d"

/-- The name of the object's type in the embedding program. -/
def Foreign.typeName : Foreign → String
  | .number => "float"
  | .null => "NoneType"
  | .array => "list"
  | .table => "dict"

namespace Value

/-- The variant of an expression; a foreign object has none. -/
def kind : Value → Except Foreign Kind
  | .nil => .ok .nil
  | .bool _ => .ok .boolean
  | .int _ => .ok .integer
  | .str _ => .ok .string
  | .sym _ => .ok .symbol
  | .list _ => .ok .list
  | .quote _ => .ok .quote
  | .prim _ => .ok .primitive
  | .foreign object => .error object

/-- Only nil and false are false. -/
def isTruthy : Value → Bool
  | .nil | .bool false => false
  | _ => true

/-- The value is nil; the empty list and false are not. -/
def isNil : Value → Bool
  | .nil => true
  | _ => false

end Value
end Sexpr
