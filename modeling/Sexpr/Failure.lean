import Sexpr.Value.Equal
import Sexpr.Value.Inspect

/-!
# Failures of evaluation

The ways in which evaluating an expression can fail. A failure is a value: it
carries what it is about, it can be collected like a result, and two failures are
equal if they are of one kind and carry equal values.
-/
namespace Sexpr

/-- A failed evaluation. -/
inductive Failure where
  /-- The symbol has no binding. -/
  | undefined (symbol : Value)
  /-- A definition names a symbol that is already bound. -/
  | redefine (symbol : Value)
  /-- A special form has fewer arguments than it takes. -/
  | specialTooFewArgs (symbol : Value)
  /-- A special form has more arguments than it takes. -/
  | specialTooManyArgs (symbol : Value)
  /-- A definition names something that is no symbol. -/
  | defineBadSymbol (expression : Value)
  /-- The primitive that `head` stands for rejected its arguments. -/
  | badArg (head : Value)
  /-- The head of an application is not bound to a primitive. -/
  | notAFunction (head : Value)
  /-- A primitive has fewer arguments than it takes. -/
  | primitiveTooFewArgs (name minimum actual : Value)
  /-- A list form has no meaning. -/
  | unknown (form : Value)
  /-- An expression, or its value, is nested too deeply. -/
  | nestingTooDeep
  /-- A failure of no particular kind. -/
  | unspecified
  deriving Repr

namespace Failure

/-! ## Kinds -/

/-- The kinds of failure. -/
inductive Kind where
  | undefined | redefine | specialTooFewArgs | specialTooManyArgs | defineBadSymbol | badArg
  | notAFunction | primitiveTooFewArgs | unknown | nestingTooDeep | unspecified
  deriving Repr, DecidableEq

namespace Kind

/-- The name of the kind. -/
def name : Kind → String
  | .undefined => "Undefined"
  | .redefine => "Redefine"
  | .specialTooFewArgs => "SpecialTooFewArgs"
  | .specialTooManyArgs => "SpecialTooManyArgs"
  | .defineBadSymbol => "DefineBadSymbol"
  | .badArg => "BadArg"
  | .notAFunction => "NotAFunction"
  | .primitiveTooFewArgs => "PrimitiveTooFewArgs"
  | .unknown => "Unknown"
  | .nestingTooDeep => "NestingTooDeep"
  | .unspecified => "EvalError"

/-- All kinds. -/
def all : List Kind :=
  [.undefined, .redefine, .specialTooFewArgs, .specialTooManyArgs, .defineBadSymbol, .badArg,
    .notAFunction, .primitiveTooFewArgs, .unknown, .nestingTooDeep, .unspecified]

/-- The kind of this name. -/
def ofName? (name : String) : Option Kind :=
  all.find? (·.name = name)

/-- How many values a failure of the kind carries. -/
def fieldCount : Kind → Nat
  | .primitiveTooFewArgs => 3
  | .nestingTooDeep | .unspecified => 0
  | _ => 1

/-- The message of making a failure of the kind from the wrong number of values. -/
def mismatch (kind : Kind) (given : Nat) : String :=
  s!"{kind.name} expects {kind.fieldCount} field(s), got {given}"

end Kind

/-- The kind of a failure. -/
def kind : Failure → Kind
  | .undefined _ => .undefined
  | .redefine _ => .redefine
  | .specialTooFewArgs _ => .specialTooFewArgs
  | .specialTooManyArgs _ => .specialTooManyArgs
  | .defineBadSymbol _ => .defineBadSymbol
  | .badArg _ => .badArg
  | .notAFunction _ => .notAFunction
  | .primitiveTooFewArgs .. => .primitiveTooFewArgs
  | .unknown _ => .unknown
  | .nestingTooDeep => .nestingTooDeep
  | .unspecified => .unspecified

/-- The values that a failure carries. -/
def payload : Failure → List Value
  | .undefined value | .redefine value | .specialTooFewArgs value | .specialTooManyArgs value
  | .defineBadSymbol value | .badArg value | .notAFunction value | .unknown value => [value]
  | .primitiveTooFewArgs name minimum actual => [name, minimum, actual]
  | .nestingTooDeep | .unspecified => []

/-- The failure of a kind that carries the values; `none` if there are too few or too many. -/
def ofPayload? : Kind → List Value → Option Failure
  | .undefined, [value] => some (.undefined value)
  | .redefine, [value] => some (.redefine value)
  | .specialTooFewArgs, [value] => some (.specialTooFewArgs value)
  | .specialTooManyArgs, [value] => some (.specialTooManyArgs value)
  | .defineBadSymbol, [value] => some (.defineBadSymbol value)
  | .badArg, [value] => some (.badArg value)
  | .notAFunction, [value] => some (.notAFunction value)
  | .primitiveTooFewArgs, [name, minimum, actual] => some (.primitiveTooFewArgs name minimum actual)
  | .unknown, [value] => some (.unknown value)
  | .nestingTooDeep, [] => some .nestingTooDeep
  | .unspecified, [] => some .unspecified
  | _, _ => none

/-! ## Text -/

/-- The values of the payload as shown in log lines. -/
def inspectPayload (room : Nat) (failure : Failure) : Except Unwritable (List String) :=
  Value.inspectEach room failure.payload

/-- The failure as shown in log lines: its kind and what it carries. -/
def inspect (room : Nat) (failure : Failure) : Except Unwritable String := do
  let texts ← failure.inspectPayload room
  return failure.kind.name ++ "(" ++ ", ".intercalate texts ++ ")"

/-- The failure in one line of plain words. -/
def describe (room : Nat) (failure : Failure) : Except Unwritable String :=
  match failure with
  | .undefined symbol => ("undefined symbol: " ++ ·) <$> symbol.display room
  | .redefine symbol => ("cannot redefine symbol: " ++ ·) <$> symbol.display room
  | .specialTooFewArgs symbol =>
    ("too few arguments to special form: " ++ ·) <$> symbol.display room
  | .specialTooManyArgs symbol =>
    ("too many arguments to special form: " ++ ·) <$> symbol.display room
  | .defineBadSymbol expression => ("def expects a symbol, got: " ++ ·) <$> expression.render room
  | .badArg head => ("bad argument in call to: " ++ ·) <$> head.render room
  | .notAFunction head => ("not a function: " ++ ·) <$> head.render room
  | .primitiveTooFewArgs name minimum actual => do
    let name ← name.display room
    let minimum ← minimum.display room
    let actual ← actual.display room
    return name ++ " expects at least " ++ minimum ++ " argument(s), got " ++ actual
  | .unknown form => ("cannot evaluate form: " ++ ·) <$> form.render room
  | .nestingTooDeep => .ok "expression nested too deeply"
  | .unspecified => failure.inspect room

/-! ## Equality -/

/-- The failures are of one kind and carry equal values; `none` if there is too
little room to tell. -/
def compare (room : Nat) (a b : Failure) : Option Bool :=
  if a.kind = b.kind then Value.compareEach room a.payload b.payload else some false

end Failure
end Sexpr
