import Sexpr.Run

/-!
# Evaluation

The value of an expression in a session. Literals, primitives and the empty list
stand for themselves, a quote for what it quotes, and a symbol for its binding. A
list that begins with a symbol is a special form or an application; any other list
has no meaning. Only definitions change the bindings.
-/
namespace Sexpr

/-! ## Special forms -/

/-- The forms with rules of their own. -/
inductive SpecialForm where
  | define | choose | quote
  deriving Repr, DecidableEq

namespace SpecialForm

/-- The name that the form goes by. -/
def name : SpecialForm → String
  | .define => "def"
  | .choose => "if"
  | .quote => "quote"

/-- The form of this name. Binding the name does not change what it means. -/
def ofName? (name : String) : Option SpecialForm :=
  if name = "def" then some .define
  else if name = "if" then some .choose
  else if name = "quote" then some .quote
  else none

/-- The exact number of arguments the form takes. -/
def arity : SpecialForm → Nat
  | .define => 2
  | .choose => 3
  | .quote => 1

/-- The failure of using the form with the wrong number of arguments. -/
def arityFailure (form : SpecialForm) (symbol : Value) (args : List Value) : Failure :=
  if args.length < form.arity then .specialTooFewArgs symbol else .specialTooManyArgs symbol

end SpecialForm

/-! ## Expressions -/

/-- Apply what `head` stands for. The arguments are evaluated only if it is a primitive. -/
def applyTo [Host] (room : Nat) (head callee : Value) (args : Run (List Value)) : Run Value :=
  match callee with
  | .prim primitive => do primitive.call room head (← args)
  | _ => Run.fail (.notAFunction head)

mutual

/-- Evaluate an expression. -/
def evaluate [Host] (room : Nat) : Value → Run Value
  | .sym name => Run.lookup name
  | .quote inner => pure inner
  | .foreign object => Run.halt (.notAnExpression object)
  | .list [] => pure (.list [])
  | .list (.sym name :: args) =>
    match Room.enter Room.evaluateForm room with
    | none => Run.halt .tooDeep
    | some room =>
      match SpecialForm.ofName? name with
      | some form => evaluateSpecial room (.sym name) form args
      | none => do applyTo room (.sym name) (← Run.lookup name) (evaluateEach room args)
  | .list (head :: args) => Run.fail (.unknown (.list (head :: args)))
  | value => pure value

/-- Evaluate a special form; `symbol` is blamed for a wrong number of arguments. -/
def evaluateSpecial [Host] (room : Nat) (symbol : Value) : SpecialForm → List Value → Run Value
  | .quote, [value] => pure value
  | .choose, [condition, consequent, alternative] => do
    if (← evaluate room condition).isTruthy then
      evaluate room consequent
    else
      evaluate room alternative
  | .define, [.sym name, body] => do
    if ← Run.isBound name then
      Run.fail (.redefine (.sym name))
    else
      let value ← evaluate room body
      Run.define name value
      return .sym name
  | .define, [target, _] => Run.fail (.defineBadSymbol target)
  | form, args => Run.fail (form.arityFailure symbol args)

/-- Evaluate expressions from the first on. -/
def evaluateEach [Host] (room : Nat) : List Value → Run (List Value)
  | [] => pure []
  | expr :: rest => do
    let value ← evaluate room expr
    let values ← evaluateEach room rest
    return value :: values

end

/-- Evaluate the head of an application, then apply it. -/
def apply [Host] (room : Nat) (head : Value) (args : List Value) : Run Value := do
  applyTo room head (← evaluate room head) (evaluateEach room args)

end Sexpr
