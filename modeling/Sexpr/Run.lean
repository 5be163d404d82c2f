import Sexpr.Bindings
import Sexpr.Builtin
import Sexpr.Failure
import Sexpr.Journal
import Sexpr.SyntaxError

/-!
# Runs

A run is a computation that changes a session and ends either in a result or in a
halt. What it has changed before a halt stays changed. What the operations of an
embedding program do is up to that program, the `Host`: they are given evaluated
arguments and the journal, and no part of a run but them can change the journal.
-/
namespace Sexpr

/-- What a session remembers: its bindings, and the journal of recorded calls. -/
structure Session where
  bindings : Bindings
  journal : Journal

/-- Why a run ends without a result. -/
inductive Halt where
  /-- An expression failed. -/
  | failure (failure : Failure)
  /-- There was too little room. -/
  | tooDeep
  /-- The text of an integer with too many digits was needed. -/
  | oversizedInteger
  /-- An object that is no expression was taken for one. -/
  | notAnExpression (object : Foreign)
  /-- A hosted operation divided by zero. -/
  | divisionByZero
  /-- Source text could not be read. -/
  | unreadable (error : ReadError)
  deriving Repr

/-- The halt in words. A failure that cannot be described is known by its kind. -/
def Halt.message (room : Nat) : Halt → String
  | .failure reason =>
    match reason.describe room with
    | .ok text => text
    | .error _ => reason.kind.name
  | .tooDeep => "expression nested too deeply"
  | .oversizedInteger => "integer with too many digits"
  | .notAnExpression object => object.message
  | .divisionByZero => "division by zero"
  | .unreadable (.malformed error) => error.message
  | .unreadable .oversizedInteger => "integer with too many digits"
  | .unreadable .danglingEscape => "unfinished escape"

/-- The halt of needing a text that cannot be had. -/
def Unwritable.halt : Unwritable → Halt
  | .tooDeep => .tooDeep
  | .oversizedInteger => .oversizedInteger
  | .notAnExpression object => .notAnExpression object

/-- A computation over a session. -/
abbrev Run := EStateM Halt Session

namespace Run

/-- End without a result. -/
def halt {α : Type} (reason : Halt) : Run α := throw reason

/-- End in a failure. -/
def fail {α : Type} (failure : Failure) : Run α := throw (.failure failure)

/-- The value that a symbol stands for. -/
def lookup (name : String) : Run Value := do
  match (← get).bindings.value? name with
  | some value => return value
  | none => fail (.undefined (.sym name))

/-- The name is bound. -/
def isBound (name : String) : Run Bool :=
  return (← get).bindings.contains name

/-- Bind the name. -/
def define (name : String) (value : Value) : Run Unit :=
  modify fun session => { session with bindings := session.bindings.define name value }

/-- Run a computation over the journal. -/
def onJournal {α : Type} (work : EStateM Halt Journal α) : Run α := fun session =>
  match work session.journal with
  | .ok a journal => .ok a { session with journal }
  | .error reason journal => .error reason { session with journal }

/-- The text, or the halt of there being none. -/
def text {α : Type} : Except Unwritable α → Run α
  | .ok text => pure text
  | .error reason => halt reason.halt

end Run

/-! ## Hosted operations -/

/-- What a hosted operation does with evaluated arguments. Of the session it is given
nothing but the journal, so it binds no name. -/
abbrev Callback := Nat → List Value → EStateM Halt Journal (Except Rejection Value)

/-- An embedding program, by what its operations do. -/
class Host where
  callback : Hosted → Callback

/-- The operations of a program that adds none of its own: `custom` ones are refused. -/
def Hosted.callback (operation : Hosted) : Callback := fun room args =>
  match operation with
  | .count => return .ok (.int args.length)
  | .collect => return .ok (.list args)
  | .record =>
    match Recorded.entry room args with
    | .error object => throw (.notAnExpression object)
    | .ok entry => do
      modify fun journal => journal ++ [entry]
      return .ok (args.head?.getD .nil)
  | .refuse | .custom _ => return .error .refused
  | .divideByZero => throw .divisionByZero
  | .undefined => throw (.failure (.undefined (.sym "from-callback")))

instance : Host := ⟨Hosted.callback⟩

/-! ## Calling primitives -/

/-- Run an operation on evaluated arguments. -/
def Operation.run [Host] (room : Nat) (operation : Operation) (args : List Value) :
    Run (Except Rejection Value) :=
  match operation with
  | .builtin operation => return operation.apply args
  | .hosted operation => Run.onJournal (Host.callback operation room args)

/-- Call a primitive on evaluated arguments. A rejection becomes a failure that
blames `head`, the expression that stands for the primitive at the place of the call;
the words of the rejection are made up even so. -/
def Primitive.call [Host] (room : Nat) (head : Value) (primitive : Primitive) (args : List Value) :
    Run Value := do
  if args.length < primitive.minArity then
    Run.fail (.primitiveTooFewArgs (.str primitive.name) (.int primitive.minArity)
      (.int args.length))
  else
    match ← primitive.operation.run room args with
    | .ok value => return value
    | .error rejection =>
      let _ ← Run.text (rejection.message room)
      Run.fail (.badArg head)

end Sexpr
