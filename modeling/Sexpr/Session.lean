import Sexpr.Evaluation
import Sexpr.Source

/-!
# Sessions

A session evaluates source text, one text after the other, over one table of
bindings. `eval` evaluates each form as soon as it is read and stops at the first
failure. `evalAll` reads the whole text first and turns each failure, and each form
that is nested too deeply, into an outcome of its own, so that the forms after it
still run.
-/
namespace Sexpr

/-! ## Starting -/

namespace Session

/-- The session without bindings. -/
def empty : Session := ⟨.empty, []⟩

/-- Bind each primitive under its name. -/
def register (session : Session) (primitives : List Primitive) : Session :=
  { session with
    bindings := primitives.foldl (fun bindings p => bindings.define p.name (.prim p))
      session.bindings }

/-- The session that binds the built-in primitives. -/
def initial : Session := empty.register Primitive.builtins

end Session

/-! ## Single forms -/

/-- What became of a form. -/
inductive Outcome where
  | value (value : Value)
  | failure (failure : Failure)
  deriving Repr

/-- Evaluate an expression and return a failure like a value. -/
def tryEvaluate [Host] (room : Nat) (expr : Value) : Run Outcome := fun session =>
  match evaluate room expr session with
  | .ok value session => .ok (.value value) session
  | .error (.failure failure) session => .ok (.failure failure) session
  | .error reason session => .error reason session

/-- Evaluate a form, which may fail or be nested too deeply. -/
def attempt [Host] (room : Nat) (form : Value) : Run Outcome := fun session =>
  match tryEvaluate room form session with
  | .error .tooDeep session => .ok (.failure .nestingTooDeep) session
  | result => result

/-! ## Source text -/

/-- Evaluate the expressions of a stream one by one; the last value counts, and `value` if
there is none. The expressions before an error of reading take effect. -/
def evaluateStream [Host] (room : Nat) (value : Value) (stream : TokenStream) : Run Value :=
  match _h : stream.parse with
  | (.error error, _) => Run.halt (.unreadable error)
  | (.ok none, _) => return value
  | (.ok (some form), after) => do evaluateStream room (← evaluate room form) after
termination_by stream.size
decreasing_by exact TokenStream.size_lt_of_parse _h

/-- Evaluate the forms of a source one by one, for the value of the last. -/
def eval [Host] (room : Nat) (source : String) : Run Value :=
  evaluateStream (room + Room.attempt) .nil (.ofSource source)

/-- Evaluate the expressions of a stream one by one, for what they define. -/
def evaluateDefinitions [Host] (room : Nat) (stream : TokenStream) : Run Unit :=
  match _h : stream.parse with
  | (.error error, _) => Run.halt (.unreadable error)
  | (.ok none, _) => return ()
  | (.ok (some form), after) => do
    let _ ← evaluate room form
    evaluateDefinitions room after
termination_by stream.size
decreasing_by exact TokenStream.size_lt_of_parse _h

/-- Evaluate the forms of a source one by one, for their definitions. -/
def evalPrelude [Host] (room : Nat) (source : String) : Run Unit :=
  evaluateDefinitions (room + Room.attempt) (.ofSource source)

/-- What became of forms, and why the last one that was tried has no outcome, if so. -/
structure Attempts where
  outcomes : List Outcome
  escape? : Option Halt
  deriving Repr

/-- Attempt forms in order. What is neither a value, a failure nor too deep ends the attempts. -/
def attemptEach [Host] (room : Nat) : List Value → Session → Attempts × Session
  | [], session => (⟨[], none⟩, session)
  | form :: rest, session =>
    match attempt room form session with
    | .error reason session => (⟨[], some reason⟩, session)
    | .ok outcome session =>
      let (attempts, session) := attemptEach room rest session
      ({ attempts with outcomes := outcome :: attempts.outcomes }, session)

/-- Read a whole source, then attempt its forms. -/
def evalAll [Host] (room : Nat) (source : String) : Run (List Outcome) := do
  match Source.readAll source with
  | .error error => Run.halt (.unreadable error)
  | .ok forms => fun session =>
    match attemptEach room forms session with
    | (⟨outcomes, none⟩, session) => .ok outcomes session
    | (⟨_, some reason⟩, session) => .error reason session

/-- Start a session with the built-in primitives and evaluate the prelude, if there is one. -/
def Session.start [Host] (room : Nat) (prelude? : Option String) : Except Halt Session :=
  match prelude? with
  | none => .ok initial
  | some source =>
    match evalPrelude (room - Room.start) source initial with
    | .ok _ session => .ok session
    | .error reason _ => .error reason

/-! ## Bindings from outside -/

/-- Why a binding is not made. -/
inductive DefineError where
  /-- The name is no symbol. -/
  | notASymbol (name : Value)
  deriving Repr

/-- The error in words. It shows the name, which may have no text. -/
def DefineError.message (room : Nat) : DefineError → Except Unwritable String
  | .notASymbol name =>
    (fun text => "Cannot define " ++ text ++ " as a symbol") <$> name.inspect room

namespace Session

/-- Bind a name, whether it is bound already or not. -/
def define (session : Session) (name value : Value) : Except DefineError Session :=
  match name with
  | .sym name => .ok { session with bindings := session.bindings.define name value }
  | name => .error (.notASymbol name)

/-- Bind names in order. The first bad one ends it; those before it stay bound. -/
def update (session : Session) : List (Value × Value) → Option DefineError × Session
  | [] => (none, session)
  | (name, value) :: rest =>
    match session.define name value with
    | .ok session => session.update rest
    | .error error => (some error, session)

end Session
end Sexpr
