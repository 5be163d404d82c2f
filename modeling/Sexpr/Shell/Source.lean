import Sexpr.Shell.Console

/-!
# Running source text

The shell evaluates a source form by form and prints one line for each: the
written form of its value, or what went wrong. A source that cannot be read makes
a single line and evaluates nothing.
-/
namespace Sexpr.Shell

/-! ## Reports -/

/-- Log and print a failure. The log line is made up only if it is shown. -/
def reportFailure (config : Config) (failure : Failure) : Shell Unit := do
  if config.shows .info then
    match failure.inspect config.logRoom with
    | .ok text => logLine config .info "sxeval" ("evaluation failed: " ++ text)
    | .error reason => throw (.halt reason.halt)
  match failure.describe config.describeRoom with
  | .ok text => printLine ("error: " ++ text)
  | .error reason => throw (.halt reason.halt)

/-- Print what became of a form. The answer is whether it has a value and the
value could be printed; a value that is nested too deeply counts as a failure. -/
def reportOutcome (config : Config) : Outcome → Shell Bool
  | .value value =>
    match value.render config.printRoom with
    | .ok text => do
      printLine text
      return true
    | .error .tooDeep => do
      reportFailure config .nestingTooDeep
      return false
    | .error reason => throw (.halt reason.halt)
  | .failure failure => do
    reportFailure config failure
    return false

/-- Print what became of forms. The answer is whether all is well. -/
def reportEach (config : Config) : List Outcome → Shell Bool
  | [] => return true
  | outcome :: rest => do
    let ok ← reportOutcome config outcome
    let restOk ← reportEach config rest
    return ok && restOk

/-- Print that a text could not be read: the source, or one that an operation has read. -/
def reportSyntax (error : SyntaxError) : Shell Bool := do
  printLine ("error: " ++ error.message)
  return false

/-- Log each form that was nested too deeply. -/
def logTooDeep (config : Config) : List Outcome → Shell Unit
  | [] => pure ()
  | .failure .nestingTooDeep :: rest => do
    logLine config .debug "sxeval.interpreter" "form exceeded the recursion limit"
    logTooDeep config rest
  | _ :: rest => logTooDeep config rest

/-! ## Sources -/

/-- Evaluate forms and print what becomes of them. -/
def runForms [Host] (config : Config) (forms : List Value) : Shell Bool := do
  let attempts ← ofRun fun session =>
    let (attempts, session) := attemptEach config.room forms session
    .ok attempts session
  logTooDeep config attempts.outcomes
  match attempts.escape? with
  | some (.unreadable (.malformed error)) => reportSyntax error
  | some reason => throw (.halt reason)
  | none => reportEach config attempts.outcomes

/-- Evaluate a source form by form and print the results. The answer is whether all is well. -/
def runSource [Host] (config : Config) (source : String) : Shell Bool :=
  match Source.readAll source with
  | .ok forms => runForms config forms
  | .error (.malformed error) => reportSyntax error
  | .error error => throw (.halt (.unreadable error))

end Sexpr.Shell
