import Sexpr.Shell.Source

/-!
# The shell

Given files, the shell evaluates each in turn on one session and prints every
result; an unreadable file does not stop the others. Given none, it asks for lines
and evaluates each as a source of its own.
-/
namespace Sexpr.Shell

/-! ## Files and lines -/

/-- Go on only if the text is a path. -/
def requirePath (text : String) : Shell Unit :=
  if isPath text then pure () else throw (.notAPath text)

/-- Evaluate a file, unless it cannot be read. -/
def runFile [Host] (config : Config) (path : String) (contents : Except FileError String) :
    Shell Bool := do
  requirePath path
  match contents with
  | .ok source => runSource config source
  | .error error => do
    logLine config .info "sxeval" ("cannot read " ++ path ++ ": " ++ error.message path)
    printLine ("error: cannot read " ++ path ++ ": " ++ error.reason)
    return false

/-- Evaluate files in order. The answer is whether all is well. -/
def runFiles [Host] (config : Config) (files : Files) : List String → Shell Bool
  | [] => return true
  | path :: rest => do
    let ok ← runFile config path (files.text path)
    let restOk ← runFiles config files rest
    return ok && restOk

/-- What the shell prints before it reads a line. -/
def prompt : String := "sx> "

/-- Ask for a line. -/
def printPrompt : Shell Unit :=
  modify fun console => { console with out := console.out ++ prompt }

/-- Evaluate a line of input. Blank lines are skipped. -/
def runLine [Host] (config : Config) (line : String) : Shell Unit :=
  if Text.isBlankText line then pure () else discard (runSource config.forLine line)

/-- Ask for lines and evaluate them until there are none. -/
def runLines [Host] (config : Config) : List String → Shell Unit
  | [] => do
    printPrompt
    printLine ""
  | line :: rest => do
    printPrompt
    runLine config line
    runLines config rest

/-! ## The whole shell -/

/-- The largest recursion limit that can be set. -/
def maxLimit : Nat := Nat.pow 2 31 - 1

/-- The recursion limit in force. A smaller one than the default is not set. -/
def setLimit (level : LogLevel) (limit? : Option Nat) : Shell Nat :=
  match limit? with
  | none => return Room.defaultLimit
  | some limit =>
    if Room.defaultLimit < limit then do
      logLine ⟨0, level⟩ .debug "sxeval.interpreter"
        ("raising recursion limit to " ++ toString limit)
      if maxLimit < limit then throw .limitTooLarge
      return limit
    else
      return Room.defaultLimit

/-- Load the prelude, if there is one. -/
def loadPrelude [Host] (config : Config) (files : Files) : Option String → Shell Unit
  | none => pure ()
  | some path => do
    logLine config .info "sxeval.interpreter" ("loading prelude from " ++ path)
    requirePath path
    match files.text path with
    | .ok source => ofRun (evalPrelude config.room source)
    | .error error => throw (.file path error)

/-- A setting, unless it is wrong. -/
def setting {α : Type} : Except Settings.Error α → Shell α
  | .ok value => pure value
  | .error error => throw (.setting error)

/-- Set up the shell: the log level first, then the recursion limit, then the prelude. -/
def start [Host] (env : String → Option String) (files : Files) : Shell Config := do
  let level ← setting (Settings.logLevel env)
  let names := " ".intercalate (Primitive.builtins.map Primitive.name)
  logLine ⟨0, level⟩ .debug "sxeval.builtin.env_builtin"
    ("registered " ++ toString Primitive.builtins.length ++ " primitives: " ++ names)
  let limit ← setLimit level (← setting (Settings.recursionLimit env))
  let config : Config := ⟨Room.ofLimit limit, level⟩
  loadPrelude config files (Settings.preludePath env)
  logLine config .debug "sxeval"
    ("session started with " ++ toString (← get).session.bindings.size ++ " bindings")
  return config

/-- Run the shell on the files named by its arguments, or else on its input. The
answer is the exit status. -/
def run [Host] (env : String → Option String) (files : Files) (args : List String)
    (input : String) : Shell Nat := do
  let config ← start env files
  if args.isEmpty then
    runLines config (Text.lines input)
    return 0
  else
    return if ← runFiles config files args then 0 else 1

end Sexpr.Shell
