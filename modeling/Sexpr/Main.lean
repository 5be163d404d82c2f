import Sexpr.Shell

/-!
# The command line

Runs the shell on the files, the input and the environment of the process. What a
step of the shell prints and logs is shown before the next step begins. A step that
does not come to its end is reported on the error stream, and the exit status is one.
-/
namespace Sexpr.CommandLine

/-- The shell at work in a process. -/
abbrev Process := ExceptT Escape (StateT Console IO)

/-- Show what has been printed and logged, and forget it. -/
def present : Process Unit := do
  let console ← get
  let out ← IO.getStdout
  out.putStr console.out
  out.flush
  let err ← IO.getStderr
  err.putStr console.log
  err.flush
  set { console with out := "", log := "" }

/-- Take a step of the shell and show what it says. -/
def step {α : Type} (shell : Shell α) : Process α := do
  match shell (← get) with
  | .ok result console =>
    set console
    present
    return result
  | .error escape console =>
    set console
    present
    throw escape

/-- The error of the operating system as the shell knows it. -/
def fileError : IO.Error → FileError
  | .noFileOrDirectory .. => .missing
  | .inappropriateType _ code _ =>
    if code = 21 then .isDirectory else .system 20 "Not a directory"
  | .permissionDenied .. => .system 13 "Permission denied"
  | .invalidArgument _ code details =>
    if code = 36 then .system 36 "File name too long" else .system code.toNat details
  | error => .system 5 (toString error)

/-- The bytes of a file. -/
def readBytes (path : String) : IO (Except FileError (List UInt8)) := do
  match ← (IO.FS.readBinFile path).toBaseIO with
  | .ok bytes => return .ok bytes.toList
  | .error error => return .error (fileError error)

/-- Set up the shell from the environment of the process. -/
def start : Process Shell.Config := do
  let prelude ← IO.getEnv Settings.preludeVariable
  let limit ← IO.getEnv Settings.limitVariable
  let level ← IO.getEnv Settings.levelVariable
  let env := fun name =>
    if name = Settings.preludeVariable then prelude
    else if name = Settings.limitVariable then limit
    else if name = Settings.levelVariable then level
    else none
  let bytes ← match Settings.preludePath env with
    | some path => readBytes path
    | none => pure (.error .missing)
  step (Shell.start env fun _ => bytes)

/-- Evaluate files in order. The answer is whether all is well. -/
def runFiles (config : Shell.Config) : List String → Process Bool
  | [] => return true
  | path :: rest => do
    let bytes ← readBytes path
    let ok ← step (Shell.runFile config path (Files.text (fun _ => bytes) path))
    let restOk ← runFiles config rest
    return ok && restOk

/-- Ask for lines and evaluate them until the input ends. -/
partial def runInput (config : Shell.Config) (input : IO.FS.Stream) : Process Unit := do
  step Shell.printPrompt
  match Text.lines (← input.getLine) with
  | [] => step (Shell.printLine "")
  | line :: _ =>
    step (Shell.runLine config line)
    runInput config input

/-- Run the shell. The answer is the exit status. -/
def run (args : List String) : Process UInt32 := do
  let config ← start
  if args.isEmpty then
    runInput config (← IO.getStdin)
    return 0
  else
    return if ← runFiles config args then 0 else 1

end Sexpr.CommandLine

/-- Evaluate the files named by the arguments, or the standard input line by line. -/
def main (args : List String) : IO UInt32 := do
  match ← ((Sexpr.CommandLine.run args).run).run Sexpr.Console.initial with
  | (.ok status, _) => return status
  | (.error escape, _) =>
    let room := Sexpr.Room.ofLimit Sexpr.Room.defaultLimit
    (← IO.getStderr).putStrLn (escape.message room)
    return 1
