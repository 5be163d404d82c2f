import Sexpr.Session
import Sexpr.Settings
import Sexpr.Shell.File

/-!
# Consoles

The shell is a computation over a `Console`: the session, what has been printed,
and what has been logged. What it has done before an escape stays done.
-/
namespace Sexpr

/-! ## Consoles -/

/-- The state of the shell. -/
structure Console where
  session : Session
  /-- What has been printed. -/
  out : String
  /-- The log lines that have been shown. -/
  log : String

/-- The shell before anything has happened. -/
def Console.initial : Console := ⟨.initial, "", ""⟩

/-- What ends the shell before it is done. -/
inductive Escape where
  | halt (reason : Halt)
  | setting (error : Settings.Error)
  /-- The recursion limit is more than the machine can count. -/
  | limitTooLarge
  /-- A text that is no path was taken for one. -/
  | notAPath (text : String)
  /-- The prelude cannot be read. -/
  | file (path : String) (error : FileError)
  deriving Repr

/-- What ended the shell, in words. -/
def Escape.message (room : Nat) : Escape → String
  | .halt reason => reason.message room
  | .setting error => error.message
  | .limitTooLarge => "the recursion limit is too large"
  | .notAPath text => "not a path: " ++ Text.Inspected.encode text
  | .file path error => error.message path

/-- A computation over a console. -/
abbrev Shell := EStateM Escape Console

/-- How much room the forms of a file have, and which log lines the shell shows. -/
structure Shell.Config where
  room : Nat
  level : LogLevel
  deriving Repr

namespace Shell

namespace Config

/-- The room for what is typed. -/
def forLine (config : Config) : Config := { config with room := config.room - Room.line }

/-- The room for rendering a value. -/
def printRoom (config : Config) : Nat := config.room + Room.print

/-- The room for describing a failure. -/
def describeRoom (config : Config) : Nat := config.room + Room.describe

/-- The room for inspecting a failure. -/
def logRoom (config : Config) : Nat := config.room - Room.log

/-- The level is shown. -/
def shows (config : Config) (level : LogLevel) : Bool := config.level.number ≤ level.number

end Config

/-- Print a line. -/
def printLine (text : String) : Shell Unit :=
  modify fun console => { console with out := console.out ++ text ++ "\n" }

/-- Log a line, if its level is shown. -/
def logLine (config : Config) (level : LogLevel) (source text : String) : Shell Unit :=
  if config.shows level then
    modify fun console =>
      { console with log := console.log ++ level.name ++ " " ++ source ++ ": " ++ text ++ "\n" }
  else
    pure ()

/-- Run a computation over the session. -/
def ofRun {α : Type} (run : Run α) : Shell α := fun console =>
  match run console.session with
  | .ok result session => .ok result { console with session }
  | .error reason session => .error (.halt reason) { console with session }

end Shell
end Sexpr
