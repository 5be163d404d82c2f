import Sexpr.Text.Inspected
import Sexpr.Text.Lines
import Sexpr.Text.Utf8

/-!
# Files

A file holds bytes, and its text is those bytes decoded, with a line feed for each
line end. Either the operating system or the decoding may refuse.
-/
namespace Sexpr

/-! ## Errors -/

/-- Why the text of a file cannot be had. -/
inductive FileError where
  | missing
  | isDirectory
  /-- Another error of the operating system, by number and in words. -/
  | system (code : Nat) (reason : String)
  | notUtf8 (fault : Text.Utf8.Fault)
  deriving Repr, DecidableEq

namespace FileError

/-- The error in words. -/
def reason : FileError → String
  | .missing => "No such file or directory"
  | .isDirectory => "Is a directory"
  | .system _ reason => reason
  | .notUtf8 fault => fault.message

/-- The number of an error of the operating system. -/
def code? : FileError → Option Nat
  | .missing => some 2
  | .isDirectory => some 21
  | .system code _ => some code
  | .notUtf8 _ => none

/-- The error with its number and its place, if it has them. -/
def message (path : String) (error : FileError) : String :=
  match error.code? with
  | some code =>
    "[Errno " ++ toString code ++ "] " ++ error.reason ++ ": " ++ Text.Inspected.encode path
  | none => error.reason

end FileError

/-! ## Paths -/

/-- The text can be a path. The operating system knows no path with U+0000 in it. -/
def isPath (text : String) : Bool := !text.toList.contains '\x00'

/-! ## Contents -/

/-- What the operating system says about each path. -/
abbrev Files := String → Except FileError (List UInt8)

/-- The text of a file, with a line feed for each line end. -/
def Files.text (files : Files) (path : String) : Except FileError String :=
  match files path with
  | .error error => .error error
  | .ok bytes =>
    match Text.Utf8.decode bytes with
    | .error fault => .error (.notUtf8 fault)
    | .ok text => .ok (Text.normalizeNewlines text)

end Sexpr
