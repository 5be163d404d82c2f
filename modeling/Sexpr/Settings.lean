import Sexpr.Numeral
import Sexpr.Text.Blank
import Sexpr.Text.Inspected
import Sexpr.Text.Upper

/-!
# Settings

Three environment variables set up the command line: a file of definitions to
load first, a recursion limit, and a log level. Blanks around a setting do not
count, and a blank path or limit is none at all.
-/
namespace Sexpr

/-! ## Log levels -/

/-- How severe a log line is, and how severe it has to be to be shown. -/
inductive LogLevel where
  | notset | debug | info | warning | error | critical
  deriving Repr, DecidableEq

namespace LogLevel

/-- The severity as a number. -/
def number : LogLevel → Nat
  | .notset => 0
  | .debug => 10
  | .info => 20
  | .warning => 30
  | .error => 40
  | .critical => 50

/-- The name that log lines show. -/
def name : LogLevel → String
  | .notset => "NOTSET"
  | .debug => "DEBUG"
  | .info => "INFO"
  | .warning => "WARNING"
  | .error => "ERROR"
  | .critical => "CRITICAL"

/-- The level of this name; two levels have a second name. -/
def ofName? : String → Option LogLevel
  | "NOTSET" => some .notset
  | "DEBUG" => some .debug
  | "INFO" => some .info
  | "WARNING" | "WARN" => some .warning
  | "ERROR" => some .error
  | "CRITICAL" | "FATAL" => some .critical
  | _ => none

end LogLevel

namespace Settings

/-! ## Variables -/

/-- The variable that names the prelude. -/
def preludeVariable : String := "SXEVAL_PRELUDE_PATH"

/-- The variable that holds the recursion limit. -/
def limitVariable : String := "SXEVAL_RECURSION_LIMIT"

/-- The variable that holds the log level. -/
def levelVariable : String := "SXEVAL_LOG_LEVEL"

/-- What a setting can be wrong in. -/
inductive Error where
  | limitNotAnInteger (text : String)
  | limitNotPositive (limit : Int)
  | unknownLevel (name : String)
  deriving Repr, DecidableEq

/-- The error in words. -/
def Error.message : Error → String
  | .limitNotAnInteger text =>
    limitVariable ++ " must be an integer, got " ++ Text.Inspected.encode text
  | .limitNotPositive limit => limitVariable ++ " must be positive, got " ++ toString limit
  | .unknownLevel name => levelVariable ++ " is not a log level: " ++ Text.Inspected.encode name

/-! ## Paths -/

/-- The pieces of text between slashes. -/
def splitSlashes (piece : List Char) : List Char → List (List Char)
  | [] => [piece.reverse]
  | c :: rest =>
    if c = '/' then piece.reverse :: splitSlashes [] rest else splitSlashes (c :: piece) rest

/-- The root that a path begins with: none, one slash, or exactly two. -/
def pathRoot : List Char → String
  | '/' :: '/' :: '/' :: _ => "/"
  | '/' :: '/' :: _ => "//"
  | '/' :: _ => "/"
  | _ => ""

/-- The path without empty parts and without parts that mean the same directory. -/
def normalizePath (path : String) : String :=
  let parts := (splitSlashes [] path.toList).map String.ofList
  let kept := parts.filter fun part => part ≠ "" && part ≠ "."
  let text := pathRoot path.toList ++ "/".intercalate kept
  if text = "" then "." else text

/-- The file to load first. -/
def preludePath (env : String → Option String) : Option String :=
  let path := Text.trim ((env preludeVariable).getD "")
  if path = "" then none else some (normalizePath path)

/-! ## The recursion limit -/

/-- Digits with single underscores between them, after a first digit. -/
def groupedTail? : List Char → Option (List Nat)
  | [] => some []
  | '_' :: c :: rest => return (← Text.digitValue? c) :: (← groupedTail? rest)
  | c :: rest => return (← Text.digitValue? c) :: (← groupedTail? rest)

/-- Digits with single underscores between them. -/
def grouped? : List Char → Option (List Nat)
  | [] => none
  | c :: rest => return (← Text.digitValue? c) :: (← groupedTail? rest)

/-- The integer that the text is a numeral of, with single underscores allowed between digits. -/
def groupedInteger? (text : String) : Option Int := do
  let (sign, rest) := Numeral.splitSign text.toList
  let digits ← grouped? rest
  if digits.length ≤ Numeral.maxDigits then
    return sign * Numeral.ofDigits digits
  else
    none

/-- The recursion limit that is asked for. -/
def recursionLimit (env : String → Option String) : Except Error (Option Nat) :=
  let text := Text.trim ((env limitVariable).getD "")
  if text = "" then
    .ok none
  else
    match groupedInteger? text with
    | none => .error (.limitNotAnInteger text)
    | some limit => if 0 < limit then .ok (some limit.toNat) else .error (.limitNotPositive limit)

/-! ## The log level -/

/-- The least level that is shown, warnings unless another is asked for. Upper and lower case
are the same. -/
def logLevel (env : String → Option String) : Except Error LogLevel :=
  let name := Text.upper (Text.trim ((env levelVariable).getD LogLevel.warning.name))
  match LogLevel.ofName? name with
  | some level => .ok level
  | none => .error (.unknownLevel name)

end Settings
end Sexpr
