/-!
# Errors of reading

What can be wrong with source text, and where. Positions count characters from
the start of the source. Text that is well formed can still fail to be read: an
integer in it may have more digits than are converted.
-/
namespace Sexpr

/-- What is wrong with source text. -/
inductive SyntaxError where
  /-- The string that begins at `position` has no closing quote. -/
  | unterminatedString (position : Int)
  /-- The parenthesis at `position` closes nothing. -/
  | unexpectedClose (position : Int)
  /-- The text ends after the quote at `position`. -/
  | nothingToQuote (position : Int)
  /-- The parenthesis at `position` is not closed. -/
  | unmatchedOpen (position : Int)
  /-- The character at `position` has no meaning after a backslash. -/
  | unknownEscape (char : Char) (position : Int)
  /-- The token at `position` is of no kind the reader knows. -/
  | unknownToken (kind text : String) (position : Int)
  /-- One expression was asked for. -/
  | notOne (found : Nat)
  deriving Repr, DecidableEq

namespace SyntaxError

/-- Where the error is, if it is at one place. -/
def position? : SyntaxError → Option Int
  | .unterminatedString position => some position
  | .unexpectedClose position => some position
  | .nothingToQuote position => some position
  | .unmatchedOpen position => some position
  | .unknownEscape _ position => some position
  | .unknownToken _ _ position => some position
  | .notOne _ => none

/-- What is wrong, without the place. -/
def summary : SyntaxError → String
  | .unterminatedString _ => "Unterminated string"
  | .unexpectedClose _ => "Unexpected ')'"
  | .nothingToQuote _ => "Nothing to quote"
  | .unmatchedOpen _ => "Unmatched '('"
  | .unknownEscape char _ => "Unknown escape \\" ++ char.toString
  | .unknownToken kind text _ => "Unknown token: " ++ kind ++ " " ++ text
  | .notOne found => "Expected exactly one expression, found " ++ toString found

/-- The error in one line, with its place at the end. -/
def message (error : SyntaxError) : String :=
  match error.position? with
  | some position => error.summary ++ " at " ++ toString position
  | none => error.summary

end SyntaxError

/-- Why reading stops. -/
inductive ReadError where
  | malformed (error : SyntaxError)
  /-- An integer has more digits than are converted. -/
  | oversizedInteger
  /-- A string token ends in the backslash of an escape; no token of source text does. -/
  | danglingEscape
  deriving Repr, DecidableEq

end Sexpr
