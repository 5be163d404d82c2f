import Sexpr.Numeral
import Sexpr.SyntaxError
import Sexpr.Text.Quoted
import Sexpr.Token.Basic
import Sexpr.Value.Basic

/-!
# From tokens to values

The parser takes one token after the other and keeps the lists and quotes that
are still open as a stack of frames, innermost first. A token either changes the
stack or completes an expression, so nesting of any depth can be read.
-/
namespace Sexpr

/-! ## Single tokens -/

/-- The value of an atom: one of three words, an integer, or a symbol. -/
def Value.ofAtom (text : String) : Except ReadError Value :=
  if text = "nil" then .ok .nil
  else if text = "true" then .ok (.bool true)
  else if text = "false" then .ok (.bool false)
  else
    match Numeral.parse? text.toList with
    | some (.ok n) => .ok (.int n)
    | some (.error .oversized) => .error .oversizedInteger
    | none => .ok (.sym text)

/-- The text that the body of a string literal stands for; the body begins at `position`. -/
def decodeBody (position : Int) (body : List Char) : Except ReadError String :=
  match Text.Quoted.decode body with
  | .ok chars => .ok (String.ofList chars)
  | .error (.unknownEscape char index) =>
    .error (.malformed (.unknownEscape char (position + index + 1)))
  | .error .danglingEscape => .error .danglingEscape

/-- The body of a string token: its text without the first and the last character. -/
def Token.body (token : Token) : List Char :=
  (token.text.toList.drop 1).dropLast

namespace Parser

/-! ## Frames -/

/-- An expression that has begun and is not complete. -/
inductive Frame where
  /-- The quote at `position` waits for its expression. -/
  | quote (position : Int)
  /-- The list that opens at `position`, with its members so far, last first. -/
  | list (position : Int) (members : List Value)
  deriving Repr

/-- The state after a token. -/
inductive Progress where
  /-- These frames are open. -/
  | pending (frames : List Frame)
  /-- A whole expression has been read. -/
  | complete (value : Value)
  deriving Repr

/-- Put a finished value in its place: it ends every quote that waits for it, and
joins the innermost open list or is a whole expression. -/
def place (value : Value) : List Frame → Progress
  | [] => .complete value
  | .quote _ :: frames => place (.quote value) frames
  | .list position members :: frames => .pending (.list position (value :: members) :: frames)

/-- Take one token. -/
def step (frames : List Frame) (token : Token) : Except ReadError Progress :=
  match token.kind with
  | .atom => (place · frames) <$> Value.ofAtom token.text
  | .string => do
    let text ← decodeBody (token.position + 1) token.body
    return place (.str text) frames
  | .quote => .ok (.pending (.quote token.position :: frames))
  | .openParen => .ok (.pending (.list token.position [] :: frames))
  | .closeParen =>
    match frames with
    | .list _ members :: frames => .ok (place (.list members.reverse) frames)
    | _ => .error (.malformed (.unexpectedClose token.position))
  | .other name => .error (.malformed (.unknownToken name token.text token.position))

/-- The error of ending while these frames are open; none are open between expressions. -/
def finish : List Frame → Option SyntaxError
  | [] => none
  | .quote position :: _ => some (.nothingToQuote position)
  | .list position _ :: _ => some (.unmatchedOpen position)

end Parser
end Sexpr
