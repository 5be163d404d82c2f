import Sexpr.Text.Blank
import Sexpr.Token.Basic

/-!
# Cutting source text into tokens

The lexer reads one character after the other. Its `Mode` says what the character
before belongs to, and `Mode.step` says which tokens the next character completes
and what it belongs to itself. Blanks and comments separate tokens and are
dropped; a comment runs from a semicolon to the end of the line.
-/
namespace Sexpr.Token

/-! ## Character classes -/

/-- The character may be part of an atom: it is no blank and has no meaning of its own. -/
def isAtomChar (c : Char) : Bool :=
  !(Text.isBlank c || c == '(' || c == ')' || c == '\'' || c == '"' || c == ';')

/-! ## Modes -/

/-- What the last character belongs to. The characters of an unfinished token are
kept last first, together with the position of the first one. -/
inductive Mode where
  | between
  | comment
  | atom (start : Nat) (chars : List Char)
  | string (start : Nat) (chars : List Char)
  /-- Inside a string, after a backslash. -/
  | escape (start : Nat) (chars : List Char)
  deriving Repr, DecidableEq

namespace Mode

/-- The token made of these characters, given last first. -/
def finished (kind : Kind) (start : Nat) (chars : List Char) : Token :=
  ⟨kind, String.ofList chars.reverse, start⟩

/-- The effect of a character that does not go on with an unfinished token. -/
def begin (position : Nat) (c : Char) : List Token × Mode :=
  if c = ';' then ([], .comment)
  else if Text.isBlank c then ([], .between)
  else if c = '\'' then ([finished .quote position [c]], .between)
  else if c = '(' then ([finished .openParen position [c]], .between)
  else if c = ')' then ([finished .closeParen position [c]], .between)
  else if c = '"' then ([], .string position [c])
  else ([], .atom position [c])

/-- The tokens that the character at `position` completes, and the mode after it. -/
def step (position : Nat) (c : Char) : Mode → List Token × Mode
  | .between => begin position c
  | .comment => ([], if c = '\n' then .between else .comment)
  | .atom start chars =>
    if isAtomChar c then
      ([], .atom start (c :: chars))
    else
      let (tokens, mode) := begin position c
      (finished .atom start chars :: tokens, mode)
  | .string start chars =>
    if c = '\\' then ([], .escape start (c :: chars))
    else if c = '"' then ([finished .string start (c :: chars)], .between)
    else ([], .string start (c :: chars))
  | .escape start chars => ([], .string start (c :: chars))

end Mode

/-! ## The lexer -/

/-- What the end of the text makes of an unfinished token: an atom ends there, a string must not. -/
def Mode.finish : Mode → Supply
  | .between | .comment => ⟨[], none⟩
  | .atom start chars => ⟨[finished .atom start chars], none⟩
  | .string start _ | .escape start _ => ⟨[], some (.unterminatedString start)⟩

/-- Cut the text that begins at `position`, in the given mode. -/
def lexFrom (mode : Mode) (position : Nat) : List Char → Supply
  | [] => mode.finish
  | c :: rest =>
    let (tokens, mode) := mode.step position c
    let supply := lexFrom mode (position + 1) rest
    { supply with tokens := tokens ++ supply.tokens }

/-- Cut source text into tokens. -/
def lex (source : String) : Supply :=
  lexFrom .between 0 source.toList

end Sexpr.Token
