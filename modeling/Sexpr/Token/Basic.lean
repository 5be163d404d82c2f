import Sexpr.SyntaxError

/-!
# Tokens

The pieces of source text that the parser works on. Each token carries its text
as written and the position of its first character.
-/
namespace Sexpr

namespace Token

/-- The kinds of token. Source text has the first five; a token that was made
otherwise may name any other kind. -/
inductive Kind where
  | quote | openParen | closeParen | string | atom
  | other (name : String)
  deriving Repr, DecidableEq

/-- The name of the kind. -/
def Kind.name : Kind → String
  | .quote => "quote"
  | .openParen => "lparen"
  | .closeParen => "rparen"
  | .string => "string"
  | .atom => "atom"
  | .other name => name

/-- The kind of this name. -/
def Kind.ofName : String → Kind
  | "quote" => .quote
  | "lparen" => .openParen
  | "rparen" => .closeParen
  | "string" => .string
  | "atom" => .atom
  | name => .other name

end Token

/-- A piece of source text. -/
structure Token where
  kind : Token.Kind
  text : String
  position : Int
  deriving Repr, DecidableEq

/-- Tokens in order, and the error in which they end, if any. -/
structure Token.Supply where
  tokens : List Token
  error? : Option SyntaxError
  deriving Repr, DecidableEq

end Sexpr
