import Sexpr.Token.Stream

/-!
# Reading source text

Source text is a sequence of expressions, which are those of the stream of its tokens.
-/
namespace Sexpr.Source

/-- All expressions of a source. -/
def readAll (source : String) : Except ReadError (List Value) :=
  (TokenStream.ofSource source).parseAll.1

/-- The expression of a source that has exactly one. -/
def read (source : String) : Except ReadError Value := do
  match ← readAll source with
  | [value] => return value
  | values => throw (.malformed (.notOne values.length))

end Sexpr.Source
