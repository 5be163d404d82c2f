/-!
# Lines

Text comes with three kinds of line end: a line feed, a carriage return, and the
two together. `normalizeNewlines` makes each of them a single line feed, and
`lines` cuts text at its line feeds.
-/
namespace Sexpr.Text

/-- A carriage return, with the line feed after it if there is one, becomes one line feed. -/
def foldNewlines : List Char → List Char
  | [] => []
  | '\r' :: '\n' :: rest => '\n' :: foldNewlines rest
  | '\r' :: rest => '\n' :: foldNewlines rest
  | c :: rest => c :: foldNewlines rest

/-- The text with a line feed for each of its line ends. -/
def normalizeNewlines (text : String) : String :=
  String.ofList (foldNewlines text.toList)

/-- The pieces of the text between line feeds, given the piece before it. A piece
that the end of the text closes counts only if it is not empty. -/
def cutLines (piece : List Char) : List Char → List (List Char)
  | [] => if piece.isEmpty then [] else [piece.reverse]
  | c :: rest =>
    if c = '\n' then piece.reverse :: cutLines [] rest else cutLines (c :: piece) rest

/-- The lines of the text, without their line feeds. -/
def lines (text : String) : List String :=
  (cutLines [] text.toList).map String.ofList

end Sexpr.Text
