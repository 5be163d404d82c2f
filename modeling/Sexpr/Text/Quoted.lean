/-!
# Quoted text

String literals are written between double quotes. Five characters are written as
a backslash and a letter or sign: the quote, the backslash, line feed, tab and
carriage return. `encode` writes the body of a literal and `decode` reads it back.
-/
namespace Sexpr.Text.Quoted

/-- Why the body of a literal cannot be decoded. -/
inductive Fault where
  /-- The backslash at `index` stands before a character that has no meaning there. -/
  | unknownEscape (char : Char) (index : Nat)
  /-- The body ends in the backslash that begins an escape. -/
  | danglingEscape
  deriving Repr, DecidableEq

/-! ## Escapes -/

/-- The sign that stands for the character after a backslash, if it must be escaped. -/
def escape? : Char → Option Char
  | '\\' => some '\\'
  | '"' => some '"'
  | '\n' => some 'n'
  | '\t' => some 't'
  | '\r' => some 'r'
  | _ => none

/-- The character that a backslash and this sign stand for. -/
def unescape? : Char → Option Char
  | '\\' => some '\\'
  | '"' => some '"'
  | 'n' => some '\n'
  | 't' => some '\t'
  | 'r' => some '\r'
  | _ => none

/-! ## Encoding and decoding -/

/-- The body of the literal that stands for the characters. -/
def encode : List Char → List Char
  | [] => []
  | c :: rest =>
    match escape? c with
    | some sign => '\\' :: sign :: encode rest
    | none => c :: encode rest

/-- The characters that a body stands for; `index` is where it begins. -/
def decodeFrom (index : Nat) : List Char → Except Fault (List Char)
  | [] => .ok []
  | ['\\'] => .error .danglingEscape
  | '\\' :: sign :: rest =>
    match unescape? sign with
    | some c => (c :: ·) <$> decodeFrom (index + 2) rest
    | none => .error (.unknownEscape sign index)
  | c :: rest => (c :: ·) <$> decodeFrom (index + 1) rest

/-- The characters that the body of a literal stands for. -/
def decode (body : List Char) : Except Fault (List Char) := decodeFrom 0 body

/-- The literal that stands for the text, with its quotes. -/
def literal (text : String) : String :=
  String.ofList ('"' :: (encode text.toList ++ ['"']))

end Sexpr.Text.Quoted
