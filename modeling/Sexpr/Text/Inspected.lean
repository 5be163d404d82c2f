import Sexpr.Text.Printable

/-!
# Inspected text

The form in which text appears in log lines and in error messages: between
quotes, with everything that would not show on the screen written as an escape.
Single quotes are used unless the text has a single quote and no double quote.
-/
namespace Sexpr.Text.Inspected

/-- The last `width` lower-case hexadecimal digits of the number. -/
def hex (width n : Nat) : List Char :=
  match width with
  | 0 => []
  | w + 1 => hex w (n / 16) ++ [Nat.digitChar (n % 16)]

/-- The escape of an unprintable character, as short as its code point allows. -/
def codeEscape (c : Char) : List Char :=
  let n := c.toNat
  if n < 0x100 then '\\' :: 'x' :: hex 2 n
  else if n < 0x10000 then '\\' :: 'u' :: hex 4 n
  else '\\' :: 'U' :: hex 8 n

/-- One character between quotes of the given kind. -/
def encodeChar (quote c : Char) : List Char :=
  if c = quote || c = '\\' then ['\\', c]
  else if c = '\n' then ['\\', 'n']
  else if c = '\r' then ['\\', 'r']
  else if c = '\t' then ['\\', 't']
  else if isPrintable c then [c]
  else codeEscape c

/-- The kind of quote the text is shown in. -/
def quoteFor (text : List Char) : Char :=
  if text.contains '\'' && !text.contains '"' then '"' else '\''

/-- The text between quotes. -/
def encode (text : String) : String :=
  let chars := text.toList
  let quote := quoteFor chars
  String.ofList (quote :: (chars.flatMap (encodeChar quote) ++ [quote]))

end Sexpr.Text.Inspected
