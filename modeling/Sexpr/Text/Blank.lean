/-!
# Blank characters

The characters that separate tokens and that are trimmed from settings: the
Unicode white space together with the four information separators U+001C to
U+001F. The zero-width space, the byte-order mark and U+180E are not among them.
-/
namespace Sexpr.Text

/-- The character separates tokens. -/
def isBlank (c : Char) : Bool :=
  let n := c.toNat
  (0x09 ≤ n && n ≤ 0x0D) || (0x1C ≤ n && n ≤ 0x20) || n == 0x85 || n == 0xA0 || n == 0x1680 ||
    (0x2000 ≤ n && n ≤ 0x200A) || n == 0x2028 || n == 0x2029 || n == 0x202F || n == 0x205F ||
    n == 0x3000

/-- The text without the blanks at its two ends. -/
def trim (text : String) : String :=
  let trimmed := text.toList.dropWhile isBlank
  String.ofList (trimmed.reverse.dropWhile isBlank).reverse

/-- The text holds blanks only. -/
def isBlankText (text : String) : Bool :=
  text.toList.all isBlank

end Sexpr.Text
