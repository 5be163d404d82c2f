import Sexpr.Text.Digit

/-!
# Numerals

An integer is written as an optional sign and decimal digits, in the digits of
any script and with leading zeros allowed. Numerals in either direction are held
to `maxDigits` digits: a longer one is not converted, though integers of any size
can be computed with.
-/
namespace Sexpr.Numeral

/-- The most digits that a numeral may have, leading zeros counted and the sign not. -/
def maxDigits : Nat := 4300

/-- The first magnitude that has more digits than a numeral may have. -/
def bound : Nat := Nat.pow 10 maxDigits

/-- The numeral or the integer has more digits than are converted. -/
inductive Oversized where
  | oversized
  deriving Repr, DecidableEq

/-! ## Reading -/

/-- The number that the digits stand for, most significant first. -/
def ofDigits (digits : List Nat) : Nat :=
  digits.foldl (fun n d => 10 * n + d) 0

/-- What the digits are worth, if there is at least one and all are decimal digits. -/
def digits? (text : List Char) : Option (List Nat) :=
  if text.isEmpty then none else text.mapM Text.digitValue?

/-- The sign in front of a numeral, and what follows it. -/
def splitSign : List Char → Int × List Char
  | '+' :: rest => (1, rest)
  | '-' :: rest => (-1, rest)
  | text => (1, text)

/-- The integer that the text as a whole is a numeral of; `none` if it is no numeral. -/
def parse? (text : List Char) : Option (Except Oversized Int) :=
  let (sign, rest) := splitSign text
  (digits? rest).map fun digits =>
    if digits.length ≤ maxDigits then .ok (sign * ofDigits digits) else .error .oversized

/-! ## Writing -/

/-- The integer has a numeral of bounded length. -/
def fits (n : Int) : Bool := n.natAbs < bound

/-- The canonical numeral of an integer: ASCII digits, no leading zero, a sign only if negative. -/
def render (n : Int) : Except Oversized String :=
  if fits n then .ok (toString n) else .error .oversized

end Sexpr.Numeral
