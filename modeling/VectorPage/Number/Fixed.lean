/-
The text of a number in a drawing.

Coordinates, widths and font sizes are all written the same way: rounded to
thousandths, halves to the even thousandth, without trailing zeros and
without a point when nothing follows it. Zero has no sign, and a value that
is not finite is written as zero. The rounding is done on the exact value of
the double (`Exact`), so no digit depends on how a quotient was computed.
-/
import VectorPage.Number.Exact

set_option autoImplicit false

namespace VectorPage

/-- The character of a decimal digit. -/
def digitChar (d : Nat) : Char :=
  Char.ofNat (48 + d % 10)

/-- The three digits of a number of thousandths below one. -/
def thousandthDigits (n : Nat) : List Char :=
  [digitChar (n / 100), digitChar (n / 10), digitChar n]

/-- The digits after the point, trailing zeros dropped, and the point itself
if a digit is left. -/
def fractionText (n : Nat) : String :=
  match ((thousandthDigits n).reverse.dropWhile (· == '0')).reverse with
  | [] => ""
  | digits => String.ofList ('.' :: digits)

/-- The text of a whole number of thousandths. -/
def thousandthsText (negative : Bool) (n : Nat) : String :=
  let unsigned := Nat.repr (n / 1000) ++ fractionText (n % 1000)
  if negative ∧ n ≠ 0 then "-" ++ unsigned else unsigned

/-- **The magnitude in thousandths**, rounded to the nearest, halves to
even. -/
def Exact.thousandths (v : Exact) : Nat :=
  divHalfEven (v.magnitude.1 * 1000) v.magnitude.2

/-- **The text of a number**: its exact value to the nearest thousandth, and
`0` for a value that is not finite. -/
def numberText (x : Float) : String :=
  match Exact.ofFloat? x with
  | some v => thousandthsText v.negative v.thousandths
  | none => "0"

end VectorPage
