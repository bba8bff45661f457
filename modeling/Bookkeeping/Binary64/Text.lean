import Bookkeeping.Binary64.Shortest

/-!
# Positional text of binary64 numbers

Amounts are shown with the fewest digits that read back, always in positional notation: zeros
fill the places up to the point and no exponent is ever written. A whole number has no point.
-/

namespace Bookkeeping

open Bookkeeping.Text

/-- The digits of a decimal in positional notation, with a point only where there is a
fraction. -/
def Decimal.positional (d : Decimal) : List Char :=
  let digits := natDigits d.digits
  if 0 ≤ d.exponent then
    digits ++ List.replicate d.exponent.toNat '0'
  else
    let places := (-d.exponent).toNat
    let padded := List.replicate (places + 1 - digits.length) '0' ++ digits
    let whole := padded.length - places
    padded.take whole ++ '.' :: padded.drop whole

namespace Binary64

/-- The sign of a text. -/
def signText (negative : Bool) : String :=
  if negative then "-" else ""

/-- The text of a number: positional, a tie between two shortest decimals going up. -/
def text : Binary64 → String
  | .finite negative rank =>
    signText negative ++ String.ofList (shortest .up rank).positional
  | .infinite negative => signText negative ++ "inf"
  | .nan => "NaN"

end Binary64

end Bookkeeping
