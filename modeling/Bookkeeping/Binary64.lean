/-!
# Numbers of the binary64 format

A finite number of the format has a sign and one of `magnitudes` magnitudes. The magnitudes
are named by their rank: rank 0 is zero and the next rank is the next larger magnitude. Each
magnitude is a whole number of units, the unit being the least positive one, so that order,
rounding and printing need no arithmetic beyond that of the natural numbers.
-/

namespace Bookkeeping

/-- How many finite magnitudes there are: 2047 exponents with `2 ^ 52` fractions each. -/
def Binary64.magnitudes : Nat := 2047 <<< 52

/-- A number of the binary64 format. There is one "not a number". -/
inductive Binary64 where
  | finite (negative : Bool) (rank : Fin Binary64.magnitudes)
  | infinite (negative : Bool)
  | nan
  deriving DecidableEq

namespace Binary64

/-- How many units make one. -/
def unitsPerOne : Nat := 1 <<< 1074

/-- The magnitude of a rank in units. Below `2 ^ 53` neighbours differ by one unit, and the
distance doubles with every further `2 ^ 52` ranks. -/
def units (rank : Nat) : Nat :=
  let doublings := (rank >>> 52) - 1
  (rank - (doublings <<< 52)) <<< doublings

/-- The largest rank whose magnitude is at most so many units. -/
def rankBelow (amount : Nat) : Nat :=
  let doublings := amount.log2 - 52
  (doublings <<< 52) + (amount >>> doublings)

/-- Positive zero. -/
def zero (negative : Bool) : Binary64 :=
  .finite negative ⟨0, by decide⟩

def isFinite : Binary64 → Bool
  | .finite _ _ => true
  | _ => false

/-- Where a number stands on the line: its signed rank, the infinities one past the ends. The
two zeros share a place and "not a number" has none. -/
def place? : Binary64 → Option Int
  | .finite negative rank => some (if negative then -(rank.val : Int) else rank.val)
  | .infinite negative => some (if negative then -(magnitudes : Int) else magnitudes)
  | .nan => none

/-- How two numbers compare; none if one of them is no number. -/
def compare? (a b : Binary64) : Option Ordering :=
  match a.place?, b.place? with
  | some p, some q => some (compare p q)
  | _, _ => none

/-- The number's value, if it is a whole number. -/
def toInt? : Binary64 → Option Int
  | .finite negative rank =>
    let amount := units rank
    if amount % unitsPerOne = 0 then
      let whole := amount / unitsPerOne
      some (if negative then -(whole : Int) else whole)
    else
      none
  | _ => none

end Binary64

end Bookkeeping
