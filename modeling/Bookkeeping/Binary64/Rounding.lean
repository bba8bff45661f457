import Bookkeeping.Binary64

/-!
# Rounding to binary64

A ratio is rounded to the nearest number of the format; of two equally near ones the one of
even rank is taken, and a magnitude that would round past the last finite one is infinite.
Whole numbers and decimals are read through this one function.
-/

namespace Bookkeeping.Binary64

/-- The rank nearest to `num / den`, with ties to the even rank. The rank may lie past the
finite magnitudes. -/
def nearestRank (num den : Nat) : Nat :=
  let amount := num * unitsPerOne
  let below := rankBelow (amount / den)
  let middle := (units below + units (below + 1)) * den
  if 2 * amount < middle then
    below
  else if middle < 2 * amount then
    below + 1
  else
    below + below % 2

/-- The magnitude of a rank with a sign, infinite past the finite magnitudes. -/
def ofRank (negative : Bool) (rank : Nat) : Binary64 :=
  if h : rank < magnitudes then .finite negative ⟨rank, h⟩ else .infinite negative

/-- The number nearest to `num / den`. -/
def ofRatio (negative : Bool) (num den : Nat) : Binary64 :=
  ofRank negative (nearestRank num den)

/-- The number nearest to an integer. -/
def ofInt (z : Int) : Binary64 :=
  ofRatio (z < 0) z.natAbs 1

/-- The number nearest to `digits * 10 ^ exponent`. A value at or above `10 ^ 401` is infinite
and one below `10 ^ (-400)` is zero, and neither needs its power of ten computed. -/
def ofDecimal (negative : Bool) (digits : Nat) (exponent : Int) : Binary64 :=
  if digits = 0 then
    zero negative
  else if 400 < exponent then
    .infinite negative
  else if exponent < -((digits.log2 : Int) + 400) then
    zero negative
  else if 0 ≤ exponent then
    ofRatio negative (digits * Nat.pow 10 exponent.toNat) 1
  else
    ofRatio negative digits (Nat.pow 10 (-exponent).toNat)

end Bookkeeping.Binary64
