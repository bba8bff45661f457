import Bookkeeping.Text.Numeral
import Bookkeeping.Binary64

/-!
# Shortest decimal text

A finite number is written with the fewest decimal digits that round back to it, and of all
decimals with that many digits with the nearest one. The decimals that round to a magnitude
fill the interval between the midpoints to its neighbours, ends included when its rank is even;
the search goes through the decimal grids from coarse to fine and stops at the first that has
a point inside. Which of two equally near points is taken, and where an exponent is written,
is for the format that prints the number to say.
-/

namespace Bookkeeping

/-- The decimal `digits * 10 ^ exponent`. -/
structure Decimal where
  digits : Nat
  exponent : Int
  deriving DecidableEq

/-- Which of two equally near decimals is taken. -/
inductive Tie where
  | up
  | even
  deriving DecidableEq

namespace Binary64

/-- The magnitude of a rank, its two midpoints to the neighbours and whether these round to it,
seen on the grid of multiples of `10 ^ exponent`: all three numbers have denominator
`denominator`. -/
structure OnGrid where
  low : Nat
  value : Nat
  high : Nat
  denominator : Nat
  closed : Bool

/-- The view of a rank on a grid. Midpoints count in half units. -/
def onGrid (rank : Nat) (exponent : Int) : OnGrid :=
  let up := Nat.pow 10 (-exponent).toNat
  let down := Nat.pow 10 exponent.toNat
  { low := (units (rank - 1) + units rank) * up
    value := 2 * units rank * up
    high := (units rank + units (rank + 1)) * up
    denominator := 2 * unitsPerOne * down
    closed := rank % 2 = 0 }

/-- Whether a point of the grid rounds to the magnitude. -/
def OnGrid.holds (view : OnGrid) (point : Nat) : Bool :=
  let scaled := point * view.denominator
  if view.closed then
    view.low ≤ scaled && scaled ≤ view.high
  else
    view.low < scaled && scaled < view.high

/-- The grid point nearest to the magnitude among those that round to it, if any does. -/
def OnGrid.nearest? (view : OnGrid) (tie : Tie) : Option Nat :=
  let below := view.value / view.denominator
  let above := below + 1
  let upward :=
    let toBelow := view.value - below * view.denominator
    let toAbove := above * view.denominator - view.value
    if toBelow < toAbove then false
    else if toAbove < toBelow then true
    else match tie with
      | .up => true
      | .even => below % 2 = 1
  match view.holds below, view.holds above with
  | true, true => some (if upward then above else below)
  | true, false => some below
  | false, true => some above
  | false, false => none

/-- Searches the grids of exponents `fineness - 1074`, from this fineness to the finest, on
which every magnitude is a point. -/
def searchGrids (tie : Tie) (rank : Nat) : Nat → Decimal
  | 0 => ⟨units rank * Nat.pow 5 1074, -1074⟩
  | fineness + 1 =>
    let exponent : Int := (fineness + 1 : Nat) - 1074
    match (onGrid rank exponent).nearest? tie with
    | some digits => ⟨digits, exponent⟩
    | none => searchGrids tie rank fineness

/-- A grid too coarse to have a point other than zero near the magnitude. -/
def coarsest (rank : Nat) : Nat :=
  ((units rank).log2 * 30103 / 100000) + 752

/-- The shortest decimal that rounds to the magnitude of a rank. -/
def shortest (tie : Tie) (rank : Nat) : Decimal :=
  if rank = 0 then ⟨0, 0⟩ else searchGrids tie rank (coarsest rank)

end Binary64

end Bookkeeping
