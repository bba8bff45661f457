/-!
# Ranges of case mappings

A case mapping of the character set moves most letters by a distance shared with their
neighbours. A `CaseRange` states one such run; a mapping is a list of runs, read in order.
-/

namespace Bookkeeping.Text

/-- A run of code points, `step` apart from `first` to `last`, that a case mapping moves by
the same `distance`. -/
structure CaseRange where
  first : Nat
  last : Nat
  step : Nat
  distance : Int

namespace CaseRange

/-- Whether the run holds the code point. -/
def covers (range : CaseRange) (code : Nat) : Bool :=
  range.first ≤ code && code ≤ range.last && (code - range.first) % range.step == 0

/-- The mapped code point: moved by the first run that covers it, else itself. -/
def map (ranges : List CaseRange) (code : Nat) : Nat :=
  match ranges.find? (·.covers code) with
  | some range => ((code : Int) + range.distance).toNat
  | none => code

end CaseRange

end Bookkeeping.Text
