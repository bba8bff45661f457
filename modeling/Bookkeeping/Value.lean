import Bookkeeping.Binary64.Rounding
import Bookkeeping.Date
import Bookkeeping.Operator

/-!
# Values

The scalars that conditions, actions and records carry, and their order. Values of one kind
are ordered; a whole number and a decimal are compared as decimals, the whole number rounded
to the nearest one. Any other two values, and a decimal that is no number, are incomparable.
-/

namespace Bookkeeping

/-- A scalar value. -/
inductive Value where
  | int (n : Int64)
  | decimal (x : Binary64)
  | flag (b : Bool)
  | text (s : String)
  | date (d : Date)
  deriving DecidableEq

namespace Value

/-- The order of two values, if they have one. -/
def order? : Value → Value → Option Ordering
  | .int a, .int b => some (compare a.toInt b.toInt)
  | .decimal a, .decimal b => a.compare? b
  | .int a, .decimal b => (Binary64.ofInt a.toInt).compare? b
  | .decimal a, .int b => a.compare? (Binary64.ofInt b.toInt)
  | .flag a, .flag b => some (compare a b)
  | .text a, .text b => some (compare a b)
  | .date a, .date b => some (a.compare b)
  | _, _ => none

/-- Whether two values stand as the operator says; none if they cannot be compared or the
operator is no comparison. -/
def compare? (a : Value) (op : Operator) (b : Value) : Option Bool :=
  (a.order? b).bind op.accepts?

/-- Whether two values of one kind are equal, decimals as numbers. -/
def same : Value → Value → Bool
  | .decimal a, .decimal b => a.compare? b == some .eq
  | a, b => a = b

end Value

end Bookkeeping
