/-!
# Operators

Rules store their operators as text. The closed sets here are reached from text only through
`ofKey?`, so a text that names no operator never takes part in a comparison.
-/

namespace Bookkeeping

/-- How a leaf condition compares a column with its value. -/
inductive Operator where
  /-- Contains as a substring, letter case aside. -/
  | like
  | eq
  | gt
  | gte
  | lt
  | lte
  deriving DecidableEq

namespace Operator

/-- Every operator, in the order of lists shown to authors. -/
def all : List Operator := [.like, .eq, .gt, .gte, .lt, .lte]

/-- The text an operator is stored as. -/
def key : Operator → String
  | .like => "like"
  | .eq => "="
  | .gt => ">"
  | .gte => ">="
  | .lt => "<"
  | .lte => "<="

/-- The wording shown to authors. -/
def label : Operator → String
  | .like => "contains"
  | .eq => "is equal to"
  | .gt => "is greater than"
  | .gte => "is greater than or equal to"
  | .lt => "is less than"
  | .lte => "is less than or equal to"

/-- The operator stored as this text. -/
def ofKey? (key : String) : Option Operator :=
  all.find? (·.key == key)

/-- Whether an ordering is what the operator asks for; `like` asks for none. -/
def accepts? : Operator → Ordering → Option Bool
  | .like, _ => none
  | .eq, found => some (found == .eq)
  | .gt, found => some (found == .gt)
  | .gte, found => some (found != .lt)
  | .lt, found => some (found == .lt)
  | .lte, found => some (found != .gt)

/-- The list has every operator. -/
theorem mem_all (op : Operator) : op ∈ all := by
  cases op <;> decide

/-- The key of an operator is read as that operator. -/
@[simp]
theorem ofKey?_key (op : Operator) : ofKey? op.key = some op := by
  cases op <;> decide

end Operator

/-- How a compound condition joins its children. -/
inductive Connective where
  | and
  | or
  deriving DecidableEq

namespace Connective

/-- The text a connective is stored as. -/
def key : Connective → String
  | .and => "and"
  | .or => "or"

/-- The connective as it is shown. -/
def display : Connective → String
  | .and => "AND"
  | .or => "OR"

/-- The connective stored as this text, in any case of the ASCII letters. -/
def ofKey? (key : String) : Option Connective :=
  let name := key.toList.map Char.toLower
  if name = ['a', 'n', 'd'] then some .and
  else if name = ['o', 'r'] then some .or
  else none

/-- The key of a connective is read as that connective. -/
@[simp]
theorem ofKey?_key (op : Connective) : ofKey? op.key = some op := by
  cases op <;> decide

end Connective

end Bookkeeping
