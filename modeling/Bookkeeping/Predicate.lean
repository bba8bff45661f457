import Bookkeeping.Column
import Bookkeeping.Like
import Bookkeeping.Value

/-!
# Predicates

A predicate restricts the records of a collection by the values of their columns. A whole
forest of conditions becomes one predicate. As with a missing value in a query, an atom on a
column without a value, or on a value that cannot be compared, does not hold.
-/

namespace Bookkeeping

/-- A restriction on records. -/
inductive Predicate where
  /-- No restriction. -/
  | all
  | compare (column : Column) (op : Operator) (value : Value)
  /-- The column holds a text that matches the pattern. -/
  | like (column : Column) (pattern : String)
  | allOf (parts : List Predicate)
  | anyOf (parts : List Predicate)

namespace Predicate

/-- The column holds a text that contains this text, whatever characters it has. -/
def contains (column : Column) (text : String) : Predicate :=
  .like column (String.ofList (Like.containing text.toList))

/-- Whether this is the predicate without restriction. -/
def isAll : Predicate → Bool
  | .all => true
  | _ => false

/-- The conjunction of predicates: parts without restriction drop out, and a single part stands
for itself. -/
def conjunction (parts : List Predicate) : Predicate :=
  match parts.filter (!·.isAll) with
  | [] => .all
  | [part] => part
  | parts => .allOf parts

/-- The disjunction of predicates: a part without restriction is all of it, and a single part
stands for itself. The disjunction of nothing holds nowhere. -/
def disjunction (parts : List Predicate) : Predicate :=
  if parts.any isAll then
    .all
  else
    match parts with
    | [part] => part
    | parts => .anyOf parts

mutual

/-- The columns the predicate reads, from left to right, one entry for each atom. -/
def atomColumns : Predicate → List Column
  | .all => []
  | .compare column _ _ => [column]
  | .like column _ => [column]
  | .allOf parts => partColumns parts
  | .anyOf parts => partColumns parts

/-- The columns a list of predicates reads. -/
def partColumns : List Predicate → List Column
  | [] => []
  | part :: parts => atomColumns part ++ partColumns parts

end

/-- The columns the predicate reads, each once, in the order of their first use. -/
def columns (p : Predicate) : List Column :=
  p.atomColumns.foldl (fun seen column => if column ∈ seen then seen else seen ++ [column]) []

/-- Whether a stored value satisfies a comparison. -/
def comparison (op : Operator) (value : Value) (stored : Option Value) : Bool :=
  (stored.bind (·.compare? op value)).getD false

/-- Whether a stored value is a text that matches the pattern. -/
def likeness (pattern : String) : Option Value → Bool
  | some (.text s) => Like.accepts pattern s
  | _ => false

mutual

/-- Whether a record, seen as the values of its columns, satisfies the predicate. -/
def holds (record : Column → Option Value) : Predicate → Bool
  | .all => true
  | .compare column op value => comparison op value (record column)
  | .like column pattern => likeness pattern (record column)
  | .allOf parts => holdsAll record parts
  | .anyOf parts => holdsAny record parts

/-- Whether a record satisfies every predicate of a list. -/
def holdsAll (record : Column → Option Value) : List Predicate → Bool
  | [] => true
  | part :: parts => holds record part && holdsAll record parts

/-- Whether a record satisfies some predicate of a list. -/
def holdsAny (record : Column → Option Value) : List Predicate → Bool
  | [] => false
  | part :: parts => holds record part || holdsAny record parts

end

/-- A list of parts holds together when each of them does. -/
theorem holdsAll_eq (record : Column → Option Value) (parts : List Predicate) :
    holdsAll record parts = parts.all (holds record) := by
  induction parts with
  | nil => simp [holdsAll]
  | cons part parts ih => simp [holdsAll, ih]

/-- A list of parts holds in part when one of them does. -/
theorem holdsAny_eq (record : Column → Option Value) (parts : List Predicate) :
    holdsAny record parts = parts.any (holds record) := by
  induction parts with
  | nil => simp [holdsAny]
  | cons part parts ih => simp [holdsAny, ih]

end Predicate

end Bookkeeping
