import Bookkeeping.Condition
import Bookkeeping.RuleError

/-!
# Conditions as flat rows

A forest of conditions is stored as rows that point at their parents. Flattening numbers the
nodes from 1, depth first. Rebuilding takes the rows without a parent as roots and orders
siblings by position, then by id; it refuses rows that are no forest, and says which row is at
fault.
-/

namespace Bookkeeping

/-- One stored condition. -/
structure ConditionRow where
  id : Nat
  parent : Option Nat
  /-- The order among siblings. -/
  position : Nat
  typeKey : String
  operator : String
  value : Option Value

namespace ConditionRow

/-- The type key of a row that holds children. -/
def compoundKey : String := "compound"

/-- Whether the row holds children. -/
def isCompound (row : ConditionRow) : Bool :=
  row.typeKey == compoundKey

/-- Siblings come by position, then by id. -/
def precedes (a b : ConditionRow) : Bool :=
  a.position < b.position || (a.position == b.position && a.id ≤ b.id)

/-- The row of an id. -/
def find? (rows : List ConditionRow) (id : Nat) : Option ConditionRow :=
  rows.find? (·.id == id)

/-- The rows below a parent, in order; the roots are below none. -/
def below (rows : List ConditionRow) (parent : Option Nat) : List ConditionRow :=
  (rows.filter (·.parent = parent)).mergeSort precedes

/-- The first id that an earlier row already has. -/
def repeatedId? : List Nat → List ConditionRow → Option Nat
  | _, [] => none
  | seen, row :: rows => if row.id ∈ seen then some row.id else repeatedId? (row.id :: seen) rows

/-- Whether the row is a root or below a row that holds children. -/
def isAttached (rows : List ConditionRow) (row : ConditionRow) : Bool :=
  match row.parent with
  | none => true
  | some parent => (find? rows parent).any isCompound

/-- Whether at most so many steps from row to parent lead to a root. -/
def isRooted (rows : List ConditionRow) : Nat → ConditionRow → Bool
  | steps, row =>
    match row.parent with
    | none => true
    | some parent =>
      match steps, find? rows parent with
      | steps + 1, some above => isRooted rows steps above
      | _, _ => false

/-- Follows parents until an id comes again, and gives the loop with that id at both ends. The
chain holds the ids passed so far. -/
def parentLoop (rows : List ConditionRow) : Nat → List Nat → ConditionRow → List Nat
  | 0, chain, _ => chain
  | steps + 1, chain, row =>
    if row.id ∈ chain then
      chain.dropWhile (· != row.id) ++ [row.id]
    else
      match row.parent.bind (find? rows) with
      | some above => parentLoop rows steps (chain ++ [row.id]) above
      | none => chain ++ [row.id]

/-- The leaf a row stands for. -/
def toLeaf (row : ConditionRow) : Except RuleError Condition :=
  match row.value with
  | some value => .ok (.leaf row.typeKey row.operator value)
  | none => .error (.invalidConditionValue row.typeKey "null" "a value is required")

/-- The conditions below a parent, to a depth that the number of rows bounds. -/
def build (rows : List ConditionRow) : Nat → Option Nat → Except RuleError (List Condition)
  | 0, _ => .ok []
  | depth + 1, parent =>
    (below rows parent).mapM fun row =>
      if row.isCompound then
        (build rows depth (some row.id)).map (.compound row.operator)
      else
        row.toLeaf

end ConditionRow

namespace Condition

open ConditionRow

/-- Rebuilds a forest from its rows. -/
def ofRows (rows : List ConditionRow) : Except RuleError (List Condition) := do
  if let some repeated := repeatedId? [] rows then
    throw (.duplicateId repeated)
  if let some stray := rows.find? (!isAttached rows ·) then
    throw (.orphaned stray.id)
  let forest ← build rows rows.length none
  match rows.find? (!isRooted rows rows.length ·) with
  | some row => throw (.cyclic (parentLoop rows (rows.length + 1) [] row))
  | none => return forest

mutual

/-- The rows of a node and of what is below it, numbered from `next` on, and the number after
theirs. -/
def flattenTree (next : Nat) (parent : Option Nat) (position : Nat) :
    Condition → List ConditionRow × Nat
  | .leaf typeKey operator value =>
    ([⟨next, parent, position, typeKey, operator, some value⟩], next + 1)
  | .compound operator children =>
    let (inside, after) := flattenForest (next + 1) (some next) 0 children
    (⟨next, parent, position, compoundKey, operator, none⟩ :: inside, after)

/-- The rows of siblings from a position on and of what is below them, numbered from `next` on, and
the number after theirs. -/
def flattenForest (next : Nat) (parent : Option Nat) (position : Nat) :
    List Condition → List ConditionRow × Nat
  | [] => ([], next)
  | condition :: rest =>
    let (rows, between) := flattenTree next parent position condition
    let (others, after) := flattenForest between parent (position + 1) rest
    (rows ++ others, after)

end

/-- Flattens a forest into rows. -/
def toRows (forest : List Condition) : List ConditionRow :=
  (flattenForest 1 none 0 forest).1

end Condition

end Bookkeeping
