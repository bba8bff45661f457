import Bookkeeping.Text.Join
import Bookkeeping.Text.UpperCase
import Bookkeeping.Value.Coercion

/-!
# Conditions

A condition is a tree. Its type keys and operators are kept as the text they were authored or
stored with; they get their meaning from a catalog each time the tree is evaluated, so stale
text fails there and never widens a match.
-/

namespace Bookkeeping

/-- One node of a condition tree. -/
inductive Condition where
  | leaf (typeKey operator : String) (value : Value)
  /-- The children are in the order the author arranged them. -/
  | compound (operator : String) (children : List Condition)

namespace Condition

mutual

/-- The nesting of compound nodes: none for a leaf. -/
def depth : Condition → Nat
  | .leaf _ _ _ => 0
  | .compound _ children => 1 + forestDepth children

/-- The greatest depth in a forest. -/
def forestDepth : List Condition → Nat
  | [] => 0
  | condition :: rest => max (depth condition) (forestDepth rest)

end

def isCompound : Condition → Bool
  | .leaf _ _ _ => false
  | .compound _ _ => true

/-- A leaf with one of the operators of the closed set. -/
def atom (typeKey : String) (op : Operator) (value : Value) : Condition :=
  .leaf typeKey op.key value

/-- The children joined by a connective. -/
def joined (op : Connective) (children : List Condition) : Condition :=
  .compound op.key children

/-- All of the conditions. -/
def all (children : List Condition) : Condition :=
  joined .and children

/-- Some of the conditions. -/
def any (children : List Condition) : Condition :=
  joined .or children

/-- Joins two conditions. A left one that is already joined that way takes the other as its last
child and keeps the spelling of its operator. -/
def combine (op : Connective) (left right : Condition) : Condition :=
  match left with
  | .compound operator children =>
    if Connective.ofKey? operator = some op then
      .compound operator (children ++ [right])
    else
      joined op [left, right]
  | .leaf _ _ _ => joined op [left, right]

/-- Both conditions. -/
def and (left right : Condition) : Condition :=
  combine .and left right

/-- One of the conditions, or both. -/
def or (left right : Condition) : Condition :=
  combine .or left right

mutual

/-- The condition as it is shown: operators between children in upper case, in parentheses. -/
def display : Condition → String
  | .leaf typeKey operator value => typeKey ++ " " ++ operator ++ " " ++ value.display
  | .compound operator children =>
    "(" ++ Text.joinWith (" " ++ Text.upper operator ++ " ") (displays children) ++ ")"

/-- The conditions of a forest as they are shown. -/
def displays : List Condition → List String
  | [] => []
  | condition :: rest => display condition :: displays rest

end

end Condition

end Bookkeeping
