import Bookkeeping.Predicate
import Bookkeeping.Text.Join
import Bookkeeping.Text.Numeral

/-!
# Predicates as SQL

A predicate is written as a boolean expression with numbered placeholders. Values stand only
in the list of binds, in the order of their placeholders; identifiers are quoted. A conjunction
or disjunction is always in parentheses, so the expression can be read without precedence.
-/

namespace Bookkeeping

/-- A boolean expression and the values of its placeholders. -/
structure Sql where
  clause : String
  binds : List Value

namespace Predicate

/-- An identifier in double quotes, a quote in it written twice. -/
def quoted (identifier : String) : String :=
  "\"" ++ String.ofList (identifier.toList.flatMap fun c => if c = '"' then ['"', '"'] else [c])
    ++ "\""

/-- A column with both its names quoted. -/
def quotedColumn (column : Column) : String :=
  quoted column.table ++ "." ++ quoted column.name

/-- The placeholder of a number. -/
def placeholder (number : Nat) : String :=
  "$" ++ Text.natText number

mutual

/-- The values of the predicate's atoms, from left to right. -/
def binds : Predicate → List Value
  | .all => []
  | .compare _ _ value => [value]
  | .like _ pattern => [.text pattern]
  | .allOf parts => partBinds parts
  | .anyOf parts => partBinds parts

/-- The values of the atoms of a list of predicates. -/
def partBinds : List Predicate → List Value
  | [] => []
  | part :: parts => binds part ++ partBinds parts

end

/-- Clauses joined in parentheses; a joint without clauses is a constant. -/
def joinClauses (separator constant : String) : List String → String
  | [] => constant
  | clauses => "(" ++ Text.joinWith separator clauses ++ ")"

mutual

/-- The clause of the predicate, its placeholders numbered from `next`. -/
def clauseFrom (next : Nat) : Predicate → String
  | .all => "TRUE"
  | .compare column op _ => quotedColumn column ++ " " ++ op.key ++ " " ++ placeholder next
  | .like column _ => quotedColumn column ++ " ILIKE " ++ placeholder next ++ " ESCAPE '\\'"
  | .allOf parts => joinClauses " AND " "TRUE" (partClauses next parts)
  | .anyOf parts => joinClauses " OR " "FALSE" (partClauses next parts)

/-- The clauses of a list of predicates, one after another. -/
def partClauses (next : Nat) : List Predicate → List String
  | [] => []
  | part :: parts => clauseFrom next part :: partClauses (next + (binds part).length) parts

end

/-- The predicate as an expression whose placeholders count from 1. -/
def toSql (p : Predicate) : Sql :=
  ⟨p.clauseFrom 1, p.binds⟩

end Predicate

end Bookkeeping
