import Bookkeeping.Predicate
import Bookkeeping.Store.Fields

/-!
# Records and collections

A collection describes a query over one owner's records: the tables joined and the filters to
pass, in order. Composing a collection reads nothing. A restriction may only read columns of
the base table and of joined tables; that is checked when the collection is used.
-/

namespace Bookkeeping

/-- A stored record. -/
structure Record where
  id : Nat
  owner : Nat
  fields : Fields
  /-- The columns locked by hand, which rules leave alone. -/
  locks : List Column

namespace Record

/-- Whether a column is locked. -/
def isLocked (record : Record) (column : Column) : Bool :=
  record.locks.contains column

/-- The record with the value of a column set. -/
def write (record : Record) (column : Column) (value : Value) : Record :=
  { record with fields := record.fields.put column value }

/-- The record with a column locked. -/
def lock (record : Record) (column : Column) : Record :=
  { record with locks := record.locks.insert column }

/-- The record with a column unlocked. -/
def unlock (record : Record) (column : Column) : Record :=
  { record with locks := record.locks.filter (· != column) }

end Record

/-- A record as it is read out of a collection. -/
structure Snapshot where
  id : Nat
  fields : Fields

/-- The record without its owner and locks. -/
def Record.snapshot (record : Record) : Snapshot :=
  ⟨record.id, record.fields⟩

/-- One condition for a record to belong to a collection. -/
inductive Filter where
  | restrict (predicate : Predicate)
  | unlocked (column : Column)
  | pinned (ids : List Nat)

/-- Whether a record passes a filter. -/
def Filter.passes (record : Record) : Filter → Bool
  | .restrict predicate => predicate.holds record.fields.get?
  | .unlocked column => !record.isLocked column
  | .pinned ids => ids.contains record.id

/-- A query over the records of one owner. -/
structure Collection where
  baseTable : String
  owner : Nat
  /-- The joined tables, in name order. -/
  joins : List String
  filters : List Filter

namespace Collection

/-- A sorted list of names with one more name, once. -/
def insertName (name : String) : List String → List String
  | [] => [name]
  | other :: rest =>
    match compare name other with
    | .lt => name :: other :: rest
    | .eq => other :: rest
    | .gt => other :: insertName name rest

/-- The collection with a table joined. -/
def join (collection : Collection) (table : String) : Collection :=
  { collection with joins := insertName table collection.joins }

/-- The collection with one more filter. -/
def filter (collection : Collection) (added : Filter) : Collection :=
  { collection with filters := collection.filters ++ [added] }

/-- The records of the collection that satisfy the predicate. -/
def restrict (collection : Collection) (predicate : Predicate) : Collection :=
  collection.filter (.restrict predicate)

/-- The records of the collection whose column is not locked. -/
def enrichable (collection : Collection) (column : Column) : Collection :=
  collection.filter (.unlocked column)

/-- The predicates among the filters, in order. -/
def restrictions (collection : Collection) : List Predicate :=
  collection.filters.filterMap fun
    | .restrict predicate => some predicate
    | _ => none

/-- The first column, in order of filters and of use, whose table would have to be joined, with
that table. -/
def missingJoin? (collection : Collection) : Option (Column × String) :=
  (collection.restrictions.flatMap Predicate.columns).findSome? fun column =>
    match column.relation? collection.baseTable with
    | some table => if table ∈ collection.joins then none else some (column, table)
    | none => none

/-- Whether a record belongs to the collection. -/
def selects (collection : Collection) (record : Record) : Bool :=
  record.owner == collection.owner && collection.filters.all (·.passes record)

end Collection

end Bookkeeping
