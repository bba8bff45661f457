/-!
# Columns

A column belongs to a table. A collection rooted at a base table reads the columns of that
table directly and those of another table only after joining it.
-/

namespace Bookkeeping

/-- A column of a table. -/
structure Column where
  table : String
  name : String
  deriving DecidableEq

namespace Column

/-- Columns are ordered by table, then by name. -/
protected def compare (a b : Column) : Ordering :=
  (Ord.compare a.table b.table).then (Ord.compare a.name b.name)

/-- The table to join before the column can be read from the base table. -/
def relation? (column : Column) (baseTable : String) : Option String :=
  if column.table = baseTable then none else some column.table

/-- The qualified name. -/
def text (column : Column) : String :=
  column.table ++ "." ++ column.name

/-- Columns that compare equal are the same. -/
theorem compare_eq_iff {a b : Column} : a.compare b = .eq ↔ a = b := by
  obtain ⟨table, name⟩ := a
  obtain ⟨table', name'⟩ := b
  simp [Column.compare, Ordering.then_eq_eq]

/-- Columns are compared as pairs are, so their order is one. -/
instance : Std.TransCmp Column.compare :=
  inferInstanceAs (Std.TransCmp (compareLex (compareOn Column.table) (compareOn Column.name)))

end Column

end Bookkeeping
