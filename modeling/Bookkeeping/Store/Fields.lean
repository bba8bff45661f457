import Bookkeeping.Column
import Bookkeeping.Value

/-!
# Fields of a record

The values of a record by column, in column order. A column has at most one value; putting a
value replaces the one before.
-/

namespace Bookkeeping

/-- The values of a record. -/
structure Fields where
  entries : List (Column × Value)
  /-- The columns come in their order, so each comes once. -/
  ordered : entries.Pairwise fun a b => a.1.compare b.1 = .lt

namespace Fields

/-- No values. -/
def empty : Fields := ⟨[], .nil⟩

/-- The value of a column. -/
def get? (fields : Fields) (column : Column) : Option Value :=
  fields.entries.lookup column

/-- The entries with the value of one column set. -/
def putEntry (column : Column) (value : Value) : List (Column × Value) → List (Column × Value)
  | [] => [(column, value)]
  | entry :: rest =>
    match column.compare entry.1 with
    | .lt => (column, value) :: entry :: rest
    | .eq => (column, value) :: rest
    | .gt => entry :: putEntry column value rest

/-- Only the column that is set can be new among the entries. -/
theorem eq_or_mem_of_mem_putEntry {column : Column} {value : Value}
    {entries : List (Column × Value)} {entry : Column × Value}
    (h : entry ∈ putEntry column value entries) : entry.1 = column ∨ entry ∈ entries := by
  induction entries with
  | nil => exact .inl (congrArg Prod.fst (List.mem_singleton.1 h))
  | cons first rest ih =>
    unfold putEntry at h
    split at h
    · rcases List.mem_cons.1 h with rfl | h
      · exact .inl rfl
      · exact .inr h
    · rcases List.mem_cons.1 h with rfl | h
      · exact .inl rfl
      · exact .inr (List.mem_cons_of_mem _ h)
    · rcases List.mem_cons.1 h with rfl | h
      · exact .inr List.mem_cons_self
      · exact (ih h).imp_right (List.mem_cons_of_mem _)

/-- Setting a column keeps the columns in their order. -/
theorem ordered_putEntry (column : Column) (value : Value) {entries : List (Column × Value)}
    (h : entries.Pairwise fun a b => a.1.compare b.1 = .lt) :
    (putEntry column value entries).Pairwise fun a b => a.1.compare b.1 = .lt := by
  induction entries with
  | nil => exact List.pairwise_singleton ..
  | cons first rest ih =>
    obtain ⟨hfirst, hrest⟩ := List.pairwise_cons.1 h
    unfold putEntry
    split
    · rename_i hless
      refine List.pairwise_cons.2 ⟨fun entry hentry => ?_, h⟩
      rcases List.mem_cons.1 hentry with rfl | hentry
      · exact hless
      · exact Std.TransCmp.lt_trans hless (hfirst entry hentry)
    · rename_i hsame
      obtain rfl : column = first.1 := Column.compare_eq_iff.1 hsame
      exact List.pairwise_cons.2 ⟨hfirst, hrest⟩
    · rename_i hgreater
      refine List.pairwise_cons.2 ⟨fun entry hentry => ?_, ih hrest⟩
      rcases eq_or_mem_of_mem_putEntry hentry with hnew | hold
      · rw [hnew]
        exact Std.OrientedCmp.gt_iff_lt.1 hgreater
      · exact hfirst entry hold

/-- The fields with the value of one column set. -/
def put (fields : Fields) (column : Column) (value : Value) : Fields :=
  ⟨putEntry column value fields.entries, ordered_putEntry column value fields.ordered⟩

/-- The fields with the values of a list of columns set, one after another. -/
def putAll (fields : Fields) (values : List (Column × Value)) : Fields :=
  values.foldl (fun fields entry => fields.put entry.1 entry.2) fields

/-- A column is found among entries as it was set there. -/
theorem lookup_putEntry (entries : List (Column × Value)) (column other : Column)
    (value : Value) :
    (putEntry column value entries).lookup other =
      if other = column then some value else entries.lookup other := by
  have lookup_cons (c : Column) (v : Value) (rest : List (Column × Value)) :
      ((c, v) :: rest).lookup other = if other = c then some v else rest.lookup other := by
    by_cases h : other = c
    · simp [h]
    · simp [List.lookup_cons, beq_eq_false_iff_ne.2 h, h]
  induction entries with
  | nil => rw [putEntry, lookup_cons]
  | cons entry rest ih =>
    obtain ⟨c, v⟩ := entry
    unfold putEntry
    split
    · rw [lookup_cons]
    · rename_i hcompare
      obtain rfl : column = c := Column.compare_eq_iff.1 hcompare
      rw [lookup_cons, lookup_cons]
      by_cases h : other = column <;> simp [h]
    · rename_i hcompare
      have hne : c ≠ column := by
        rintro rfl
        rw [Column.compare_eq_iff.2 rfl] at hcompare
        cases hcompare
      rw [lookup_cons, lookup_cons, ih]
      by_cases h : other = c
      · simp [h, hne]
      · simp [h]

/-- A column holds what was put there last, and the others what they held. -/
theorem get?_put (fields : Fields) (column other : Column) (value : Value) :
    (fields.put column value).get? other =
      if other = column then some value else fields.get? other :=
  lookup_putEntry fields.entries column other value

end Fields

end Bookkeeping
