import Bookkeeping.Proofs.Condition.Joins
import Bookkeeping.Proofs.Predicate.FirstUse
import Mathlib.Data.List.Forall2

/-!
# What a collection reads

A predicate depends on a record through the columns it lists, and the check for missing joins looks
at all of them. So a collection that passes the check cannot tell records apart by the columns of a
table it has not joined. A lock is not the value of a column: the collection looks at the locks it
was narrowed by, whatever is joined.
-/

namespace Bookkeeping

namespace Collection

/-- The column belongs to the base table or to a joined one. -/
def Reaches (collection : Collection) (column : Column) : Prop :=
  column.table = collection.baseTable ∨ column.table ∈ collection.joins

/-- The records differ at most in the values of columns out of reach, and in locks that the
collection does not look at. -/
structure SeesAlike (collection : Collection) (record other : Record) : Prop where
  id_eq : record.id = other.id
  owner_eq : record.owner = other.owner
  get?_eq : ∀ column, collection.Reaches column →
    record.fields.get? column = other.fields.get? column
  isLocked_eq : ∀ column, .unlocked column ∈ collection.filters →
    record.isLocked column = other.isLocked column

variable {collection : Collection} {record other : Record}

private theorem joinsFor_iff {p : Predicate} :
    collection.JoinsFor p ↔ ∀ column ∈ p.columns, collection.Reaches column := by
  refine forall_congr' fun column => ?_
  rw [Predicate.mem_columns_iff]
  refine imp_congr_right fun _ => ?_
  by_cases hbase : column.table = collection.baseTable
  · simp [Column.relation?, Reaches, hbase]
  · simp [Column.relation?, Reaches, hbase]

/-- No join is missing when every column that a restriction reads is in reach. -/
theorem checkJoins_eq_ok_iff_reaches :
    Store.checkJoins collection = .ok () ↔
      ∀ p ∈ collection.restrictions, ∀ column ∈ p.columns, collection.Reaches column := by
  simp only [Store.checkJoins_eq_ok_iff, missingJoin?_eq_none_iff, joinsFor_iff]

/-- Records that it sees alike belong both to a collection without a missing join, or neither. -/
theorem SeesAlike.selects_eq (h : collection.SeesAlike record other)
    (hjoins : Store.checkJoins collection = .ok ()) :
    collection.selects record = collection.selects other := by
  refine selects_congr h.id_eq h.owner_eq (fun p hp column hcolumn => h.get?_eq column ?_)
    h.isLocked_eq
  exact checkJoins_eq_ok_iff_reaches.1 hjoins p hp column (Predicate.mem_columns_iff.2 hcolumn)

/-- Of lists of records that it sees alike, the collection has the same ones. -/
theorem forall₂_filter_selects (hjoins : Store.checkJoins collection = .ok ())
    {records others : List Record} (h : List.Forall₂ collection.SeesAlike records others) :
    List.Forall₂ collection.SeesAlike (records.filter collection.selects)
      (others.filter collection.selects) :=
  List.rel_filter (fun _ _ halike => iff_of_eq (congrArg (· = true) (halike.selects_eq hjoins))) h

end Collection

/-- The same records of two stores belong to a collection that sees them alike. -/
theorem Store.map_id_select_eq {store other : Store} {collection : Collection}
    (hjoins : checkJoins collection = .ok ())
    (h : List.Forall₂ collection.SeesAlike store.records other.records) :
    (store.select collection).map (·.id) = (other.select collection).map (·.id) := by
  have hids : List.Forall₂ (· = ·) ((store.select collection).map (·.id))
      ((other.select collection).map (·.id)) :=
    List.rel_map (fun _ _ halike => halike.id_eq) (Collection.forall₂_filter_selects hjoins h)
  rwa [List.forall₂_eq_eq_eq] at hids

/-- Lookups that agree on the columns of a predicate satisfy it both or neither, and these columns
are those of its leaves, each once, in the order of first use. So a collection that passes the check
for missing joins selects the same records of two stores that differ only in the values of columns
of tables it has not joined. -/
theorem Predicate.columns_suffice (p : Predicate) (collection : Collection)
    (store other : Store) :
    (∀ first second : Column → Option Value,
        (∀ column ∈ p.columns, first column = second column) → p.holds first = p.holds second) ∧
      p.FirstUses p.columns ∧
      (Store.checkJoins collection = .ok () →
        List.Forall₂ collection.SeesAlike store.records other.records →
          (store.select collection).map (·.id) = (other.select collection).map (·.id) ∧
            store.pin collection = other.pin collection) := by
  refine ⟨fun first second h => ?_, p.firstUses_columns, fun hjoins halike => ?_⟩
  · exact holds_congr fun column hcolumn => h column (mem_columns_iff.2 hcolumn)
  · have hids := Store.map_id_select_eq hjoins halike
    refine ⟨hids, ?_⟩
    rw [Store.pin, Store.pin, hids]

namespace Sample

/-- A purchase at one shop, which goes by some name. -/
def purchase (name : String) : Store :=
  Transaction.emptyStore.insert 1
    [(Transaction.merchant, .text "7"), (Transaction.name, .text name)]

/-- Purchases at this shop that are not excluded. -/
def atShop : Predicate :=
  .allOf [.compare Transaction.merchant .eq (.text "7"),
    .anyOf [.compare Transaction.excluded .eq (.flag false), .like Transaction.merchant "%7%"]]

/-- What the first owner bought there, without the names. -/
def boughtThere : Collection :=
  (Transaction.emptyStore.collection 1).restrict atShop

/-- The two purchases differ in their names, which the collection has not joined. -/
theorem seesAlike_boughtThere :
    List.Forall₂ boughtThere.SeesAlike (purchase "Lunch").records (purchase "Rent").records := by
  refine .cons ⟨rfl, rfl, fun column hreaches => ?_, fun column _ => rfl⟩ .nil
  have hne : column ≠ Transaction.name := by
    rintro rfl
    rcases hreaches with hbase | hjoined
    · exact absurd hbase (by decide)
    · cases hjoined
  have hput (name : String) :
      (Transaction.emptyStore.defaults.putAll
        [(Transaction.merchant, .text "7"), (Transaction.name, .text name)]).get? column =
      (Transaction.emptyStore.defaults.put Transaction.merchant (.text "7")).get? column :=
    (Fields.get?_put _ Transaction.name column (.text name)).trans (if_neg hne)
  exact (hput "Lunch").trans (hput "Rent").symm

end Sample

open Sample in
/-- What was bought at a shop is the same whatever it is called. -/
theorem Predicate.columns_suffice_atShop :
    atShop.columns = [Transaction.merchant, Transaction.excluded] ∧
      atShop.holds (fun column => if column = Transaction.name then none else some (.text "7")) =
        atShop.holds (fun _ => some (.text "7")) ∧
      Store.checkJoins boughtThere = .ok () ∧
      List.Forall₂ boughtThere.SeesAlike (purchase "Lunch").records (purchase "Rent").records ∧
      ((purchase "Lunch").select boughtThere).map (·.id) =
        ((purchase "Rent").select boughtThere).map (·.id) ∧
      ((purchase "Lunch").select boughtThere).map (·.id) = [1] ∧
      (purchase "Lunch").pin boughtThere = (purchase "Rent").pin boughtThere := by
  have hcolumns : atShop.columns = [Transaction.merchant, Transaction.excluded] := by
    decide +kernel
  have hjoins : Store.checkJoins boughtThere = .ok () := by decide +kernel
  obtain ⟨hholds, -, hselect⟩ :=
    atShop.columns_suffice boughtThere (purchase "Lunch") (purchase "Rent")
  obtain ⟨hids, hpin⟩ := hselect hjoins seesAlike_boughtThere
  refine ⟨hcolumns, hholds _ _ fun column hcolumn => if_neg ?_, hjoins, seesAlike_boughtThere,
    hids, by decide +kernel, hpin⟩
  rintro rfl
  rw [hcolumns] at hcolumn
  exact absurd hcolumn (by decide)

end Bookkeeping
