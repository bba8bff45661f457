import Bookkeeping.Store.Collection

/-!
# The record store

A store holds the records of all owners in insertion order and a log of every value that was
written through a collection. Records are numbered from 1 as they are inserted, and no
operation changes a number; a `Store` carries that fact.

Every use of a collection first checks that no join is missing. Writing goes through the
records once, and each is tested as it stood before it was written.
-/

namespace Bookkeeping

/-- One value written through a collection. -/
structure Enrichment where
  record : Nat
  column : Column
  value : Value
  source : String

/-- Why a store does not answer. -/
inductive StoreError where
  | missingJoin (column : Column) (relation : String)
  /-- The store failed for a reason of its own. -/
  | failed (message : String)
  deriving DecidableEq

/-- The wording of a failure. -/
def StoreError.message : StoreError → String
  | .missingJoin column relation =>
    "column '" ++ column.text ++ "' needs relation '" ++ relation ++ "', which was not joined"
  | .failed message => message

/-- The records of all owners, oldest first. -/
structure Store where
  baseTable : String
  /-- The values of columns that an insertion leaves out. -/
  defaults : Fields
  records : List Record
  /-- Every write through a collection, oldest first. -/
  log : List Enrichment
  numbered : records.map Record.id = List.range' 1 records.length

namespace Store

/-- A store without records. -/
def empty (baseTable : String) : Store :=
  ⟨baseTable, .empty, [], [], rfl⟩

/-- The store with the value that a column takes when an insertion leaves it out. -/
def withDefault (store : Store) (column : Column) (value : Value) : Store :=
  { store with defaults := store.defaults.put column value }

/-- The number the next record gets. -/
def nextId (store : Store) : Nat :=
  store.records.length + 1

/-- The store with one more record, in which later values of a column win. -/
def insert (store : Store) (owner : Nat) (values : List (Column × Value)) : Store :=
  { store with
    records := store.records ++ [⟨store.nextId, owner, store.defaults.putAll values, []⟩]
    numbered := by
      simp [store.numbered, List.range'_concat, nextId, Nat.add_comm] }

/-- The record of a number. -/
def find? (store : Store) (id : Nat) : Option Record :=
  store.records.find? (·.id == id)

/-- The value of a record in a column. -/
def get? (store : Store) (id : Nat) (column : Column) : Option Value :=
  (store.find? id).bind (·.fields.get? column)

/-- Whether a column of a record is locked; not if there is no such record. -/
def isLocked (store : Store) (id : Nat) (column : Column) : Bool :=
  (store.find? id).any (·.isLocked column)

/-- The store with its records changed, but not their numbers. -/
def mapRecords (store : Store) (change : Record → Record)
    (keeps : ∀ record, (change record).id = record.id) : Store :=
  { store with
    records := store.records.map change
    numbered := by
      have hcomp : Record.id ∘ change = Record.id := funext keeps
      simp [hcomp, store.numbered] }

/-- The store with a column of one record locked. -/
def lock (store : Store) (id : Nat) (column : Column) : Store :=
  store.mapRecords (fun record => if record.id = id then record.lock column else record)
    (by intro record; split <;> rfl)

/-- The store with a column of one record unlocked. -/
def unlock (store : Store) (id : Nat) (column : Column) : Store :=
  store.mapRecords (fun record => if record.id = id then record.unlock column else record)
    (by intro record; split <;> rfl)

/-- All records of an owner. -/
def collection (store : Store) (owner : Nat) : Collection :=
  ⟨store.baseTable, owner, [], []⟩

/-- The records that belong to a collection, oldest first. -/
def select (store : Store) (collection : Collection) : List Record :=
  store.records.filter collection.selects

/-- Refuses a collection that reads a table it has not joined. -/
def checkJoins (collection : Collection) : Except StoreError Unit :=
  match collection.missingJoin? with
  | some (column, relation) => .error (.missingJoin column relation)
  | none => .ok ()

/-- The collection of exactly the records that belong to this one now, whatever is written
later. -/
def pin (store : Store) (collection : Collection) : Except StoreError Collection := do
  checkJoins collection
  return { collection with filters := [.pinned ((store.select collection).map (·.id))] }

/-- How many records belong to the collection. -/
def count (store : Store) (collection : Collection) : Except StoreError Nat := do
  checkJoins collection
  return (store.select collection).length

/-- The records that belong to the collection, as they stand. -/
def snapshots (store : Store) (collection : Collection) : Except StoreError (List Snapshot) := do
  checkJoins collection
  return (store.select collection).map Record.snapshot

/-- The value a record of the collection is to get: what is offered for its number, if it
belongs to the collection. -/
def chosen? (collection : Collection) (offer : Nat → Option Value) (record : Record) :
    Option Value :=
  if collection.selects record then offer record.id else none

/-- The store after each record of the collection has got the value offered for its number, and
how many records were written. -/
def write (store : Store) (collection : Collection) (column : Column)
    (offer : Nat → Option Value) (source : String) : Nat × Store :=
  let written := store.records.filterMap fun record =>
    (chosen? collection offer record).map fun value => ⟨record.id, column, value, source⟩
  let after := store.mapRecords
    (fun record =>
      match chosen? collection offer record with
      | some value => record.write column value
      | none => record)
    (by intro record; split <;> rfl)
  (written.length, { after with log := store.log ++ written })

/-- Writes one value into a column of every record of the collection. -/
def updateAll (store : Store) (collection : Collection) (column : Column) (value : Value)
    (source : String) : Except StoreError (Nat × Store) := do
  checkJoins collection
  return store.write collection column (fun _ => some value) source

/-- The last value that a list of writes holds for a record. -/
def lastWrite? (writes : List (Nat × Value)) (id : Nat) : Option Value :=
  writes.reverse.lookup id

/-- Writes a value of its own into a column of each record of the collection that the list of
writes names; the last one counts. -/
def updateEach (store : Store) (collection : Collection) (column : Column)
    (writes : List (Nat × Value)) (source : String) : Except StoreError (Nat × Store) := do
  checkJoins collection
  return store.write collection column (lastWrite? writes) source

end Store

end Bookkeeping
