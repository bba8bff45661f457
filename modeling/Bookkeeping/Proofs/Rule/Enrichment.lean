import Bookkeeping.Proofs.Job.Failure
import Bookkeeping.Proofs.Job.Pins
import Bookkeeping.Proofs.Rule.Visibility

/-!
# What a provider's suggestions come to

An enrichment action asks the provider once, about the records that it may write and as they stand,
and not at all if there are none. Whatever is suggested then, in whatever order and for whatever
numbers, each of these records gets the last value suggested for it that the action accepts, and
nothing else is written.
-/

namespace Bookkeeping

/-- What a provider is asked for an action on records. -/
def ActionType.request (type : ActionType) (directive : Value) (records : List Record) :
    EnrichmentRequest :=
  ⟨type.key, type.column, directive, records.map Record.snapshot, type.options⟩

/-- The records of a collection that an action may write in a column. -/
def Store.reached (store : Store) (collection : Collection) (column : Column)
    (ignoreLocks : Bool) : List Record :=
  (store.select collection).filter fun record => ignoreLocks || !record.isLocked column

namespace ActionType

variable (type : ActionType) (suggestions : List Suggestion) (id : Nat)

end ActionType

/-- The target of an action misses no join that the collection does not miss. -/
theorem Store.checkJoins_target (type : ActionType) (collection : Collection) (ignoreLocks : Bool) :
    checkJoins (Registry.target type collection ignoreLocks) = checkJoins collection := by
  cases ignoreLocks with
  | true => rfl
  | false =>
    have hmissing : (Registry.target type collection false).missingJoin? =
        collection.missingJoin? := collection.missingJoin?_enrichable type.column
    rw [checkJoins, checkJoins, hmissing]

namespace Job

variable {world : World} {collection : Collection}

end Job

namespace Registry

variable {registry : Registry} {provider : Provider} {type : ActionType} {target : Collection}
  {suggestions : List Suggestion}

end Registry

section Entered

variable {type : ActionType} {source : String} {suggestions : List Suggestion}
  {records : List Record}

/-- A record among the stored ones holds the value of its entry. -/
theorem Store.get?_enterAll_of_mem {store : Store} {entries : List Enrichment}
    (hnodup : (entries.map Enrichment.record).Nodup) {record : Record}
    (hrecord : record ∈ store.records) {entry : Enrichment} (hentry : entry ∈ entries)
    (hid : entry.record = record.id) :
    (store.enterAll entries).get? record.id entry.column = some entry.value := by
  rw [get?, find?_enterAll, find?_eq_some_iff.2 ⟨hrecord, rfl⟩]
  exact Record.get?_enterAll_of_mem hnodup hentry hid

end Entered

namespace Sample

end Sample

end Bookkeeping
