import Bookkeeping.Proofs.Job.Steadiness
import Bookkeeping.Proofs.Rule.Application

/-!
# Uses of a collection

The records of a collection are pinned, counted and read, and written with one value or each with
its own. All of these uses ask for the same joins and go by the same records, those that belong to
the collection before the use. So either all fail for the same missing join and change nothing, or
they agree on how many records there are, which, and what is written into them.
-/

namespace Bookkeeping

/-- The collection that a call uses. -/
def Call.collection? : Call → Option Collection
  | .pin collection => some collection
  | .count collection => some collection
  | .records collection => some collection
  | .updateAll collection .. => some collection
  | .updateEach collection .. => some collection
  | .suggest .. => none

namespace Store

/-- A collection that cannot be used misses a join. -/
theorem exists_missingJoin_of_checkJoins {collection : Collection} {cause : StoreError}
    (h : checkJoins collection = .error cause) :
    ∃ column table, cause = .missingJoin column table := by
  unfold checkJoins at h
  split at h
  · exact ⟨_, _, (Except.error.inj h).symm⟩
  · cases h

/-- A list of writes that gives one value to a record, whatever else it gives, gives it last. -/
theorem lastWrite?_eq_some {writes : List (Nat × Value)} {value : Value} {id : Nat}
    (hvalue : ∀ write ∈ writes, write.2 = value) (hid : id ∈ writes.map Prod.fst) :
    lastWrite? writes id = some value := by
  cases hlast : lastWrite? writes id with
  | none =>
    obtain ⟨write, hwrite, rfl⟩ := List.mem_map.1 hid
    have hother := List.lookup_eq_none_iff.1 hlast write (List.mem_reverse.2 hwrite)
    simp at hother
  | some last => rw [← hvalue _ (mem_of_lastWrite?_eq_some hlast)]

/-- One and the same value listed for each record, in any order, is entered for all of them. -/
theorem entriesFor_lastWrite?_of_perm {ids : List Nat} {writes : List (Nat × Value)}
    {value : Value} (h : writes.Perm (ids.map (·, value))) (column : Column) (source : String) :
    entriesFor ids column (lastWrite? writes) source =
      ids.map fun id => ⟨id, column, value, source⟩ := by
  have hvalue : ∀ write ∈ writes, write.2 = value := by
    intro write hwrite
    obtain ⟨id, -, rfl⟩ := List.mem_map.1 (h.subset hwrite)
    rfl
  have hlisted : ∀ id ∈ ids, id ∈ writes.map Prod.fst := fun id hid =>
    List.mem_map.2 ⟨(id, value), h.symm.subset (List.mem_map_of_mem hid), rfl⟩
  rw [← entriesFor_some, entriesFor, entriesFor]
  refine List.filterMap_congr fun id hid => ?_
  rw [lastWrite?_eq_some hvalue (hlisted id hid)]

end Store

namespace World

/-- The call is answered so, and adds these entries to the store. -/
def Completes (world : World) (call : Call) (answer : call.Answer)
    (entries : List Enrichment) : Prop :=
  ∃ after, world.answer .none call = (.ok answer, after) ∧
    after.store = world.store.enterAll entries

/-- The call fails for the cause, and leaves the store as it is. -/
def Fails (world : World) (call : Call) (cause : Failure) : Prop :=
  ∃ after, world.answer .none call = (.error cause, after) ∧ after.store = world.store

/-- The uses of the collection agree on its records. -/
structure Agrees (world : World) (collection : Collection) (records : List Snapshot) : Prop where
  reads : world.Completes (.records collection) records []
  counts : world.Completes (.count collection) records.length []
  pins : ∃ pinned, world.Completes (.pin collection) pinned [] ∧
    world.Completes (.records pinned) records []
  /-- The records that are written are those read before, whatever column is written. -/
  updatesAll : ∀ column value source,
    world.Completes (.updateAll collection column value source) records.length
      (records.map fun record => ⟨record.id, column, value, source⟩)
  /-- The last value listed for a record counts, if the record was among those read before. -/
  updatesEach : ∀ column writes source,
    let entries := entriesFor (records.map Snapshot.id) column (Store.lastWrite? writes) source
    world.Completes (.updateEach collection column writes source) entries.length entries
  /-- To list one value for each record, in any order, is to write it into all of them. -/
  updatesEach_eq : ∀ column value source (writes : List (Nat × Value)),
    writes.Perm (records.map fun record => (record.id, value)) →
      world.Completes (.updateEach collection column writes source) records.length
        (records.map fun record => ⟨record.id, column, value, source⟩)

variable {world : World} {collection : Collection}

/-- A use of the store that the store refuses leaves it as it is. -/
theorem exists_useStore_eq_error {α : Type} {op : Operation}
    {use : Store → Except StoreError (α × Store)} {cause : StoreError}
    (h : use world.store = .error cause) :
    ∃ after, world.useStore .none op use = (.error (.store cause), after) ∧
      after.store = world.store := by
  refine ⟨{ world with calls := op :: world.calls }, ?_, rfl⟩
  simp only [useStore, Outage.none, h]

private theorem exists_readStore_eq_error {α : Type} {op : Operation}
    {read : Store → Except StoreError α} {cause : StoreError}
    (h : read world.store = .error cause) :
    ∃ after, world.readStore .none op read = (.error (.store cause), after) ∧
      after.store = world.store :=
  exists_useStore_eq_error (map_eq_error_iff.2 h)

/-- A use of a collection that misses a join fails for that. -/
theorem fails_of_checkJoins {cause : StoreError}
    (h : Store.checkJoins collection = .error cause) {call : Call}
    (hcall : call.collection? = some collection) : world.Fails call (.store cause) := by
  have hfails {α : Type} (next : Unit → Except StoreError α) :
      (Store.checkJoins collection >>= next) = .error cause := by
    rw [h, error_bind]
  cases call with
  | suggest => cases hcall
  | pin =>
    obtain rfl := Option.some.inj hcall
    exact exists_readStore_eq_error (hfails _)
  | count =>
    obtain rfl := Option.some.inj hcall
    exact exists_readStore_eq_error (hfails _)
  | records =>
    obtain rfl := Option.some.inj hcall
    exact exists_readStore_eq_error (hfails _)
  | updateAll =>
    obtain rfl := Option.some.inj hcall
    simp only [Fails, answer]
    exact exists_useStore_eq_error (hfails _)
  | updateEach =>
    obtain rfl := Option.some.inj hcall
    simp only [Fails, answer]
    exact exists_useStore_eq_error (hfails _)

/-- The uses of a collection that misses no join agree. -/
theorem agrees_of_checkJoins (h : Store.checkJoins collection = .ok ()) :
    world.Agrees collection ((world.store.select collection).map Record.snapshot) := by
  let records := (world.store.select collection).map Record.snapshot
  have hlength : records.length = (world.store.select collection).length := List.length_map ..
  have hids : records.map Snapshot.id = (world.store.select collection).map Record.id :=
    List.map_map ..
  have hentries (column : Column) (offer : Nat → Option Value) (source : String) :
      entriesFor (records.map Snapshot.id) column offer source =
        world.store.entries collection column offer source := by
    rw [hids, Store.entries]
  have hevery (column : Column) (value : Value) (source : String) :
      records.map (fun record => (⟨record.id, column, value, source⟩ : Enrichment)) =
        (records.map Snapshot.id).map fun id => ⟨id, column, value, source⟩ := by
    simp only [List.map_map, Function.comp_def]
  refine ⟨?_, ?_, ⟨world.store.pinned collection, ?_, ?_⟩, ?_, ?_, ?_⟩
  · exact @answer_of_serves world (.records collection) _ _ h ⟨h, rfl, rfl⟩
  · exact @answer_of_serves world (.count collection) _ _ h ⟨h, hlength, rfl⟩
  · exact @answer_of_serves world (.pin collection) _ _ h ⟨h, rfl, rfl⟩
  · have hpinned : world.store.select (world.store.pinned collection) =
        world.store.select collection := (Store.select_pinned []).trans (List.map_id _)
    exact @answer_of_serves world (.records (world.store.pinned collection)) _ _ rfl
      ⟨rfl, by rw [hpinned], rfl⟩
  · intro column value source
    refine @answer_of_serves world (.updateAll collection column value source) _ _ h
      ⟨h, (List.length_map ..).symm, ?_⟩
    rw [hevery, ← entriesFor_some, hentries]
  · intro column writes source
    exact @answer_of_serves world (.updateEach collection column writes source) _ _ h
      ⟨h, rfl, hentries ..⟩
  · intro column value source writes hwrites
    have hperm : writes.Perm ((records.map Snapshot.id).map (·, value)) := by
      rw [List.map_map]
      exact hwrites
    refine @answer_of_serves world (.updateEach collection column writes source) _ _ h
      ⟨h, (List.length_map ..).symm, ?_⟩
    rw [hevery, ← Store.entriesFor_lastWrite?_of_perm hperm, hentries]

/-- **Uses of a collection.** Either every use of a collection fails for one and the same missing
join and leaves the store as it is, or the uses agree: they are answered with the records that
belong to the collection before the use, their number, or that many writes into them. -/
theorem uses_agree (world : World) (collection : Collection) :
    (∃ column table, ∀ call : Call, call.collection? = some collection →
      world.Fails call (.store (.missingJoin column table))) ∨
    world.Agrees collection ((world.store.select collection).map Record.snapshot) := by
  cases hjoins : Store.checkJoins collection with
  | error cause =>
    obtain ⟨column, table, rfl⟩ := Store.exists_missingJoin_of_checkJoins hjoins
    exact .inl ⟨column, table, fun call => fails_of_checkJoins hjoins⟩
  | ok => exact .inr (agrees_of_checkJoins hjoins)

end World

/-- Both records are written, though the value written is not the one asked for; afterwards none
belongs to the collection. -/
example :
    let column : Column := ⟨"transactions", "merchant_id"⟩
    let store := ((Store.empty "transactions").insert 1 [(column, .text "m1")]).insert 1
      [(column, .text "m1")]
    let collection := (store.collection 1).restrict (.compare column .eq (.text "m1"))
    (store.updateAll collection column (.text "m2") "rule").toOption.map
      (fun (written, after) => (written, (after.count collection).toOption)) =
        some (2, some 0) := by
  decide

end Bookkeeping
