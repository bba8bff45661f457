import Bookkeeping.Proofs.Job.History

/-!
# Pinned collections last

A pinned collection asks of a record its owner and its number. Neither is ever changed, and records
that are inserted later have numbers of their own. So whatever happens to the store, the records of
a pinned collection are those it was pinned with.
-/

namespace Bookkeeping

/-- The number and the owner of each record. -/
def Store.roster (store : Store) : List (Nat × Nat) :=
  store.records.map fun record => (record.id, record.owner)

namespace Store

variable {store later : Store} {collection : Collection} {column : Column}

private theorem map_fst_roster (store : Store) :
    store.roster.map Prod.fst = store.records.map Record.id := by
  rw [roster, List.map_map]
  rfl

/-- Writes leave the roster as it is. -/
theorem WrittenFrom.roster_eq (h : later.WrittenFrom store) : later.roster = store.roster := by
  obtain ⟨entries, rfl, -⟩ := h
  rw [roster, records_enterAll, List.map_map, roster]
  refine List.map_congr_left fun record _ => ?_
  rw [Function.comp_apply, Record.id_enterAll, Record.owner_enterAll]

/-- Changes that keep numbers and owners leave the roster as it is. -/
theorem roster_mapRecords (store : Store) {change : Record → Record}
    (keeps : ∀ record, (change record).id = record.id)
    (howner : ∀ record, (change record).owner = record.owner) :
    (store.mapRecords change keeps).roster = store.roster := by
  rw [roster, roster, mapRecords, List.map_map]
  simp only [Function.comp_def, keeps, howner]

/-- What is done by hand leaves the roster, or puts a record at its end. -/
theorem roster_prefix_byHand (store : Store) (event : Event) :
    store.roster <+: (store.byHand event).roster := by
  cases event with
  | edit edit =>
    cases edit with
    | insert owner values =>
      rw [byHand, Store.edit, insert, roster, roster, List.map_append]
      exact List.prefix_append ..
    | lock id column =>
      have hsame : (store.lock id column).roster = store.roster :=
        roster_mapRecords _ _ fun record => by split <;> rfl
      exact hsame ▸ List.prefix_rfl
    | unlock id column =>
      have hsame : (store.unlock id column).roster = store.roster :=
        roster_mapRecords _ _ fun record => by split <;> rfl
      exact hsame ▸ List.prefix_rfl
  | _ => exact List.prefix_rfl

end Store

/-- The roster only grows, at its end. -/
theorem World.roster_prefix_happenAll (outage : Outage) (world : World) (events : List Event) :
    world.store.roster <+: (world.happenAll outage events).store.roster := by
  induction events generalizing world with
  | nil => exact List.prefix_rfl
  | cons event rest ih =>
    have hevent : world.store.roster <+: (world.happen outage event).store.roster := by
      rw [(world.writtenFrom_happen outage event).roster_eq]
      exact world.store.roster_prefix_byHand event
    exact hevent.trans (ih _)

/-- Further narrowing to records whose columns are not locked asks for no other join. -/
theorem Collection.missingJoin?_enrichable (collection : Collection) (column : Column) :
    (collection.enrichable column).missingJoin? = collection.missingJoin? := by
  have hrestrictions : (collection.enrichable column).restrictions = collection.restrictions := by
    simp [enrichable, filter, restrictions, List.filterMap_append]
  rw [missingJoin?, missingJoin?, hrestrictions]
  rfl

namespace Store

variable {store later : Store} {collection : Collection}

/-- Which records a pinned collection has can be told from the roster. -/
theorem map_id_select_eq_filter_roster (later store : Store) (collection : Collection) :
    (later.select (store.pinned collection)).map Record.id =
      (later.roster.filter fun listed => listed.2 == collection.owner &&
        ((store.select collection).map Record.id).contains listed.1).map Prod.fst := by
  rw [roster, List.filter_map, List.map_map, select]
  congr 1
  refine List.filter_congr fun record _ => ?_
  simp only [pinned, Collection.selects, List.all_cons, List.all_nil, Filter.passes,
    Bool.and_true, Function.comp_apply]

/-- As long as the roster only grows, a pinned collection has the records it was pinned with. -/
theorem map_id_select_pinned (h : store.roster <+: later.roster) (collection : Collection) :
    (later.select (store.pinned collection)).map Record.id =
      (store.select collection).map Record.id := by
  obtain ⟨added, hadded⟩ := h
  have hids : later.records.map Record.id = store.records.map Record.id ++ added.map Prod.fst := by
    rw [← map_fst_roster, ← map_fst_roster, ← hadded, List.map_append]
  have hdistinct := List.nodup_append.1 (hids ▸ later.nodup_map_id)
  -- a number is given once, so no record inserted later has one of those that were pinned
  have hnew : added.filter (fun listed => listed.2 == collection.owner &&
      ((store.select collection).map Record.id).contains listed.1) = [] := by
    refine List.filter_eq_nil_iff.2 fun listed hlisted hkept => ?_
    have hpinned : listed.1 ∈ (store.select collection).map Record.id := by
      simpa using (Bool.and_eq_true_iff.1 hkept).2
    obtain ⟨record, hrecord, hid⟩ := List.mem_map.1 hpinned
    exact hdistinct.2.2 _ (List.mem_map_of_mem (List.mem_filter.1 hrecord).1) _
      (List.mem_map_of_mem hlisted) hid
  calc
    (later.select (store.pinned collection)).map Record.id =
        (store.select (store.pinned collection)).map Record.id := by
      rw [map_id_select_eq_filter_roster, map_id_select_eq_filter_roster, ← hadded,
        List.filter_append, hnew, List.append_nil]
    _ = (store.select collection).map Record.id := by
      have hnow : store.select (store.pinned collection) =
          (store.select collection).map (·.enterAll []) := select_pinned []
      rw [hnow, List.map_map]
      rfl

/-- A record is locked as its number says. -/
theorem isLocked_id {record : Record} (hmem : record ∈ store.records) (column : Column) :
    store.isLocked record.id column = record.isLocked column := by
  rw [isLocked, find?_eq_some_iff.2 ⟨hmem, rfl⟩, Option.any_some]

/-- Narrowing a collection leaves the records whose columns are all unlocked. -/
theorem map_id_select_enrichable (store : Store) (collection : Collection)
    (columns : List Column) :
    (store.select (columns.foldl Collection.enrichable collection)).map Record.id =
      ((store.select collection).map Record.id).filter fun id =>
        columns.all fun column => !store.isLocked id column := by
  induction columns generalizing collection with
  | nil => simp
  | cons column rest ih =>
    have hfirst : (store.select (collection.enrichable column)).map Record.id =
        ((store.select collection).map Record.id).filter fun id => !store.isLocked id column := by
      rw [select_enrichable, List.filter_map]
      congr 1
      refine List.filter_congr fun record hrecord => ?_
      rw [Function.comp_apply, isLocked_id (List.mem_filter.1 hrecord).1]
    rw [List.foldl_cons, ih, hfirst, List.filter_filter]
    refine List.filter_congr fun id _ => ?_
    rw [List.all_cons, Bool.and_comm]

/-- A pinned collection misses no join, however it is narrowed. -/
theorem checkJoins_enrichable_pinned (store : Store) (collection : Collection)
    (columns : List Column) :
    checkJoins (columns.foldl Collection.enrichable (store.pinned collection)) = .ok () := by
  have hmissing (narrowed : Collection) :
      (columns.foldl Collection.enrichable narrowed).missingJoin? = narrowed.missingJoin? := by
    induction columns generalizing narrowed with
    | nil => rfl
    | cons column rest ih => exact (ih _).trans (narrowed.missingJoin?_enrichable column)
  rw [checkJoins, hmissing]
  rfl

/-- The numbers of the records that a collection is read with. -/
def readIds (store : Store) (collection : Collection) : Except StoreError (List Nat) :=
  (store.snapshots collection).map (·.map Snapshot.id)

private theorem readIds_of_checkJoins (store : Store) (h : checkJoins collection = .ok ()) :
    store.readIds collection = .ok ((store.select collection).map Record.id) := by
  rw [readIds, snapshots, h, ok_bind]
  change Except.ok (((store.select collection).map Record.snapshot).map Snapshot.id) = _
  rw [List.map_map]
  rfl

private theorem count_of_checkJoins (store : Store) (h : checkJoins collection = .ok ()) :
    store.count collection = .ok ((store.select collection).map Record.id).length := by
  rw [count, h, ok_bind, List.length_map]
  rfl

end Store

/-- **Pins last.** Whatever happens to a store after a collection was pinned in it, reading the
pinned collection gives the records that the collection had then, in the same order, and counting it
counts them. Narrowed to records whose columns are unlocked, it gives those of them whose columns
are unlocked at the time of reading. -/
theorem World.pinned_lasts {world : World} {collection pinned : Collection}
    (hpin : world.store.pin collection = .ok pinned) :
    ∃ ids, world.store.readIds collection = .ok ids ∧
      ∀ (outage : Outage) (events : List Event) (columns : List Column),
        let later := (world.happenAll outage events).store
        let narrowed := columns.foldl Collection.enrichable pinned
        let unlocked := ids.filter fun id => columns.all fun column => !later.isLocked id column
        later.readIds pinned = .ok ids ∧ later.count pinned = .ok ids.length ∧
          later.readIds narrowed = .ok unlocked ∧ later.count narrowed = .ok unlocked.length := by
  obtain ⟨hjoins, rfl⟩ := Store.checked_eq_ok_iff.1 hpin
  refine ⟨_, world.store.readIds_of_checkJoins hjoins, fun outage events columns => ?_⟩
  intro later narrowed unlocked
  have hids : (later.select (world.store.pinned collection)).map Record.id =
      (world.store.select collection).map Record.id :=
    Store.map_id_select_pinned (world.roster_prefix_happenAll outage events) collection
  have hnarrowed : (later.select narrowed).map Record.id = unlocked := by
    rw [← show _ = unlocked from congrArg (List.filter _) hids]
    exact later.map_id_select_enrichable _ columns
  have hpinned : Store.checkJoins (world.store.pinned collection) = .ok () :=
    world.store.checkJoins_enrichable_pinned collection []
  have hjoined := world.store.checkJoins_enrichable_pinned collection columns
  refine ⟨?_, ?_, ?_, ?_⟩
  · exact (later.readIds_of_checkJoins hpinned).trans (congrArg Except.ok hids)
  · exact (later.count_of_checkJoins hpinned).trans (congrArg (Except.ok ·.length) hids)
  · exact (later.readIds_of_checkJoins hjoined).trans (congrArg Except.ok hnarrowed)
  · exact (later.count_of_checkJoins hjoined).trans (congrArg (Except.ok ·.length) hnarrowed)

namespace Sample

/-- The records of the sample ledger that went to the bistro. -/
def bistro : Collection :=
  (ledger.collection 1).restrict (.compare Transaction.merchant .eq (.text "m1"))

/-- The pinned records all get another merchant, one more comes in, and one is locked. -/
def moving : List Event :=
  [.updateAll bistro Transaction.merchant (.text "m2") "import",
    .edit (.insert 1 [(Transaction.merchant, .text "m1")]), .edit (.lock 2 Transaction.merchant),
    .apply meals registry false]

end Sample

/-- None of the records that went to the bistro does so any more, but pinned they are still there;
one of them has its merchant locked. -/
theorem World.pinned_lasts_moving :
    let later := (({ store := Sample.ledger } : World).happenAll .none Sample.moving).store
    let pinned := Sample.ledger.pinned Sample.bistro
    Sample.ledger.pin Sample.bistro = .ok pinned ∧
      later.readIds Sample.bistro = .ok [5] ∧ later.readIds pinned = .ok [1, 2, 4] ∧
      later.count pinned = .ok 3 ∧
      later.readIds (pinned.enrichable Transaction.merchant) = .ok [1, 4] := by
  intro later pinned
  have hpin : Sample.ledger.pin Sample.bistro = .ok pinned := rfl
  obtain ⟨ids, hids, hlasts⟩ := @World.pinned_lasts { store := Sample.ledger } _ _ hpin
  obtain rfl : [1, 2, 4] = ids := Except.ok.inj hids
  obtain ⟨hpinned, hcount, hunlocked, -⟩ := hlasts .none Sample.moving [Transaction.merchant]
  exact ⟨hpin, by rfl, hpinned, hcount, hunlocked⟩

end Bookkeeping
