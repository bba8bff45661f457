import Bookkeeping.Store
import Mathlib.Data.List.Nodup

/-!
# Entries of the log

What a store call writes is told by the entries that it adds to the log. Entering them one after
another gives the store after the call: an entry sets the cell that it names, and no entry touches
another cell, a lock, an owner or a number.
-/

namespace Bookkeeping

namespace Record

/-- The record after an entry, which may be about another record. -/
def enter (record : Record) (entry : Enrichment) : Record :=
  if record.id = entry.record then record.write entry.column entry.value else record

/-- The record after entries, oldest first. -/
def enterAll (record : Record) (entries : List Enrichment) : Record :=
  entries.foldl enter record

variable {record : Record} {entries : List Enrichment}

/-- An entry sets fields only. -/
theorem exists_enter_eq (record : Record) (entry : Enrichment) :
    ∃ fields, record.enter entry = { record with fields } := by
  unfold enter
  split
  · exact ⟨_, rfl⟩
  · exact ⟨_, rfl⟩

/-- Entering a value does not change which record it is. -/
theorem id_enter (record : Record) (entry : Enrichment) :
    (record.enter entry).id = record.id := by
  obtain ⟨fields, h⟩ := record.exists_enter_eq entry
  rw [h]

/-- Entries set fields only. -/
theorem exists_enterAll_eq (record : Record) (entries : List Enrichment) :
    ∃ fields, record.enterAll entries = { record with fields } := by
  induction entries generalizing record with
  | nil => exact ⟨record.fields, rfl⟩
  | cons entry rest ih =>
    obtain ⟨fields, hentry⟩ := record.exists_enter_eq entry
    obtain ⟨last, hrest⟩ := ih (record.enter entry)
    refine ⟨last, hrest.trans ?_⟩
    rw [hentry]

/-- Entering values does not change which record it is. -/
@[simp]
theorem id_enterAll : (record.enterAll entries).id = record.id := by
  obtain ⟨fields, h⟩ := record.exists_enterAll_eq entries
  rw [h]

/-- Entering values does not change whose record it is. -/
@[simp]
theorem owner_enterAll : (record.enterAll entries).owner = record.owner := by
  obtain ⟨fields, h⟩ := record.exists_enterAll_eq entries
  rw [h]

/-- Entering values does not change the locks. -/
@[simp]
theorem locks_enterAll : (record.enterAll entries).locks = record.locks := by
  obtain ⟨fields, h⟩ := record.exists_enterAll_eq entries
  rw [h]

/-- Entering values locks nothing and unlocks nothing. -/
@[simp]
theorem isLocked_enterAll (column : Column) :
    (record.enterAll entries).isLocked column = record.isLocked column := by
  obtain ⟨fields, h⟩ := record.exists_enterAll_eq entries
  rw [h]
  rfl

/-- Values are entered one after the other. -/
theorem enterAll_append (record : Record) (earlier later : List Enrichment) :
    record.enterAll (earlier ++ later) = (record.enterAll earlier).enterAll later :=
  List.foldl_append

/-- Entries about other records leave a record as it is. -/
theorem enterAll_of_forall_ne (h : ∀ entry ∈ entries, entry.record ≠ record.id) :
    record.enterAll entries = record := by
  induction entries with
  | nil => rfl
  | cons entry rest ih =>
    obtain ⟨hentry, hrest⟩ := List.forall_mem_cons.1 h
    have hsame : record.enter entry = record := if_neg hentry.symm
    calc
      record.enterAll (entry :: rest) = (record.enter entry).enterAll rest := rfl
      _ = record := by rw [hsame, ih hrest]

/-- A cell that no entry names keeps its value. -/
theorem get?_enterAll_of_forall_ne {column : Column}
    (h : ∀ entry ∈ entries, entry.record = record.id → entry.column ≠ column) :
    (record.enterAll entries).fields.get? column = record.fields.get? column := by
  induction entries generalizing record with
  | nil => rfl
  | cons entry rest ih =>
    obtain ⟨hentry, hrest⟩ := List.forall_mem_cons.1 h
    have hfirst : (record.enter entry).fields.get? column = record.fields.get? column := by
      unfold enter
      split
      · rename_i hnamed
        rw [write, Fields.get?_put, if_neg (hentry hnamed.symm).symm]
      · rfl
    calc
      (record.enterAll (entry :: rest)).fields.get? column =
          ((record.enter entry).enterAll rest).fields.get? column := rfl
      _ = record.fields.get? column := by
        rw [ih (by rw [id_enter]; exact hrest), hfirst]

/-- Where every record has one entry at most, it holds the value of its own. -/
theorem get?_enterAll_of_mem {entry : Enrichment} (hnodup : (entries.map Enrichment.record).Nodup)
    (hmem : entry ∈ entries) (hid : entry.record = record.id) :
    (record.enterAll entries).fields.get? entry.column = some entry.value := by
  obtain ⟨earlier, later, rfl⟩ := List.append_of_mem hmem
  rw [List.map_append, List.map_cons] at hnodup
  -- what is entered before does not matter, and what is entered later is about other records
  have hlater : ∀ other ∈ later, other.record ≠ entry.record := by
    intro other hother hsame
    refine (List.nodup_cons.1 (List.nodup_append.1 hnodup).2.1).1 ?_
    exact hsame ▸ List.mem_map_of_mem hother
  let before := record.enterAll earlier
  have hbefore : before.enter entry = before.write entry.column entry.value :=
    if_pos (by rw [id_enterAll, hid])
  calc
    (record.enterAll (earlier ++ entry :: later)).fields.get? entry.column =
        ((before.enter entry).enterAll later).fields.get? entry.column := by
      rw [enterAll_append]
      rfl
    _ = (before.write entry.column entry.value).fields.get? entry.column := by
      rw [enterAll_of_forall_ne, hbefore]
      rwa [id_enter, id_enterAll, ← hid]
    _ = some entry.value := by
      rw [write, Fields.get?_put, if_pos rfl]

/-- Of the entries that records in the order of their numbers make, each takes only its own. -/
theorem enterAll_filterMap {records : List Record} {entryOf : Record → Option Enrichment}
    (hordered : records.Pairwise fun earlier later => earlier.id < later.id)
    (hentryOf : ∀ other entry, entryOf other = some entry → entry.record = other.id)
    (hmem : record ∈ records) :
    record.enterAll (records.filterMap entryOf) = record.enterAll (entryOf record).toList := by
  induction records with
  | nil => cases hmem
  | cons head rest ih =>
    obtain ⟨hhead, hrest⟩ := List.pairwise_cons.1 hordered
    have hsplit : (head :: rest).filterMap entryOf =
        (entryOf head).toList ++ rest.filterMap entryOf := by
      cases h : entryOf head <;> simp [h]
    rw [hsplit, enterAll_append]
    rcases List.mem_cons.1 hmem with rfl | hmem
    · -- what follows is made by records of greater numbers
      refine enterAll_of_forall_ne fun entry hentry => ?_
      obtain ⟨other, hother, hmade⟩ := List.mem_filterMap.1 hentry
      have hlater := hhead other hother
      rw [hentryOf other entry hmade, id_enterAll]
      omega
    · have hothers : record.enterAll (entryOf head).toList = record := by
        refine enterAll_of_forall_ne fun entry hentry => ?_
        have hearlier := hhead record hmem
        rw [hentryOf head entry (Option.mem_toList.1 hentry)]
        omega
      rw [hothers, ih hrest hmem]

end Record

namespace Store

variable {store : Store} {collection : Collection} {entries : List Enrichment}

/-- The store after an entry. -/
def enter (store : Store) (entry : Enrichment) : Store :=
  { store.mapRecords (·.enter entry) (fun record => record.id_enter entry) with
    log := store.log ++ [entry] }

/-- The store after entries, oldest first. -/
def enterAll (store : Store) (entries : List Enrichment) : Store :=
  entries.foldl enter store

/-- Stores are the same if they hold the same; that their records are numbered is no content. -/
protected theorem ext : ∀ {a b : Store}, a.baseTable = b.baseTable → a.defaults = b.defaults →
    a.records = b.records → a.log = b.log → a = b := by
  rintro ⟨⟩ ⟨⟩ rfl rfl rfl rfl
  rfl

/-- Entries are made one after the other. -/
theorem enterAll_append (store : Store) (earlier later : List Enrichment) :
    store.enterAll (earlier ++ later) = (store.enterAll earlier).enterAll later :=
  List.foldl_append

/-- Entries do not change the base table. -/
@[simp]
theorem baseTable_enterAll : (store.enterAll entries).baseTable = store.baseTable := by
  induction entries generalizing store with
  | nil => rfl
  | cons entry rest ih => exact ih

/-- Entries do not change the defaults. -/
@[simp]
theorem defaults_enterAll : (store.enterAll entries).defaults = store.defaults := by
  induction entries generalizing store with
  | nil => rfl
  | cons entry rest ih => exact ih

/-- The log grows by the entries. -/
@[simp]
theorem log_enterAll : (store.enterAll entries).log = store.log ++ entries := by
  induction entries generalizing store with
  | nil => exact (List.append_nil _).symm
  | cons entry rest ih => exact ih.trans (List.append_assoc ..)

/-- Entries are made in each record. -/
@[simp]
theorem records_enterAll :
    (store.enterAll entries).records = store.records.map (·.enterAll entries) := by
  induction entries generalizing store with
  | nil => exact (List.map_id _).symm
  | cons entry rest ih => exact ih.trans (List.map_map ..)

/-- No two records have a number in common, and later records have greater numbers. -/
theorem pairwise_id_lt (store : Store) :
    store.records.Pairwise fun earlier later => earlier.id < later.id := by
  have h : (store.records.map Record.id).Pairwise (· < ·) := by
    rw [store.numbered]
    exact List.pairwise_lt_range'
  exact List.pairwise_map.1 h

/-- No two records of a store have one id. -/
theorem nodup_map_id (store : Store) : (store.records.map Record.id).Nodup := by
  rw [store.numbered]
  exact List.nodup_range'

/-- A record is found by its number. -/
theorem eq_of_id_eq {record other : Record} (hrecord : record ∈ store.records)
    (hother : other ∈ store.records) (h : record.id = other.id) : record = other :=
  List.inj_on_of_nodup_map store.nodup_map_id hrecord hother h

/-- The record that is found for an id is the one that has it. -/
theorem find?_eq_some_iff {id : Nat} {record : Record} :
    store.find? id = some record ↔ record ∈ store.records ∧ record.id = id := by
  constructor
  · intro h
    exact ⟨List.mem_of_find?_eq_some h, by simpa using List.find?_some h⟩
  · rintro ⟨hmem, rfl⟩
    cases hfound : store.find? record.id with
    | none =>
      have := List.find?_eq_none.1 hfound record hmem
      simp at this
    | some found =>
      have hid : found.id = record.id := by simpa using List.find?_some hfound
      rw [eq_of_id_eq (List.mem_of_find?_eq_some hfound) hmem hid]

/-- A record whose number stays is found changed. -/
theorem find?_of_records_eq_map {after : Store} {change : Record → Record}
    (keeps : ∀ record, (change record).id = record.id)
    (h : after.records = store.records.map change) (id : Nat) :
    after.find? id = (store.find? id).map change := by
  rw [find?, h, List.find?_map, find?]
  simp only [Function.comp_def, keeps]

/-- Entries are made in the record that is found. -/
theorem find?_enterAll (id : Nat) :
    (store.enterAll entries).find? id = (store.find? id).map (·.enterAll entries) :=
  find?_of_records_eq_map (fun _ => Record.id_enterAll) records_enterAll id

/-- Entries neither lock nor unlock. -/
@[simp]
theorem isLocked_enterAll (id : Nat) (column : Column) :
    (store.enterAll entries).isLocked id column = store.isLocked id column := by
  rw [isLocked, isLocked, find?_enterAll, Option.any_map]
  simp only [Record.isLocked_enterAll]

/-- A cell that no entry names keeps its value. -/
theorem get?_enterAll_of_forall_ne {id : Nat} {column : Column}
    (h : ∀ entry ∈ entries, entry.record = id → entry.column ≠ column) :
    (store.enterAll entries).get? id column = store.get? id column := by
  rw [get?, get?, find?_enterAll]
  cases hfound : store.find? id with
  | none => rfl
  | some record =>
    obtain ⟨-, rfl⟩ := find?_eq_some_iff.1 hfound
    exact Record.get?_enterAll_of_forall_ne h

/-- An entry sets the cell that it names, if there is such a record, and no other. -/
theorem get?_enter {id : Nat} {column : Column} (entry : Enrichment) :
    (store.enter entry).get? id column =
      if entry.record = id ∧ entry.column = column then
        (store.find? id).map fun _ => entry.value
      else store.get? id column := by
  have hfind : (store.enter entry).find? id = (store.find? id).map (·.enter entry) :=
    find?_of_records_eq_map (fun record => record.id_enter entry) rfl id
  rw [get?, get?, hfind, Option.bind_map]
  cases hfound : store.find? id with
  | none => simp
  | some record =>
    obtain ⟨-, rfl⟩ := find?_eq_some_iff.1 hfound
    rw [Option.bind_some, Function.comp_apply, Record.enter]
    by_cases hid : record.id = entry.record
    · rw [if_pos hid, Record.write, Fields.get?_put]
      simp [hid, eq_comm]
    · simp [hid, Ne.symm hid]

/-- Entries that say what their cells hold already change no cell. -/
theorem get?_enterAll_of_forall_holds
    (h : ∀ entry ∈ entries, store.get? entry.record entry.column = some entry.value) (id : Nat)
    (column : Column) : (store.enterAll entries).get? id column = store.get? id column := by
  induction entries generalizing store with
  | nil => rfl
  | cons entry rest ih =>
    obtain ⟨hentry, hrest⟩ := List.forall_mem_cons.1 h
    have hsame (id : Nat) (column : Column) :
        (store.enter entry).get? id column = store.get? id column := by
      rw [get?_enter]
      split
      · rename_i hcell
        obtain ⟨rfl, rfl⟩ := hcell
        obtain ⟨record, hfound, -⟩ := Option.bind_eq_some_iff.1 hentry
        rw [hentry, hfound, Option.map_some]
      · rfl
    calc
      (store.enterAll (entry :: rest)).get? id column =
          ((store.enter entry).enterAll rest).get? id column := rfl
      _ = (store.enter entry).get? id column :=
        ih fun other hother => by rw [hsame]; exact hrest other hother
      _ = store.get? id column := hsame id column

end Store

/-- The entries for a list of records, each of which gets the value offered for its number. -/
def entriesFor (ids : List Nat) (column : Column) (offer : Nat → Option Value)
    (source : String) : List Enrichment :=
  ids.filterMap fun id => (offer id).map fun value => ⟨id, column, value, source⟩

/-- There is an entry for each id that is offered a value. -/
theorem mem_entriesFor_iff {ids : List Nat} {column : Column} {offer : Nat → Option Value}
    {source : String} {entry : Enrichment} :
    entry ∈ entriesFor ids column offer source ↔ ∃ id ∈ ids, ∃ value, offer id = some value ∧
      ⟨id, column, value, source⟩ = entry := by
  simp only [entriesFor, List.mem_filterMap, Option.map_eq_some_iff]

/-- The entries are about the records that are offered a value. -/
theorem map_record_entriesFor (ids : List Nat) (column : Column) (offer : Nat → Option Value)
    (source : String) :
    (entriesFor ids column offer source).map Enrichment.record =
      ids.filter fun id => (offer id).isSome := by
  induction ids with
  | nil => rfl
  | cons id rest ih =>
    rw [entriesFor] at ih ⊢
    cases h : offer id with
    | none => simp [h, ih]
    | some value => simp [h, ih]

/-- One value offered to all makes an entry for each record. -/
theorem entriesFor_some (ids : List Nat) (column : Column) (value : Value) (source : String) :
    entriesFor ids column (fun _ => some value) source =
      ids.map fun id => ⟨id, column, value, source⟩ :=
  congrFun List.filterMap_eq_map ids

namespace Store

variable (store : Store) (collection : Collection) (column : Column)
  (offer : Nat → Option Value) (source : String)

/-- What is written through a collection, in the order of its records. -/
def entries : List Enrichment :=
  entriesFor ((store.select collection).map Record.id) column offer source

private theorem filterMap_chosen?_eq (records : List Record) :
    (records.filterMap fun record => (chosen? collection offer record).map fun value =>
      (⟨record.id, column, value, source⟩ : Enrichment)) =
    entriesFor ((records.filter collection.selects).map Record.id) column offer source := by
  rw [entriesFor, List.filterMap_map, List.filterMap_filter]
  congr 1
  funext record
  unfold chosen?
  cases collection.selects record <;> rfl

/-- Among the entries of a write a record finds the value chosen for it. -/
theorem enterAll_entries_of_mem {record : Record} (hmem : record ∈ store.records) :
    record.enterAll (store.entries collection column offer source) =
      match chosen? collection offer record with
      | some value => record.write column value
      | none => record := by
  have hrecord (other : Record) (entry : Enrichment)
      (h : ((chosen? collection offer other).map fun value =>
        (⟨other.id, column, value, source⟩ : Enrichment)) = some entry) :
      entry.record = other.id := by
    obtain ⟨value, -, rfl⟩ := Option.map_eq_some_iff.1 h
    rfl
  rw [entries, select, ← filterMap_chosen?_eq,
    Record.enterAll_filterMap store.pairwise_id_lt hrecord hmem]
  cases chosen? collection offer record with
  | none => rfl
  | some value => exact if_pos rfl

/-- Writing through a collection enters what is offered for its records, in their order. -/
theorem write_eq_enterAll :
    store.write collection column offer source =
      ((store.entries collection column offer source).length,
        store.enterAll (store.entries collection column offer source)) := by
  have hwritten := filterMap_chosen?_eq collection column offer source store.records
  have hlength : (store.write collection column offer source).1 =
      (store.entries collection column offer source).length := congrArg List.length hwritten
  have hrecords : (store.write collection column offer source).2.records =
      store.records.map (·.enterAll (store.entries collection column offer source)) :=
    List.map_congr_left fun record hmem =>
      (enterAll_entries_of_mem store collection column offer source hmem).symm
  have hlog : (store.write collection column offer source).2.log =
      store.log ++ store.entries collection column offer source :=
    congrArg (store.log ++ ·) hwritten
  refine Prod.ext hlength (Store.ext ?_ ?_ ?_ ?_)
  · rw [baseTable_enterAll]
    rfl
  · rw [defaults_enterAll]
    rfl
  · rw [hrecords, records_enterAll]
  · rw [hlog, log_enterAll]

end Store

namespace Store

variable {store : Store} {collection : Collection}

/-- The collection of the records that belong to this one now. -/
def pinned (store : Store) (collection : Collection) : Collection :=
  { collection with filters := [.pinned ((store.select collection).map Record.id)] }

/-- Whatever is entered, a record belongs to the pinned collection if it did when it was pinned. -/
theorem selects_pinned {record : Record} (hmem : record ∈ store.records)
    (entries : List Enrichment) :
    (store.pinned collection).selects (record.enterAll entries) = collection.selects record := by
  have hlisted : record.id ∈ (store.select collection).map Record.id ↔
      collection.selects record = true := by
    constructor
    · intro hid
      obtain ⟨other, hother, hsame⟩ := List.mem_map.1 hid
      obtain ⟨hstored, hselects⟩ := List.mem_filter.1 hother
      rw [← eq_of_id_eq hstored hmem hsame]
      exact hselects
    · intro hselects
      exact List.mem_map_of_mem (List.mem_filter.2 ⟨hmem, hselects⟩)
  have howner (h : collection.selects record = true) : record.owner = collection.owner := by
    simp only [Collection.selects, Bool.and_eq_true, beq_iff_eq] at h
    exact h.1
  rw [Bool.eq_iff_iff, ← hlisted]
  simp only [pinned, Collection.selects, List.all_cons, List.all_nil, Filter.passes,
    Bool.and_true, Bool.and_eq_true, beq_iff_eq, List.contains_iff_mem, Record.owner_enterAll,
    Record.id_enterAll]
  exact ⟨And.right, fun hid => ⟨howner (hlisted.1 hid), hid⟩⟩

/-- Whatever is entered, the pinned collection keeps its records. -/
theorem select_pinned (entries : List Enrichment) :
    (store.enterAll entries).select (store.pinned collection) =
      (store.select collection).map (·.enterAll entries) := by
  rw [select, records_enterAll, List.filter_map, select]
  congr 1
  exact List.filter_congr fun record hmem => selects_pinned hmem entries

/-- Where only records of a collection are written, those that belong to it afterwards belonged to
it before. -/
theorem select_enterAll {entries : List Enrichment}
    (h : ∀ entry ∈ entries, entry.record ∈ (store.select collection).map Record.id) :
    (store.enterAll entries).select collection =
      ((store.select collection).filter fun record =>
        collection.selects (record.enterAll entries)).map (·.enterAll entries) := by
  rw [select, records_enterAll, List.filter_map, select, List.filter_filter]
  congr 1
  refine List.filter_congr fun record hmem => ?_
  rw [Function.comp_apply]
  cases hselects : collection.selects record with
  | true => rw [Bool.and_true]
  | false =>
    -- a record that did not belong to the collection is as it was
    have hother : ∀ entry ∈ entries, entry.record ≠ record.id := by
      intro entry hentry hid
      obtain ⟨found, hfound, hsame⟩ := List.mem_map.1 (h entry hentry)
      obtain ⟨hstored, hbelongs⟩ := List.mem_filter.1 hfound
      rw [eq_of_id_eq hstored hmem (hsame.trans hid), hselects] at hbelongs
      cases hbelongs
    rw [Bool.and_false, Record.enterAll_of_forall_ne hother, hselects]

/-- One more filter leaves the records that pass it. -/
theorem select_filter (store : Store) (collection : Collection) (added : Filter) :
    store.select (collection.filter added) =
      (store.select collection).filter fun record => added.passes record := by
  rw [select, select, List.filter_filter]
  congr 1
  funext record
  simp only [Collection.selects, Collection.filter, List.all_append, List.all_cons, List.all_nil,
    Bool.and_true]
  rw [← Bool.and_assoc, Bool.and_comm]

/-- A further restriction keeps those selected records that it holds of. -/
theorem select_restrict (store : Store) (collection : Collection) (p : Predicate) :
    store.select (collection.restrict p) =
      (store.select collection).filter fun record => p.holds record.fields.get? :=
  store.select_filter collection (.restrict p)

/-- Of a collection the records without a lock may be enriched. -/
theorem select_enrichable (store : Store) (collection : Collection) (column : Column) :
    store.select (collection.enrichable column) =
      (store.select collection).filter fun record => !record.isLocked column :=
  store.select_filter collection (.unlocked column)

end Store

end Bookkeeping
