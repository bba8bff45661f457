import Bookkeeping.Proofs.Job.Interleaving

/-!
# The history of a store

A store is changed by defaults that are set, by edits, by writes through collections and by rules.
All that the last two have done is told by its log: entered in order into the records as they were
inserted, the log gives the store. So a cell holds the value of its last entry or, without one,
what its record was given when it was inserted.
-/

namespace Bookkeeping

/-- What can happen to a store. -/
inductive Event where
  | withDefault (column : Column) (value : Value)
  | edit (edit : Edit)
  | updateAll (collection : Collection) (column : Column) (value : Value) (source : String)
  | updateEach (collection : Collection) (column : Column) (writes : List (Nat × Value))
      (source : String)
  | apply (rule : Rule) (registry : Registry) (ignoreLocks : Bool)
  | applyAll (rules : List Rule) (registry : Registry)

/-- The store after an update; one that is refused changes nothing. -/
def Store.updated (store : Store) : Except StoreError (Nat × Store) → Store
  | .ok (_, after) => after
  | .error _ => store

namespace World

/-- The world after an event. A rule may be refused, or break off where the outage lets a call
fail. -/
def happen (outage : Outage) (world : World) : Event → World
  | .withDefault column value => { world with store := world.store.withDefault column value }
  | .edit edit => { world with store := world.store.edit edit }
  | .updateAll collection column value source =>
    { world with
      store := world.store.updated (world.store.updateAll collection column value source) }
  | .updateEach collection column writes source =>
    { world with
      store := world.store.updated (world.store.updateEach collection column writes source) }
  | .apply rule registry ignoreLocks => ((rule.applyWith registry ignoreLocks).run outage world).2
  | .applyAll rules registry => (registry.applyAll outage rules world).2

/-- The world after events, in order. -/
def happenAll (outage : Outage) (world : World) (events : List Event) : World :=
  events.foldl (happen outage) world

private theorem happenAll_append (outage : Outage) (world : World) (earlier later : List Event) :
    world.happenAll outage (earlier ++ later) =
      (world.happenAll outage earlier).happenAll outage later :=
  List.foldl_append

end World

/-- What was given for a record when it was inserted. -/
structure Insertion where
  owner : Nat
  values : List (Column × Value)
  /-- The defaults in force, oldest first. -/
  defaults : List (Column × Value)

/-- What a list gives for a column; the last one counts. -/
def lastGiven? (given : List (Column × Value)) (column : Column) : Option Value :=
  given.reverse.lookup column

/-- The value of a new record in a column: the last one given for it, or else the default. -/
def Insertion.value? (insertion : Insertion) (column : Column) : Option Value :=
  (lastGiven? insertion.values column).or (lastGiven? insertion.defaults column)

/-- The insertions among events, each with the defaults set before it. -/
def insertions (defaults : List (Column × Value)) : List Event → List Insertion
  | [] => []
  | .withDefault column value :: rest => insertions (defaults ++ [(column, value)]) rest
  | .edit (.insert owner values) :: rest => ⟨owner, values, defaults⟩ :: insertions defaults rest
  | _ :: rest => insertions defaults rest

/-- The value of the last entry in a cell. -/
def lastEntered? (entries : List Enrichment) (id : Nat) (column : Column) : Option Value :=
  (entries.reverse.find? fun entry => entry.record = id ∧ entry.column = column).map (·.value)

/-- The store after the part of an event that is no write. -/
def Store.byHand (store : Store) : Event → Store
  | .withDefault column value => store.withDefault column value
  | .edit edit => store.edit edit
  | _ => store

/-- The store after events without their writes. -/
def Store.allByHand (store : Store) (events : List Event) : Store :=
  events.foldl byHand store

section Given

/-- In a list that is read from its end, what has come last counts for its key. -/
theorem lookup_reverse_append_singleton {κ β : Type} [DecidableEq κ] (given : List (κ × β))
    (named key : κ) (value : β) : (given ++ [(named, value)]).reverse.lookup key =
      if key = named then some value else given.reverse.lookup key := by
  rw [List.reverse_append, List.reverse_singleton, List.singleton_append, List.lookup_cons]
  by_cases h : key = named
  · simp [h]
  · simp [h, beq_eq_false_iff_ne.2 h]

/-- What is given last counts. -/
theorem lastGiven?_append_singleton (given : List (Column × Value)) (named column : Column)
    (value : Value) : lastGiven? (given ++ [(named, value)]) column =
      if column = named then some value else lastGiven? given column :=
  lookup_reverse_append_singleton given named column value

/-- A column holds what was put there last, if anything was. -/
theorem Fields.get?_putAll (fields : Fields) (given : List (Column × Value)) (column : Column) :
    (fields.putAll given).get? column = (lastGiven? given column).or (fields.get? column) := by
  induction given using List.reverseRecOn with
  | nil => rfl
  | append_singleton earlier last ih =>
    have hlast : fields.putAll (earlier ++ [last]) = (fields.putAll earlier).put last.1 last.2 :=
      List.foldl_append
    rw [hlast, get?_put, ih, lastGiven?_append_singleton]
    split <;> rfl

/-- Of the entries about a cell the last one counts. -/
theorem Record.get?_enterAll (record : Record) (entries : List Enrichment) (column : Column) :
    (record.enterAll entries).fields.get? column =
      (lastEntered? entries record.id column).or (record.fields.get? column) := by
  induction entries using List.reverseRecOn with
  | nil => rfl
  | append_singleton earlier last ih =>
    rw [enterAll_append, lastEntered?, List.reverse_append, List.reverse_singleton,
      List.singleton_append, List.find?_cons]
    change ((record.enterAll earlier).enter last).fields.get? column = _
    rw [enter, id_enterAll]
    by_cases hrecord : record.id = last.record
    · rw [if_pos hrecord, write, Fields.get?_put, ih]
      by_cases hcolumn : column = last.column
      · simp [hrecord, hcolumn]
      · simp [hcolumn, Ne.symm hcolumn, lastEntered?]
    · rw [if_neg hrecord, ih]
      simp [Ne.symm hrecord, lastEntered?]

end Given

namespace Store

variable {store earlier later base : Store} {entries : List Enrichment} {collection : Collection}

/-- The store is the earlier one with writes into some of its records. -/
def WrittenFrom (later earlier : Store) : Prop :=
  ∃ entries, later = earlier.enterAll entries ∧
    ∀ entry ∈ entries, entry.record ∈ earlier.records.map Record.id

private theorem map_id_enterAll (store : Store) (entries : List Enrichment) :
    (store.enterAll entries).records.map Record.id = store.records.map Record.id := by
  rw [records_enterAll, List.map_map]
  exact List.map_congr_left fun record _ => Record.id_enterAll

private theorem WrittenFrom.refl (store : Store) : store.WrittenFrom store :=
  ⟨[], rfl, by simp⟩

private theorem WrittenFrom.trans (hlater : later.WrittenFrom store)
    (h : store.WrittenFrom earlier) :
    later.WrittenFrom earlier := by
  obtain ⟨first, rfl, hfirst⟩ := h
  obtain ⟨second, rfl, hsecond⟩ := hlater
  rw [map_id_enterAll] at hsecond
  exact ⟨first ++ second, (enterAll_append ..).symm, List.forall_mem_append.2 ⟨hfirst, hsecond⟩⟩

/-- A write through a collection is about records of the store. -/
theorem writtenFrom_entries (store : Store) (collection : Collection) (column : Column)
    (offer : Nat → Option Value) (source : String) :
    (store.enterAll (store.entries collection column offer source)).WrittenFrom store := by
  refine ⟨_, rfl, fun entry hentry => ?_⟩
  obtain ⟨-, record, hmem, hid, -⟩ := exists_record_of_mem_entries hentry
  exact hid ▸ List.mem_map_of_mem hmem

private theorem writtenFrom_updated (store : Store) (collection : Collection) (column : Column)
    (offer : Nat → Option Value) (source : String) :
    (store.updated (checkJoins collection >>= fun _ =>
      pure (store.write collection column offer source))).WrittenFrom store := by
  rw [write_eq_enterAll]
  cases checkJoins collection with
  | error cause => exact .refl store
  | ok => exact store.writtenFrom_entries collection column offer source

/-- A call that is answered writes into records of the store. -/
theorem Serves.writtenFrom {call : Call} {answer : call.Answer}
    (h : store.Serves call answer entries) : (store.enterAll entries).WrittenFrom store := by
  have hnone (hentries : entries = []) : (store.enterAll entries).WrittenFrom store := by
    rw [hentries]
    exact .refl store
  cases call with
  | pin => exact hnone h.2.2
  | count => exact hnone h.2.2
  | records => exact hnone h.2.2
  | updateAll => exact h.2.2 ▸ store.writtenFrom_entries ..
  | updateEach => exact h.2.2 ▸ store.writtenFrom_entries ..
  | suggest => exact hnone h

end Store

/-- A job writes into records of the store, also when it fails. -/
theorem Job.writtenFrom_run {α : Type} (job : Job α) (outage : Outage) (world : World) :
    (job.run outage world).2.store.WrittenFrom world.store := by
  induction job generalizing world with
  | done result => exact .refl _
  | fail cause => exact .refl _
  | ask call next ih =>
    rw [run]
    rcases world.answer_cases outage call with
      ⟨answer, between, entries, hserves, hbetween, hanswer⟩ | ⟨cause, after, hafter, hanswer⟩
    · rw [hanswer]
      exact (ih answer between).trans (hbetween ▸ hserves.writtenFrom)
    · rw [hanswer, hafter]
      exact .refl _

/-- So does a batch of rules, however far it gets. -/
theorem Registry.writtenFrom_applyRest (registry : Registry) (outage : Outage)
    (batch : BatchReport) (rules : List Rule) (world : World) :
    (registry.applyRest outage batch rules world).2.store.WrittenFrom world.store := by
  induction rules generalizing batch world with
  | nil => exact .refl _
  | cons rule rest ih =>
    rw [applyRest]
    split
    · have hfirst := (rule.apply registry).writtenFrom_run outage world
      generalize (rule.apply registry).run outage world = ran at hfirst
      obtain ⟨result, between⟩ := ran
      cases result with
      | ok report => exact (ih _ between).trans hfirst
      | error cause =>
        dsimp only
        split
        · exact (ih _ between).trans hfirst
        · exact hfirst
    · exact ih _ world

/-- What an event does is done by hand or written into records of the store. -/
theorem World.writtenFrom_happen (outage : Outage) (world : World) (event : Event) :
    (world.happen outage event).store.WrittenFrom (world.store.byHand event) := by
  cases event with
  | withDefault => exact .refl _
  | edit => exact .refl _
  | updateAll collection column value source =>
    exact world.store.writtenFrom_updated collection column (fun _ => some value) source
  | updateEach collection column writes source =>
    exact world.store.writtenFrom_updated collection column (Store.lastWrite? writes) source
  | apply rule registry ignoreLocks =>
    exact (rule.applyWith registry ignoreLocks).writtenFrom_run outage world
  | applyAll rules registry => exact registry.writtenFrom_applyRest outage {} rules world

section ByHand

variable {entries : List Enrichment}

namespace Record

/-- A column is locked before or after an entry. -/
theorem lock_enter (record : Record) (entry : Enrichment) (column : Column) :
    (record.enter entry).lock column = (record.lock column).enter entry :=
  apply_ite (lock · column) ..

/-- A column is unlocked before or after an entry. -/
theorem unlock_enter (record : Record) (entry : Enrichment) (column : Column) :
    (record.enter entry).unlock column = (record.unlock column).enter entry :=
  apply_ite (unlock · column) ..

/-- What is done to one record before or after an entry is done before or after entries. -/
theorem change_enterAll (change : Record → Record)
    (h : ∀ record entry, change (enter record entry) = (change record).enter entry) (id : Nat)
    (record : Record) :
    (if (record.enterAll entries).id = id then change (record.enterAll entries)
      else record.enterAll entries) =
      (if record.id = id then change record else record).enterAll entries := by
  rw [id_enterAll]
  split
  · induction entries generalizing record with
    | nil => rfl
    | cons entry rest ih =>
      have hid : (record.enter entry).id = id := by rwa [id_enter]
      exact (ih _ hid).trans (congrArg (enterAll · rest) (h record entry))
  · rfl

end Record

namespace Store

variable {store : Store}

/-- A store is another one with entries if it holds what they make of the other one. -/
theorem eq_enterAll {later : Store} (hbaseTable : later.baseTable = store.baseTable)
    (hdefaults : later.defaults = store.defaults)
    (hrecords : later.records = store.records.map (·.enterAll entries))
    (hlog : later.log = store.log ++ entries) : later = store.enterAll entries :=
  Store.ext (hbaseTable.trans baseTable_enterAll.symm) (hdefaults.trans defaults_enterAll.symm)
    (hrecords.trans records_enterAll.symm) (hlog.trans log_enterAll.symm)

/-- What is done to records before or after entries is done to all of them so. -/
theorem mapRecords_enterAll {change : Record → Record}
    (keeps : ∀ record, (change record).id = record.id)
    (h : ∀ record : Record, change (record.enterAll entries) = (change record).enterAll entries) :
    (store.enterAll entries).mapRecords change keeps =
      (store.mapRecords change keeps).enterAll entries := by
  refine eq_enterAll baseTable_enterAll defaults_enterAll ?_ log_enterAll
  simp only [mapRecords, records_enterAll, List.map_map]
  exact List.map_congr_left fun record _ => h record

/-- What is done by hand may be done before or after entries about records of the store. -/
theorem byHand_enterAll (h : ∀ entry ∈ entries, entry.record ∈ store.records.map Record.id)
    (event : Event) : (store.enterAll entries).byHand event =
      (store.byHand event).enterAll entries := by
  cases event with
  | withDefault column value =>
    refine eq_enterAll baseTable_enterAll ?_ records_enterAll log_enterAll
    simp only [byHand, withDefault, defaults_enterAll]
  | edit edit =>
    cases edit with
    | insert owner values =>
      refine eq_enterAll baseTable_enterAll defaults_enterAll ?_ log_enterAll
      -- the new record has a number of its own, which no entry names
      let added : Record := ⟨store.nextId, owner, store.defaults.putAll values, []⟩
      have hadded : added.enterAll entries = added := by
        refine Record.enterAll_of_forall_ne fun entry hentry => ?_
        have hknown := h entry hentry
        rw [store.numbered, List.mem_range'_1] at hknown
        change entry.record ≠ store.records.length + 1
        omega
      simp only [byHand, Store.edit, insert, nextId, records_enterAll, defaults_enterAll,
        List.length_map, List.map_append, List.map_cons, List.map_nil]
      exact congrArg (_ ++ [·]) hadded.symm
    | lock id column =>
      refine mapRecords_enterAll (fun record => by split <;> rfl) fun record => ?_
      exact Record.change_enterAll (Record.lock · column)
        (fun record entry => record.lock_enter entry column) id record
    | unlock id column =>
      refine mapRecords_enterAll (fun record => by split <;> rfl) fun record => ?_
      exact Record.change_enterAll (Record.unlock · column)
        (fun record entry => record.unlock_enter entry column) id record
  | updateAll => rfl
  | updateEach => rfl
  | apply => rfl
  | applyAll => rfl

/-- No record goes away by hand. -/
theorem map_id_subset_byHand (store : Store) (event : Event) :
    store.records.map Record.id ⊆ (store.byHand event).records.map Record.id := by
  rw [store.numbered, (store.byHand event).numbered]
  have hlength : store.records.length ≤ (store.byHand event).records.length := by
    cases event with
    | edit edit =>
      cases edit with
      | insert owner values => simp [byHand, Store.edit, insert]
      | lock id column => exact (List.length_map ..).ge
      | unlock id column => exact (List.length_map ..).ge
    | _ => exact le_rfl
  intro id hid
  rw [List.mem_range'_1] at hid ⊢
  omega

/-- Nothing is logged by hand. -/
theorem log_byHand (store : Store) (event : Event) : (store.byHand event).log = store.log := by
  cases event with
  | edit edit => exact log_edit edit
  | _ => rfl

private theorem log_allByHand (store : Store) (events : List Event) :
    (store.allByHand events).log = store.log := by
  induction events generalizing store with
  | nil => rfl
  | cons event rest ih => exact (ih _).trans (store.log_byHand event)

end Store

end ByHand

/-- The record has the owner of the insertion, and the values that were given for it. -/
structure Record.InsertedBy (record : Record) (insertion : Insertion) : Prop where
  owner : record.owner = insertion.owner
  get? : ∀ column, record.fields.get? column = insertion.value? column

/-- The records of the store are those inserted, and its defaults those set. -/
structure Store.Laid (store : Store) (given : List Insertion) (defaults : List (Column × Value)) :
    Prop where
  records : List.Forall₂ Record.InsertedBy store.records given
  defaults : ∀ column, store.defaults.get? column = lastGiven? defaults column

namespace Store

variable {store : Store} {given : List Insertion} {defaults : List (Column × Value)}

/-- Locking and unlocking leaves owners and values. -/
theorem Laid.mapRecords (h : store.Laid given defaults) {change : Record → Record}
    (keeps : ∀ record, (change record).id = record.id)
    (howner : ∀ record, (change record).owner = record.owner)
    (hfields : ∀ record, (change record).fields = record.fields) :
    (store.mapRecords change keeps).Laid given defaults := by
  refine ⟨List.forall₂_map_left_iff.2 ?_, h.defaults⟩
  refine h.records.imp fun record insertion hinserted => ?_
  refine ⟨(howner record).trans hinserted.owner, fun column => ?_⟩
  rw [hfields, hinserted.get?]

/-- A new record has the values given for it, and the defaults for the other columns. -/
theorem Laid.insert (h : store.Laid given defaults) (owner : Nat)
    (values : List (Column × Value)) :
    (store.insert owner values).Laid (given ++ [⟨owner, values, defaults⟩]) defaults := by
  refine ⟨List.rel_append h.records (.cons ⟨rfl, fun column => ?_⟩ .nil), h.defaults⟩
  rw [Fields.get?_putAll, h.defaults]
  rfl

private theorem Laid.lock (h : store.Laid given defaults) (id : Nat) (column : Column) :
    (store.lock id column).Laid given defaults := by
  refine h.mapRecords _ (fun record => ?_) fun record => ?_
  · split <;> rfl
  · split <;> rfl

private theorem Laid.unlock (h : store.Laid given defaults) (id : Nat) (column : Column) :
    (store.unlock id column).Laid given defaults := by
  refine h.mapRecords _ (fun record => ?_) fun record => ?_
  · split <;> rfl
  · split <;> rfl

private theorem Laid.withDefault (h : store.Laid given defaults) (column : Column) (value : Value) :
    (store.withDefault column value).Laid given (defaults ++ [(column, value)]) := by
  refine ⟨h.records, fun other => ?_⟩
  rw [Store.withDefault, Fields.get?_put, lastGiven?_append_singleton, h.defaults]

/-- Events without their writes lay out the insertions among them. -/
theorem Laid.allByHand (h : store.Laid given defaults) (events : List Event) :
    List.Forall₂ Record.InsertedBy (store.allByHand events).records
      (given ++ insertions defaults events) := by
  induction events generalizing store given defaults with
  | nil =>
    rw [insertions, List.append_nil]
    exact h.records
  | cons event rest ih =>
    cases event with
    | withDefault column value => exact ih (h.withDefault column value)
    | edit edit =>
      cases edit with
      | insert owner values =>
        have hlater := ih (h.insert owner values)
        rw [List.append_assoc] at hlater
        exact hlater
      | lock id column => exact ih (h.lock id column)
      | unlock id column => exact ih (h.unlock id column)
    | updateAll => exact ih h
    | updateEach => exact ih h
    | apply => exact ih h
    | applyAll => exact ih h

end Store

namespace World

/-- After events the store is the one laid out by hand, with all that was ever written entered into
it in order. -/
theorem exists_entries_happenAll (outage : Outage) {world : World} {base : Store}
    {written : List Enrichment} (hstore : world.store = base.enterAll written)
    (hwritten : ∀ entry ∈ written, entry.record ∈ base.records.map Record.id)
    (events : List Event) :
    ∃ later, (world.happenAll outage events).store =
      (base.allByHand events).enterAll (written ++ later) := by
  induction events generalizing world base written with
  | nil => exact ⟨[], by rw [List.append_nil]; exact hstore⟩
  | cons event rest ih =>
    obtain ⟨entries, hevent, hentries⟩ := world.writtenFrom_happen outage event
    rw [hstore, Store.byHand_enterAll hwritten, ← Store.enterAll_append] at hevent
    have hknown : ∀ entry ∈ written ++ entries,
        entry.record ∈ (base.byHand event).records.map Record.id := by
      refine List.forall_mem_append.2 ⟨fun entry hentry => ?_, fun entry hentry => ?_⟩
      · exact base.map_id_subset_byHand event (hwritten entry hentry)
      · have hrecord := hentries entry hentry
        rwa [hstore, Store.byHand_enterAll hwritten, Store.map_id_enterAll] at hrecord
    obtain ⟨later, hlater⟩ := ih hevent hknown
    exact ⟨entries ++ later, by rw [← List.append_assoc]; exact hlater⟩

/-- The log only grows. -/
theorem log_prefix_happenAll (outage : Outage) (world : World) (events : List Event) :
    world.store.log <+: (world.happenAll outage events).store.log := by
  have hstart : world.store = world.store.enterAll [] := rfl
  obtain ⟨later, hlater⟩ := exists_entries_happenAll outage hstart (by simp) events
  rw [hlater, Store.log_enterAll, Store.log_allByHand, List.nil_append]
  exact List.prefix_append ..

/-- **Replay.** Whatever happens to an empty store, rules that fail on the way included, its records
are numbered from 1 in the order of their insertion and its log only grows. Entered again into the
records as they were inserted, the log gives the store. So the value in a cell is that of the last
entry about it or, without one, the value given last at the insertion, or else the default that was
in force then. -/
theorem happenAll_replays (outage : Outage) (baseTable : String) (events : List Event) :
    let start : World := { store := .empty baseTable }
    let store := (start.happenAll outage events).store
    store.records.map Record.id = List.range' 1 (insertions [] events).length ∧
      (store.records.Pairwise fun earlier later => earlier.id < later.id) ∧
      (∀ count, (start.happenAll outage (events.take count)).store.log <+: store.log) ∧
      List.Forall₂ (fun record insertion => record.owner = insertion.owner ∧
          ∀ column, record.fields.get? column =
            (lastEntered? store.log record.id column).or (insertion.value? column))
        store.records (insertions [] events) ∧
      store = ((Store.empty baseTable).allByHand events).enterAll store.log := by
  intro start store
  have hstart : start.store = (Store.empty baseTable).enterAll [] := rfl
  obtain ⟨entries, hentries⟩ := exists_entries_happenAll outage hstart (by simp) events
  have hlog : store.log = entries := by
    rw [show store = _ from hentries, Store.log_enterAll, Store.log_allByHand]
    rfl
  have hreplay : store = ((Store.empty baseTable).allByHand events).enterAll store.log := by
    rw [hlog]
    exact hentries
  have hlaid : (Store.empty baseTable).Laid [] [] := ⟨.nil, fun _ => rfl⟩
  have hinserted := hlaid.allByHand events
  rw [List.nil_append] at hinserted
  have hrecords : List.Forall₂ (fun record insertion => record.owner = insertion.owner ∧
      ∀ column, record.fields.get? column =
        (lastEntered? store.log record.id column).or (insertion.value? column))
      store.records (insertions [] events) := by
    rw [hreplay, Store.records_enterAll, List.forall₂_map_left_iff]
    refine hinserted.imp fun record insertion h => ⟨?_, fun column => ?_⟩
    · rw [Record.owner_enterAll, h.owner]
    · rw [Record.get?_enterAll, Record.id_enterAll, h.get?, ← hreplay]
  refine ⟨?_, store.pairwise_id_lt, ?_, hrecords, hreplay⟩
  · rw [store.numbered, hrecords.length_eq]
  · intro count
    have hgrown :=
      log_prefix_happenAll outage (start.happenAll outage (events.take count)) (events.drop count)
    rwa [← happenAll_append, List.take_append_drop] at hgrown

end World

end Bookkeeping
