import Bookkeeping.Job.World
import Bookkeeping.Proofs.Bind
import Bookkeeping.Proofs.Store.Entries

/-!
# What a run comes to

A job that ends with a result has had every check passed and every call answered, in order. Only
updates change the store, by the entries that they add to its log.
-/

namespace Bookkeeping

namespace Store

variable {α : Type} {store : Store} {collection : Collection} {column : Column}
  {offer : Nat → Option Value} {source : String}

/-- What the store answers to a call, and the entries that the call adds to the log. Providers
answer for themselves. -/
def Serves (store : Store) : (call : Call) → call.Answer → List Enrichment → Prop
  | .pin collection, pinned, entries =>
    checkJoins collection = .ok () ∧ pinned = store.pinned collection ∧ entries = []
  | .count collection, number, entries =>
    checkJoins collection = .ok () ∧ number = (store.select collection).length ∧ entries = []
  | .records collection, snapshots, entries =>
    checkJoins collection = .ok () ∧
      snapshots = (store.select collection).map Record.snapshot ∧ entries = []
  | .updateAll collection column value source, written, entries =>
    checkJoins collection = .ok () ∧ written = entries.length ∧
      entries = store.entries collection column (fun _ => some value) source
  | .updateEach collection column writes source, written, entries =>
    checkJoins collection = .ok () ∧ written = entries.length ∧
      entries = store.entries collection column (lastWrite? writes) source
  | .suggest .., _, entries => entries = []

/-- A use of a collection succeeds when no join is missing. -/
theorem checked_eq_ok_iff {result answer : α} :
    (checkJoins collection >>= fun _ => pure result) = .ok answer ↔
      checkJoins collection = .ok () ∧ result = answer := by
  rw [bind_eq_ok_iff]
  constructor
  · rintro ⟨⟨⟩, hjoins, h⟩
    exact ⟨hjoins, Except.ok.inj h⟩
  · rintro ⟨hjoins, rfl⟩
    exact ⟨(), hjoins, rfl⟩

/-- Every entry of a write is about the column and a record of the collection. -/
theorem exists_record_of_mem_entries {entry : Enrichment}
    (h : entry ∈ store.entries collection column offer source) :
    entry.column = column ∧
      ∃ record ∈ store.records, record.id = entry.record ∧ collection.selects record = true := by
  obtain ⟨id, hid, value, -, rfl⟩ := mem_entriesFor_iff.1 h
  obtain ⟨record, hrecord, rfl⟩ := List.mem_map.1 hid
  obtain ⟨hmem, hselects⟩ := List.mem_filter.1 hrecord
  exact ⟨rfl, record, hmem, rfl, hselects⟩

end Store

/-- The call is one to the store, on a collection that misses no join. -/
def Call.Joined : Call → Prop
  | .pin collection => Store.checkJoins collection = .ok ()
  | .count collection => Store.checkJoins collection = .ok ()
  | .records collection => Store.checkJoins collection = .ok ()
  | .updateAll collection .. => Store.checkJoins collection = .ok ()
  | .updateEach collection .. => Store.checkJoins collection = .ok ()
  | .suggest .. => False

namespace World

variable {α : Type} {world : World}

/-- Either the store answers a call, or the call fails and leaves the store as it is. -/
theorem useStore_cases (outage : Outage) (world : World) (op : Operation)
    (use : Store → Except StoreError (α × Store)) :
    (∃ answer after, use world.store = .ok (answer, after.store) ∧
      world.useStore outage op use = (.ok answer, after)) ∨
    ∃ cause after, after.store = world.store ∧
      world.useStore outage op use = (.error cause, after) := by
  unfold useStore
  split
  · exact .inr ⟨_, { world with calls := op :: world.calls }, rfl, rfl⟩
  · split
    · rename_i answer store huse
      exact .inl ⟨answer, { world with store, calls := op :: world.calls }, huse, rfl⟩
    · exact .inr ⟨_, { world with calls := op :: world.calls }, rfl, rfl⟩

/-- A call that reads a collection leaves the store as it is. -/
theorem readStore_cases (outage : Outage) (world : World) (op : Operation)
    (collection : Collection) (read : Store → α) :
    (∃ after, Store.checkJoins collection = .ok () ∧ after.store = world.store ∧
      world.readStore outage op
        (fun store => Store.checkJoins collection >>= fun _ => pure (read store)) =
          (.ok (read world.store), after)) ∨
    ∃ cause after, after.store = world.store ∧
      world.readStore outage op
        (fun store => Store.checkJoins collection >>= fun _ => pure (read store)) =
          (.error cause, after) := by
  rcases useStore_cases outage world op
    (fun store => (Store.checkJoins collection >>= fun _ => pure (read store)).map (·, store))
    with ⟨answer, after, huse, h⟩ | h
  · cases hjoins : Store.checkJoins collection with
    | error cause =>
      rw [hjoins, error_bind] at huse
      cases huse
    | ok =>
      rw [hjoins, ok_bind] at huse
      obtain ⟨rfl, hstore⟩ := Prod.mk.inj (Except.ok.inj huse)
      rw [hjoins] at h
      exact .inl ⟨after, rfl, hstore.symm, h⟩
  · exact .inr h

/-- A call that writes through a collection enters what it offers for the records. -/
theorem writeStore_cases (outage : Outage) (world : World) (op : Operation)
    (collection : Collection) (column : Column) (offer : Nat → Option Value) (source : String) :
    (∃ after, Store.checkJoins collection = .ok () ∧
      after.store = world.store.enterAll (world.store.entries collection column offer source) ∧
      world.useStore outage op (fun store => Store.checkJoins collection >>= fun _ =>
        pure (store.write collection column offer source)) =
          (.ok (world.store.entries collection column offer source).length, after)) ∨
    ∃ cause after, after.store = world.store ∧
      world.useStore outage op (fun store => Store.checkJoins collection >>= fun _ =>
        pure (store.write collection column offer source)) = (.error cause, after) := by
  rcases useStore_cases outage world op (fun store => Store.checkJoins collection >>= fun _ =>
    pure (store.write collection column offer source)) with ⟨answer, after, huse, h⟩ | h
  · obtain ⟨hjoins, hwrite⟩ := Store.checked_eq_ok_iff.1 huse
    rw [Store.write_eq_enterAll] at hwrite
    obtain ⟨rfl, hstore⟩ := Prod.mk.inj hwrite
    exact .inl ⟨after, hjoins, hstore.symm, h⟩
  · exact .inr h

/-- A call that is answered adds its entries to the store, and one that fails adds none. -/
theorem answer_cases (outage : Outage) (world : World) (call : Call) :
    (∃ answer after entries, world.store.Serves call answer entries ∧
      after.store = world.store.enterAll entries ∧
      world.answer outage call = (.ok answer, after)) ∨
    ∃ cause after, after.store = world.store ∧
      world.answer outage call = (.error cause, after) := by
  cases call with
  | pin collection =>
    rcases readStore_cases outage world .pin collection (·.pinned collection) with
      ⟨after, hjoins, hstore, h⟩ | h
    · exact .inl ⟨_, after, [], ⟨hjoins, rfl, rfl⟩, hstore, h⟩
    · exact .inr h
  | count collection =>
    rcases readStore_cases outage world .count collection (fun store =>
      (store.select collection).length) with ⟨after, hjoins, hstore, h⟩ | h
    · exact .inl ⟨_, after, [], ⟨hjoins, rfl, rfl⟩, hstore, h⟩
    · exact .inr h
  | records collection =>
    rcases readStore_cases outage world .records collection (fun store =>
      (store.select collection).map Record.snapshot) with ⟨after, hjoins, hstore, h⟩ | h
    · exact .inl ⟨_, after, [], ⟨hjoins, rfl, rfl⟩, hstore, h⟩
    · exact .inr h
  | updateAll collection column value source =>
    rcases writeStore_cases outage world .updateAll collection column (fun _ => some value)
      source with ⟨after, hjoins, hstore, h⟩ | h
    · exact .inl ⟨_, after, _, ⟨hjoins, rfl, rfl⟩, hstore, h⟩
    · exact .inr h
  | updateEach collection column writes source =>
    rcases writeStore_cases outage world .updateEach collection column (Store.lastWrite? writes)
      source with ⟨after, hjoins, hstore, h⟩ | h
    · exact .inl ⟨_, after, _, ⟨hjoins, rfl, rfl⟩, hstore, h⟩
    · exact .inr h
  | suggest provider request =>
    cases hprovider : provider world.requests request with
    | ok suggestions =>
      refine .inl ⟨suggestions, { world with requests := request :: world.requests }, [], rfl,
        rfl, ?_⟩
      simp [answer, askProvider, hprovider, Except.mapError]
    | error cause =>
      refine .inr ⟨.provider cause, { world with requests := request :: world.requests }, rfl, ?_⟩
      simp [answer, askProvider, hprovider, Except.mapError]

/-- While the store does not fail, a call that reads a collection without a missing join is
answered. -/
theorem exists_readStore (world : World) (op : Operation) {collection : Collection}
    (h : Store.checkJoins collection = .ok ()) (read : Store → α) :
    ∃ answer after, world.readStore .none op
      (fun store => Store.checkJoins collection >>= fun _ => pure (read store)) =
        (.ok answer, after) := by
  refine ⟨read world.store, { world with calls := op :: world.calls }, ?_⟩
  rw [h]
  rfl

/-- While the store does not fail, a call that writes through a collection without a missing join
is answered. -/
theorem exists_writeStore (world : World) (op : Operation) {collection : Collection}
    (h : Store.checkJoins collection = .ok ()) (write : Store → α × Store) :
    ∃ answer after, world.useStore .none op
      (fun store => Store.checkJoins collection >>= fun _ => pure (write store)) =
        (.ok answer, after) := by
  refine ⟨(write world.store).1,
    { world with store := (write world.store).2, calls := op :: world.calls }, ?_⟩
  rw [h]
  rfl

/-- While the store does not fail, a call on a collection that misses no join is answered. -/
theorem exists_answer {call : Call} (h : call.Joined) (world : World) :
    ∃ answer after, world.answer .none call = (.ok answer, after) := by
  cases call with
  | pin collection => exact exists_readStore world .pin h (·.pinned collection)
  | count collection =>
    exact exists_readStore world .count h fun store => (store.select collection).length
  | records collection =>
    exact exists_readStore world .records h fun store =>
      (store.select collection).map Record.snapshot
  | updateAll collection column value source =>
    exact exists_writeStore world .updateAll h
      (·.write collection column (fun _ => some value) source)
  | updateEach collection column writes source =>
    exact exists_writeStore world .updateEach h
      (·.write collection column (Store.lastWrite? writes) source)
  | suggest => exact absurd h id

/-- A call that is answered adds its entries to the store. -/
theorem serves_of_answer (outage : Outage) {call : Call} {answer : call.Answer} {after : World}
    (h : world.answer outage call = (.ok answer, after)) :
    ∃ entries, world.store.Serves call answer entries ∧
      after.store = world.store.enterAll entries := by
  rcases world.answer_cases outage call with
    ⟨_, _, entries, hserves, hstore, hanswer⟩ | ⟨_, _, _, hanswer⟩
  · rw [h] at hanswer
    obtain ⟨hsame, rfl⟩ := Prod.mk.inj hanswer
    rw [Except.ok.inj hsame]
    exact ⟨entries, hserves, hstore⟩
  · rw [h] at hanswer
    cases (Prod.mk.inj hanswer).1

end World

namespace Job

variable {α β : Type} {outage : Outage} {world after : World} {result : α}

/-- A job goes on where the one before it ended. -/
theorem run_bind (job : Job α) (next : α → Job β) (outage : Outage) (world : World) :
    (job >>= next).run outage world =
      match job.run outage world with
      | (.ok result, between) => (next result).run outage between
      | (.error cause, between) => (.error cause, between) := by
  change (job.bind next).run outage world = _
  induction job generalizing world with
  | done result => rfl
  | fail cause => rfl
  | ask call resume ih =>
    rw [bind_ask, run, run]
    rcases world.answer_cases outage call with ⟨answer, between, -, -, -, h⟩ | ⟨_, _, -, h⟩
    · simp only [h, ih]
    · simp only [h]

/-- Two jobs end well when the first does, and then the second in the world that it left. -/
theorem run_bind_eq_ok_iff {job : Job α} {next : α → Job β} {result : β} :
    (job >>= next).run outage world = (.ok result, after) ↔
      ∃ middle between, job.run outage world = (.ok middle, between) ∧
        (next middle).run outage between = (.ok result, after) := by
  rw [run_bind]
  cases hjob : job.run outage world with
  | mk answer between =>
    cases answer with
    | error cause => simp
    | ok middle => simp

/-- A job that is done returns its result and leaves the world as it is. -/
theorem run_pure_eq_ok_iff {returned : α} :
    (pure returned : Job α).run outage world = (.ok result, after) ↔
      returned = result ∧ world = after := by
  change ((.ok returned, world) : Except Failure α × World) = _ ↔ _
  rw [Prod.mk.injEq, Except.ok.injEq]

/-- A check returns its result and leaves the world as it is. -/
theorem run_ofRule_eq_ok_iff {check : Except RuleError α} :
    (ofRule check).run outage world = (.ok result, after) ↔
      check = .ok result ∧ world = after := by
  cases check with
  | error cause => simp [ofRule, run]
  | ok value => simp [ofRule, run]

/-- A call whose run ends with a result was answered with it. -/
theorem serves_of_run_call {call : Call} {answer : call.Answer}
    (h : (Job.call call).run outage world = (.ok answer, after)) :
    ∃ entries, world.store.Serves call answer entries ∧
      after.store = world.store.enterAll entries := by
  refine World.serves_of_answer outage ?_
  rw [Job.call, run] at h
  rcases world.answer_cases outage call with ⟨_, _, -, -, -, hanswer⟩ | ⟨_, _, -, hanswer⟩
  · rw [hanswer] at h ⊢
    exact h
  · rw [hanswer] at h
    cases (Prod.mk.inj h).1

/-- While the store does not fail, a call on a collection that misses no join is answered. -/
theorem exists_run_call {call : Call} (h : call.Joined) (world : World) :
    ∃ answer after, (Job.call call).run .none world = (.ok answer, after) := by
  obtain ⟨answer, after, hanswer⟩ := World.exists_answer h world
  exact ⟨answer, after, by rw [Job.call, run, hanswer]; rfl⟩

end Job

end Bookkeeping
