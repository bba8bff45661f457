import Bookkeeping.Proofs.Condition.Satisfaction
import Bookkeeping.Proofs.Job.Run
import Mathlib.Data.List.Forall2

/-!
# Jobs that stay in scope

The scope of an owner is what it has and has not excluded. A collection is confined when only
records in scope can belong to it. A job that uses confined collections only, and never writes what
decides the scope, comes to the same in any two stores that agree there: it neither sees nor changes
anything else.
-/

namespace Bookkeeping

open Transaction (excluded)

/-- The record belongs to the owner and is not excluded. -/
def Record.InScope (owner : Nat) (record : Record) : Prop :=
  record.owner = owner ∧ record.fields.get? excluded = some (.flag false)

instance (owner : Nat) (record : Record) : Decidable (record.InScope owner) :=
  inferInstanceAs (Decidable (_ ∧ _))

/-- The records hold the same and have the same columns locked, in whatever order they were. -/
structure Record.Alike (a b : Record) : Prop where
  id : a.id = b.id
  owner : a.owner = b.owner
  fields : a.fields = b.fields
  isLocked : ∀ column, a.isLocked column = b.isLocked column

/-- The records in the scope of an owner, in the order of their insertion. -/
def Store.inScope (store : Store) (owner : Nat) : List Record :=
  store.records.filter (·.InScope owner)

/-- The stores agree on the records in the scope of an owner; all else may differ. -/
structure Store.AgreeInScope (owner : Nat) (first second : Store) : Prop where
  baseTable : first.baseTable = second.baseTable
  records : List.Forall₂ Record.Alike (first.inScope owner) (second.inScope owner)

namespace Record

variable {a b : Record} {owner : Nat} {entries : List Enrichment}

/-- Entries about other columns leave a record in its scope, or out of it. -/
theorem inScope_enterAll_iff (h : ∀ entry ∈ entries, entry.column ≠ excluded) :
    (a.enterAll entries).InScope owner ↔ a.InScope owner := by
  rw [InScope, InScope, owner_enterAll,
    get?_enterAll_of_forall_ne fun entry hentry _ => h entry hentry]

private theorem Alike.enter (h : a.Alike b) (entry : Enrichment) :
    (a.enter entry).Alike (b.enter entry) := by
  unfold Record.enter
  rw [h.id]
  split
  · exact ⟨h.id, h.owner, by rw [write, write, h.fields], h.isLocked⟩
  · exact h

private theorem Alike.enterAll (h : a.Alike b) (entries : List Enrichment) :
    (a.enterAll entries).Alike (b.enterAll entries) := by
  induction entries generalizing a b with
  | nil => exact h
  | cons entry rest ih => exact ih (h.enter entry)

private theorem Alike.snapshot (h : a.Alike b) : a.snapshot = b.snapshot := by
  rw [Record.snapshot, Record.snapshot, h.id, h.fields]

private theorem Alike.selects (h : a.Alike b) (collection : Collection) :
    collection.selects a = collection.selects b := by
  have hpasses (filter : Filter) : filter.passes a = filter.passes b := by
    cases filter with
    | restrict p => rw [Filter.passes, Filter.passes, h.fields]
    | unlocked column => rw [Filter.passes, Filter.passes, h.isLocked]
    | pinned ids => rw [Filter.passes, Filter.passes, h.id]
  simp only [Collection.selects, h.owner, hpasses]

/-- What alike records have in common, lists of them have in common. -/
theorem map_eq_of_alike {α : Type} {part : Record → α}
    (hpart : ∀ a b, Alike a b → part a = part b) {first second : List Record}
    (h : List.Forall₂ Alike first second) : first.map part = second.map part := by
  have hparts : List.Forall₂ (· = ·) (first.map part) (second.map part) :=
    List.rel_map hpart h
  rwa [List.forall₂_eq_eq_eq] at hparts

end Record

/-- Only records among these, or in scope at the moment of reading, belong to the collection. -/
structure Collection.Confined (owner : Nat) (ids : List Nat) (collection : Collection) : Prop where
  owned : collection.owner = owner
  confines : .restrict (.compare excluded .eq (.flag false)) ∈ collection.filters ∨
    ∃ pinned, .pinned pinned ∈ collection.filters ∧ pinned ⊆ ids

/-- The call uses a confined collection and leaves the scope as it is. -/
def Call.Confined (owner : Nat) (ids : List Nat) : Call → Prop
  | .pin collection => collection.Confined owner ids
  | .count collection => collection.Confined owner ids
  | .records collection => collection.Confined owner ids
  | .updateAll collection column _ _ => collection.Confined owner ids ∧ column ≠ excluded
  | .updateEach collection column _ _ => collection.Confined owner ids ∧ column ≠ excluded
  | .suggest .. => True

/-- A collection that the call is answered with is confined. -/
def Call.AnswerConfined (owner : Nat) (ids : List Nat) : (call : Call) → call.Answer → Prop
  | .pin _, pinned => Collection.Confined owner ids pinned
  | .count _, _ => True
  | .records _, _ => True
  | .updateAll .., _ => True
  | .updateEach .., _ => True
  | .suggest .., _ => True

/-- Every call that the job can come to is confined, given that those before it were answered with
confined collections. -/
inductive Job.Confined {α : Type} (owner : Nat) (ids : List Nat) : Job α → Prop
  | done (result : α) : Confined owner ids (.done result)
  | fail (cause : Failure) : Confined owner ids (.fail cause)
  | ask {call : Call} {next : call.Answer → Job α} (hcall : call.Confined owner ids)
      (hnext : ∀ answer, call.AnswerConfined owner ids answer → Confined owner ids (next answer)) :
      Confined owner ids (.ask call next)

namespace Store

variable {store first second : Store} {owner : Nat} {ids : List Nat} {collection : Collection}
  {entries : List Enrichment}

private theorem selected_inScope (hids : (store.inScope owner).map Record.id = ids)
    (hcollection : collection.Confined owner ids) {record : Record}
    (hmem : record ∈ store.records) (hselects : collection.selects record = true) :
    record.InScope owner := by
  simp only [Collection.selects, Bool.and_eq_true, beq_iff_eq, List.all_eq_true] at hselects
  obtain ⟨howner, hpasses⟩ := hselects
  rcases hcollection.confines with hscope | ⟨pinned, hpinned, hsubset⟩
  · refine ⟨howner.trans hcollection.owned, ?_⟩
    have hholds : Predicate.comparison .eq (.flag false) (record.fields.get? excluded) = true :=
      hpasses _ hscope
    exact (Transaction.comparison_eq_iff Transaction.order?_flag_iff).1 hholds
  · -- a pinned record has the number of one in scope, so it is that one
    have hid : record.id ∈ pinned := by simpa [Filter.passes] using hpasses _ hpinned
    obtain ⟨other, hother, hsame⟩ := List.mem_map.1 (hids ▸ hsubset hid)
    obtain ⟨hstored, hinside⟩ := List.mem_filter.1 hother
    rw [← eq_of_id_eq hstored hmem hsame]
    simpa using hinside

/-- Of a confined collection only the records in scope matter. -/
theorem select_eq_filter_inScope (hids : (store.inScope owner).map Record.id = ids)
    (hcollection : collection.Confined owner ids) :
    store.select collection = (store.inScope owner).filter collection.selects := by
  rw [select, inScope, List.filter_filter]
  refine List.filter_congr fun record hmem => ?_
  cases hselects : collection.selects record with
  | false => rfl
  | true => simpa using selected_inScope hids hcollection hmem hselects

/-- Stores that agree in scope have the same records there. -/
theorem AgreeInScope.map_id_eq (h : first.AgreeInScope owner second) :
    (first.inScope owner).map Record.id = (second.inScope owner).map Record.id :=
  Record.map_eq_of_alike (fun _ _ => Record.Alike.id) h.records

private theorem AgreeInScope.select (h : first.AgreeInScope owner second)
    (hids : (first.inScope owner).map Record.id = ids)
    (hcollection : collection.Confined owner ids) :
    List.Forall₂ Record.Alike (first.select collection) (second.select collection) := by
  rw [select_eq_filter_inScope hids hcollection,
    select_eq_filter_inScope (h.map_id_eq.symm.trans hids) hcollection]
  exact List.rel_filter (fun a b hab => iff_of_eq (congrArg (· = true) (hab.selects collection)))
    h.records

/-- Entries about columns other than the one that decides the scope do not change who is in it. -/
theorem inScope_enterAll (h : ∀ entry ∈ entries, entry.column ≠ excluded) :
    (store.enterAll entries).inScope owner = (store.inScope owner).map (·.enterAll entries) := by
  rw [inScope, records_enterAll, List.filter_map, inScope]
  congr 1
  refine List.filter_congr fun record _ => ?_
  simp only [Function.comp_apply, Record.inScope_enterAll_iff h]

private theorem map_id_inScope_enterAll (h : ∀ entry ∈ entries, entry.column ≠ excluded) :
    ((store.enterAll entries).inScope owner).map Record.id =
      (store.inScope owner).map Record.id := by
  simp [inScope_enterAll h, Function.comp_def]

private theorem AgreeInScope.enterAll (h : first.AgreeInScope owner second)
    (hentries : ∀ entry ∈ entries, entry.column ≠ excluded) :
    (first.enterAll entries).AgreeInScope owner (second.enterAll entries) := by
  refine ⟨by simpa using h.baseTable, ?_⟩
  rw [inScope_enterAll hentries, inScope_enterAll hentries]
  exact List.rel_map (fun _ _ hab => hab.enterAll entries) h.records

private theorem AgreeInScope.map_id_select (h : first.AgreeInScope owner second)
    (hids : (first.inScope owner).map Record.id = ids)
    (hcollection : collection.Confined owner ids) :
    (first.select collection).map Record.id = (second.select collection).map Record.id :=
  Record.map_eq_of_alike (fun _ _ => Record.Alike.id) (h.select hids hcollection)

/-- The same is written through a confined collection. -/
theorem AgreeInScope.entries_eq (h : first.AgreeInScope owner second)
    (hids : (first.inScope owner).map Record.id = ids)
    (hcollection : collection.Confined owner ids) (column : Column)
    (offer : Nat → Option Value) (source : String) :
    first.entries collection column offer source =
      second.entries collection column offer source := by
  rw [entries, entries, h.map_id_select hids hcollection]

private theorem record_mem_of_mem_entries (hids : (store.inScope owner).map Record.id = ids)
    (hcollection : collection.Confined owner ids) {column : Column} {offer : Nat → Option Value}
    {source : String} {entry : Enrichment}
    (h : entry ∈ store.entries collection column offer source) : entry.record ∈ ids := by
  obtain ⟨-, record, hmem, hid, hselects⟩ := exists_record_of_mem_entries h
  have hinside := selected_inScope hids hcollection hmem hselects
  rw [← hid, ← hids]
  exact List.mem_map_of_mem (List.mem_filter.2 ⟨hmem, by simpa using hinside⟩)

/-- What a confined collection is pinned to is confined. -/
theorem confined_pinned (hids : (store.inScope owner).map Record.id = ids)
    (hcollection : collection.Confined owner ids) :
    (store.pinned collection).Confined owner ids := by
  refine ⟨hcollection.owned, .inr ⟨_, List.mem_singleton_self _, ?_⟩⟩
  rw [select_eq_filter_inScope hids hcollection, ← hids]
  exact List.map_subset _ (List.filter_subset_self _)

end Store

/-- The entry is about one of these records and leaves the scope as it is. -/
def Enrichment.Within (ids : List Nat) (entry : Enrichment) : Prop :=
  entry.record ∈ ids ∧ entry.column ≠ excluded

/-- One call to either of two stores fails alike, or has the same answer and makes the same
entries. -/
inductive Store.Concur {α : Type} (ids : List Nat) (first second : Store) :
    Except StoreError (α × Store) → Except StoreError (α × Store) → Prop
  | fails (cause : StoreError) : Concur ids first second (.error cause) (.error cause)
  | answers (answer : α) {entries : List Enrichment}
      (hentries : ∀ entry ∈ entries, entry.Within ids) :
      Concur ids first second (.ok (answer, first.enterAll entries))
        (.ok (answer, second.enterAll entries))

namespace World

variable {α : Type} {owner : Nat} {ids : List Nat} {first second : World} {collection : Collection}

/-- A job that stays in scope cannot tell the worlds apart; these are the records in scope. -/
structure Alike (owner : Nat) (ids : List Nat) (first second : World) : Prop where
  store : first.store.AgreeInScope owner second.store
  ids : (first.store.inScope owner).map Record.id = ids
  calls : first.calls = second.calls
  requests : first.requests = second.requests

/-- Both worlds have gone on by the same calls and the same entries. -/
structure Advance (ids : List Nat) (first second firstAfter secondAfter : World) : Prop where
  calls : firstAfter.calls = secondAfter.calls
  requests : firstAfter.requests = secondAfter.requests
  entered : ∃ entries, (∀ entry ∈ entries, entry.Within ids) ∧
    firstAfter.store = first.store.enterAll entries ∧
    secondAfter.store = second.store.enterAll entries

/-- At the start neither world has gone on. -/
theorem Alike.refl_advance (h : Alike owner ids first second) :
    Advance ids first second first second :=
  ⟨h.calls, h.requests, [], by simp, rfl, rfl⟩

/-- What goes on twice by the same calls goes on by the same calls. -/
theorem Advance.trans {firstMiddle secondMiddle firstAfter secondAfter : World}
    (hearlier : Advance ids first second firstMiddle secondMiddle)
    (hlater : Advance ids firstMiddle secondMiddle firstAfter secondAfter) :
    Advance ids first second firstAfter secondAfter := by
  obtain ⟨earlier, hwithin, hfirst, hsecond⟩ := hearlier.entered
  obtain ⟨later, hlaterWithin, hfirstAfter, hsecondAfter⟩ := hlater.entered
  refine ⟨hlater.calls, hlater.requests, earlier ++ later,
    List.forall_mem_append.2 ⟨hwithin, hlaterWithin⟩, ?_, ?_⟩
  · rw [hfirstAfter, hfirst, Store.enterAll_append]
  · rw [hsecondAfter, hsecond, Store.enterAll_append]

/-- Worlds that have gone on alike are still alike. -/
theorem Alike.advance {firstAfter secondAfter : World} (h : Alike owner ids first second)
    (hadvance : Advance ids first second firstAfter secondAfter) :
    Alike owner ids firstAfter secondAfter := by
  obtain ⟨entries, hwithin, hfirst, hsecond⟩ := hadvance.entered
  have hcolumns : ∀ entry ∈ entries, entry.column ≠ excluded :=
    fun entry hentry => (hwithin entry hentry).2
  refine ⟨?_, ?_, hadvance.calls, hadvance.requests⟩
  · rw [hfirst, hsecond]
    exact h.store.enterAll hcolumns
  · rw [hfirst, Store.map_id_inScope_enterAll hcolumns, h.ids]

/-- A use of the store on which both stores concur is answered alike. -/
theorem Alike.useStore (h : Alike owner ids first second) (outage : Outage) (op : Operation)
    {use : Store → Except StoreError (α × Store)}
    (huse : Store.Concur ids first.store second.store (use first.store) (use second.store)) :
    (first.useStore outage op use).1 = (second.useStore outage op use).1 ∧
      Advance ids first second (first.useStore outage op use).2
        (second.useStore outage op use).2 := by
  unfold World.useStore
  rw [h.calls]
  cases outage second.calls op with
  | some message => exact ⟨rfl, rfl, h.requests, [], by simp, rfl, rfl⟩
  | none =>
    generalize use first.store = firstUse at huse
    generalize use second.store = secondUse at huse
    cases huse with
    | fails cause => exact ⟨rfl, rfl, h.requests, [], by simp, rfl, rfl⟩
    | answers answer hentries => exact ⟨rfl, rfl, h.requests, _, hentries, rfl, rfl⟩

/-- Reading the same in both stores is answered alike. -/
theorem Alike.readStore (h : Alike owner ids first second) (outage : Outage) (op : Operation)
    {read : Store → α} (hread : read first.store = read second.store) :
    let reader := fun store => Store.checkJoins collection >>= fun _ => pure (read store)
    (first.readStore outage op reader).1 = (second.readStore outage op reader).1 ∧
      Advance ids first second (first.readStore outage op reader).2
        (second.readStore outage op reader).2 := by
  refine h.useStore outage op ?_
  cases hjoins : Store.checkJoins collection with
  | error cause => exact .fails cause
  | ok =>
    simp only [ok_bind, hread]
    exact .answers (read second.store) (List.forall_mem_nil _)

/-- Writing through a confined collection is answered alike. -/
theorem Alike.writeStore (h : Alike owner ids first second) (outage : Outage) (op : Operation)
    (hcollection : collection.Confined owner ids) {column : Column} (hcolumn : column ≠ excluded)
    (offer : Nat → Option Value) (source : String) :
    let writer := fun store : Store => Store.checkJoins collection >>= fun _ =>
      pure (store.write collection column offer source)
    (first.useStore outage op writer).1 = (second.useStore outage op writer).1 ∧
      Advance ids first second (first.useStore outage op writer).2
        (second.useStore outage op writer).2 := by
  refine h.useStore outage op ?_
  cases hjoins : Store.checkJoins collection with
  | error cause => exact .fails cause
  | ok =>
    have hentries := h.store.entries_eq h.ids hcollection column offer source
    simp only [ok_bind, Store.write_eq_enterAll, hentries]
    refine .answers _ fun entry hentry => ?_
    rw [← hentries] at hentry
    exact ⟨Store.record_mem_of_mem_entries h.ids hcollection hentry,
      (Store.exists_record_of_mem_entries hentry).1.trans_ne hcolumn⟩

/-- A confined call is answered alike, and a collection that it is answered with is confined. -/
theorem Alike.answer (h : Alike owner ids first second) (outage : Outage) {call : Call}
    (hcall : call.Confined owner ids) :
    (first.answer outage call).1 = (second.answer outage call).1 ∧
      Advance ids first second (first.answer outage call).2 (second.answer outage call).2 := by
  cases call with
  | pin collection =>
    have hpinned : first.store.pinned collection = second.store.pinned collection := by
      rw [Store.pinned, Store.pinned, h.store.map_id_select h.ids hcall]
    exact h.readStore outage .pin hpinned
  | count collection => exact h.readStore outage .count (h.store.select h.ids hcall).length_eq
  | records collection =>
    exact h.readStore outage .records
      (Record.map_eq_of_alike (fun _ _ => Record.Alike.snapshot) (h.store.select h.ids hcall))
  | updateAll collection column value source =>
    exact h.writeStore outage .updateAll hcall.1 hcall.2 (fun _ => some value) source
  | updateEach collection column writes source =>
    exact h.writeStore outage .updateEach hcall.1 hcall.2 (Store.lastWrite? writes) source
  | suggest provider request =>
    refine ⟨?_, ?_, ?_, [], by simp, rfl, rfl⟩
    · simp only [World.answer, askProvider, h.requests]
    · exact h.calls
    · simp only [World.answer, askProvider, h.requests]

/-- A collection that a confined call is answered with is confined. -/
theorem confined_of_answer (hids : (first.store.inScope owner).map Record.id = ids) {call : Call}
    (hcall : call.Confined owner ids) {outage : Outage} {answer : call.Answer} {after : World}
    (h : first.answer outage call = (.ok answer, after)) :
    call.AnswerConfined owner ids answer := by
  obtain ⟨entries, hserves, -⟩ := serves_of_answer outage h
  cases call with
  | pin collection =>
    obtain ⟨-, rfl, -⟩ := hserves
    exact Store.confined_pinned hids hcall
  | count => exact trivial
  | records => exact trivial
  | updateAll => exact trivial
  | updateEach => exact trivial
  | suggest => exact trivial

end World

namespace Job

variable {α β : Type} {owner : Nat} {ids : List Nat}

/-- A confined job stays confined with a confined job behind it. -/
theorem Confined.bind {job : Job α} {next : α → Job β} (hjob : job.Confined owner ids)
    (hnext : ∀ result, (next result).Confined owner ids) : (job >>= next).Confined owner ids := by
  change (job.bind next).Confined owner ids
  induction hjob with
  | done result => exact hnext result
  | fail cause => exact .fail cause
  | ask hcall _ ih => exact .ask hcall ih

/-- A confined call stays confined with a job behind it that is confined for confined answers. -/
theorem Confined.call_bind {call : Call} {next : call.Answer → Job α}
    (hcall : call.Confined owner ids)
    (hnext : ∀ answer, call.AnswerConfined owner ids answer → (next answer).Confined owner ids) :
    (Job.call call >>= next).Confined owner ids :=
  .ask hcall hnext

/-- A confined call is a confined job. -/
theorem confined_call {call : Call} (h : call.Confined owner ids) :
    (Job.call call).Confined owner ids :=
  .ask h fun answer _ => .done answer

/-- A check asks nothing, so what is confined behind it is confined with it. -/
theorem Confined.ofRule_bind {check : Except RuleError α} {next : α → Job β}
    (hnext : ∀ result, check = .ok result → (next result).Confined owner ids) :
    (Job.ofRule check >>= next).Confined owner ids := by
  cases check with
  | ok result => exact hnext result rfl
  | error cause => exact .fail _

/-- A job that stays in scope comes to the same in worlds that are alike, and they stay alike. -/
theorem Confined.run {job : Job α} (hjob : job.Confined owner ids) {first second : World}
    (h : World.Alike owner ids first second) (outage : Outage) :
    (job.run outage first).1 = (job.run outage second).1 ∧
      World.Advance ids first second (job.run outage first).2 (job.run outage second).2 := by
  induction hjob generalizing first second with
  | done result => exact ⟨rfl, h.refl_advance⟩
  | fail cause => exact ⟨rfl, h.refl_advance⟩
  | @ask call next hcall _ ih =>
    obtain ⟨hanswer, hadvance⟩ := h.answer outage hcall
    rw [Job.run, Job.run]
    generalize hfirst : first.answer outage call = firstAnswer at hanswer hadvance
    generalize hsecond : second.answer outage call = secondAnswer at hanswer hadvance
    obtain ⟨answer, firstAfter⟩ := firstAnswer
    obtain ⟨_, secondAfter⟩ := secondAnswer
    obtain rfl : answer = _ := hanswer
    cases answer with
    | error cause => exact ⟨rfl, hadvance⟩
    | ok answer =>
      have hconfined := World.confined_of_answer h.ids hcall hfirst
      obtain ⟨hresult, hrest⟩ := ih answer hconfined (h.advance hadvance)
      exact ⟨hresult, hadvance.trans hrest⟩

end Job

end Bookkeeping
