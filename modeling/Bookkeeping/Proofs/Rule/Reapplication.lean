import Bookkeeping.Proofs.Rule.Refusal
import Bookkeeping.Proofs.Rule.Visibility

/-!
# Applying a rule again

A rule that asks no provider is applied to its end whenever its check lets it through. What it
enters depends on the records that it covers and on nothing else, so applying it again enters no
value that is not there already: it covers no other records than before, and their cells hold what
it writes.
-/

namespace Bookkeeping

/-- The action is of one of the types that set a value, which all have such a key. -/
def Action.Sets (action : Action) : Prop :=
  "set_".toList <+: action.typeKey.toList

/-- The action writes a value of the rule's own, and asks no provider for one. -/
def Action.SetsIn (catalog : Catalog) (action : Action) : Prop :=
  ∀ type, catalog.actionType action.typeKey = .ok type → type.effect ≠ .enrich

/-- No two of the actions write the same column. -/
def Catalog.WritesApart (catalog : Catalog) (actions : List Action) : Prop :=
  ∀ action ∈ actions, ∀ other ∈ actions, ∀ type otherType,
    catalog.actionType action.typeKey = .ok type →
    catalog.actionType other.typeKey = .ok otherType →
    type.column = otherType.column → action = other

/-- Some condition of the rule reads the column. -/
def Rule.Reads (rule : Rule) (catalog : Catalog) (column : Column) : Prop :=
  ∃ parts, catalog.predicates rule.conditions = .ok parts ∧
    column ∈ parts.flatMap Predicate.atomColumns

/-- Some action of the rule writes the column. -/
def Rule.WritesTo (rule : Rule) (catalog : Catalog) (column : Column) : Prop :=
  ∃ action ∈ rule.actions, ∃ type, catalog.actionType action.typeKey = .ok type ∧
    type.column = column

namespace Transaction

variable {vocabulary : Vocabulary}

/-- The columns in which values are set, each with the type for it. -/
def setters : List (Column × String) :=
  [(category, "set_transaction_category"), (merchant, "set_transaction_merchant"),
    (name, "set_transaction_name")]

private theorem mem_setters {type : ActionType} (h : type ∈ actions vocabulary)
    (heffect : type.effect ≠ .enrich) : (type.column, type.key) ∈ setters := by
  simp only [actions, List.mem_cons, List.not_mem_nil, or_false] at h
  rcases h with rfl | rfl | rfl | rfl | rfl
  · simp [setters]
  · simp [setters]
  · simp [setters]
  · exact absurd rfl heffect
  · exact absurd rfl heffect

/-- A type whose key says that it sets a value does so. -/
theorem setsIn_catalog {action : Action} (h : action.Sets) :
    action.SetsIn (catalog vocabulary) := by
  intro type htype
  obtain ⟨hdeclared, hkey⟩ := Catalog.mem_actions_of_actionType htype
  rw [Action.Sets, ← hkey] at h
  simp only [catalog, actions, List.mem_cons, List.not_mem_nil, or_false] at hdeclared
  rcases hdeclared with rfl | rfl | rfl | rfl | rfl
  · simp
  · simp
  · simp
  · exact absurd h (by decide : ¬"set_".toList <+: "auto_categorize".toList)
  · exact absurd h (by decide : ¬"set_".toList <+: "auto_detect_merchants".toList)

/-- Actions that set values write apart if no two are of one type. -/
theorem writesApart_catalog {actions : List Action}
    (hsets : ∀ action ∈ actions, action.SetsIn (catalog vocabulary))
    (hdistinct : (actions.map Action.typeKey).Nodup) :
    (catalog vocabulary).WritesApart actions := by
  have hkeys : ∀ setter ∈ setters, ∀ other ∈ setters, setter.1 = other.1 →
      setter.2 = other.2 := by decide
  intro action haction other hother type otherType htype hotherType hcolumn
  obtain ⟨hdeclared, hkey⟩ := Catalog.mem_actions_of_actionType htype
  obtain ⟨hotherDeclared, hotherKey⟩ := Catalog.mem_actions_of_actionType hotherType
  have hsetter := mem_setters hdeclared (hsets action haction type htype)
  have hotherSetter := mem_setters hotherDeclared (hsets other hother otherType hotherType)
  have hsame : type.key = otherType.key := hkeys _ hsetter _ hotherSetter hcolumn
  rw [hkey, hotherKey] at hsame
  exact List.inj_on_of_nodup_map hdistinct haction hother hsame

end Transaction

section Completion

variable {registry : Registry} {ignoreLocks : Bool}

/-- The records that an action may write among pinned ones can be reached. -/
theorem Registry.checkJoins_target_pinned (type : ActionType) (store : Store)
    (collection : Collection) (ignoreLocks : Bool) :
    Store.checkJoins (target type (store.pinned collection) ignoreLocks) = .ok () := by
  cases ignoreLocks <;> rfl

/-- A permitted action that asks no provider is performed on pinned records. -/
theorem Registry.Permits.exists_run_execute {action : Action} (h : registry.Permits action)
    (hsets : action.SetsIn registry.catalog) (store : Store) (collection : Collection)
    (ignoreLocks : Bool) (world : World) :
    ∃ written after, (registry.execute action (store.pinned collection) ignoreLocks).run .none
      world = (.ok written, after) := by
  obtain ⟨type, value, htype, hvalue, -⟩ := h
  let target := target type (store.pinned collection) ignoreLocks
  have hjoined : (Call.updateAll target type.column value registry.settings.source).Joined :=
    checkJoins_target_pinned type store collection ignoreLocks
  have hcall := Job.exists_run_call hjoined world
  simp only [execute, htype, hvalue, Job.ofRule_ok_bind]
  cases heffect : type.effect with
  | assign => exact hcall
  | setText => exact hcall
  | enrich => exact absurd heffect (hsets type htype)

private theorem Registry.exists_run_executeAll {actions : List Action}
    (hpermits : ∀ action ∈ actions, registry.Permits action)
    (hsets : ∀ action ∈ actions, action.SetsIn registry.catalog) (store : Store)
    (collection : Collection) (ignoreLocks : Bool) (world : World) :
    ∃ outcomes after, (registry.executeAll (store.pinned collection) ignoreLocks actions).run
      .none world = (.ok outcomes, after) := by
  induction actions generalizing world with
  | nil => exact ⟨[], world, rfl⟩
  | cons action rest ih =>
    obtain ⟨haction, hrest⟩ := List.forall_mem_cons.1 hpermits
    obtain ⟨hset, hothers⟩ := List.forall_mem_cons.1 hsets
    obtain ⟨written, between, hfirst⟩ :=
      haction.exists_run_execute hset store collection ignoreLocks world
    obtain ⟨outcomes, after, hlater⟩ := ih hrest hothers between
    refine ⟨⟨action.typeKey, written⟩ :: outcomes, after, ?_⟩
    rw [executeAll]
    refine Job.run_bind_eq_ok_iff.2 ⟨written, between, hfirst, ?_⟩
    exact Job.run_bind_eq_ok_iff.2 ⟨outcomes, after, hlater, rfl⟩

namespace Rule

variable {rule : Rule}

/-- A valid rule that asks no provider is applied to its end, if what it matches can be read. -/
theorem exists_run_applyWith (h : rule.validate registry = .ok ())
    (hsets : ∀ action ∈ rule.actions, action.SetsIn registry.catalog) {collection : Collection}
    (hmatching : rule.matching registry = .ok collection)
    (hjoins : Store.checkJoins collection = .ok ()) (ignoreLocks : Bool) (world : World) :
    ∃ report after, (rule.applyWith registry ignoreLocks).run .none world =
      (.ok report, after) := by
  have hpermitted := (valid_of_validate h).permitted
  have hjoined : (Call.pin collection).Joined := hjoins
  obtain ⟨pinned, middle, hpin⟩ := Job.exists_run_call hjoined world
  obtain ⟨-, ⟨-, hpinned, -⟩, -⟩ := Job.serves_of_run_call hpin
  have hcounted : (Call.count pinned).Joined := by
    rw [hpinned]
    rfl
  obtain ⟨matched, last, hcount⟩ := Job.exists_run_call hcounted middle
  obtain ⟨outcomes, after, houtcomes⟩ :=
    Registry.exists_run_executeAll hpermitted hsets world.store collection ignoreLocks last
  refine ⟨⟨rule.displayName, matched, outcomes⟩, after, ?_⟩
  simp only [applyWith, h, hmatching, Job.ofRule_ok_bind]
  refine Job.run_bind_eq_ok_iff.2 ⟨pinned, middle, hpin, ?_⟩
  refine Job.run_bind_eq_ok_iff.2 ⟨matched, last, hcount, ?_⟩
  refine Job.run_bind_eq_ok_iff.2 ⟨outcomes, after, ?_, rfl⟩
  rw [hpinned]
  exact houtcomes

/-- A rule that is applied to its end has performed its actions on what it matches. -/
theorem exists_performs {outage : Outage} {world after : World} {report : Report}
    {collection : Collection} (hmatching : rule.matching registry = .ok collection)
    (h : (rule.applyWith registry ignoreLocks).run outage world = (.ok report, after)) :
    report.matched = (world.store.select collection).length ∧
      ∃ entries, Performs registry.catalog registry.settings.source
          (writable (world.store.select collection) ignoreLocks) rule.actions report.outcomes
          entries ∧
        after.store = world.store.enterAll entries := by
  simp only [applyWith, hmatching, Job.ofRule_ok_bind, Job.run_bind_eq_ok_iff,
    Job.run_ofRule_eq_ok_iff, Job.run_pure_eq_ok_iff] at h
  obtain ⟨_, _, ⟨-, rfl⟩, pinned, middle, hpin, matched, last, hcount, outcomes, _, houtcomes,
    rfl, rfl⟩ := h
  obtain ⟨_, ⟨-, rfl, rfl⟩, hmiddle⟩ := Job.serves_of_run_call hpin
  obtain ⟨_, ⟨-, rfl, rfl⟩, hlast⟩ := Job.serves_of_run_call hcount
  have hstore : _ = world.store.enterAll [] := hlast.trans hmiddle
  obtain ⟨entries, hperforms, hafter⟩ := Registry.performs_executeAll hstore houtcomes
  refine ⟨?_, entries, hperforms, hafter⟩
  rw [hmiddle, Store.select_pinned, List.length_map]

end Rule

end Completion

section Performed

variable {catalog : Catalog} {source : String} {reached : Column → List Nat}
  {actions : List Action} {outcomes : List ActionOutcome} {entries : List Enrichment}

/-- Every entry is made by one of the actions, in its column and about a record that it reaches. -/
theorem Performs.exists_action (h : Performs catalog source reached actions outcomes entries)
    {entry : Enrichment} (hmem : entry ∈ entries) :
    ∃ action ∈ actions, ∃ type value, catalog.actionType action.typeKey = .ok type ∧
      type.check action.value = .ok value ∧ entry.column = type.column ∧
      entry.record ∈ reached type.column ∧ (type.effect ≠ .enrich → entry.value = value) := by
  induction h with
  | nil => cases hmem
  | cons htype hvalue hwrites hrest ih =>
    rcases List.mem_append.1 hmem with hmem | hmem
    · exact ⟨_, List.mem_cons_self, _, _, htype, hvalue, hwrites.column_eq hmem,
        hwrites.record_mem hmem, fun heffect => hwrites.value_eq heffect hmem⟩
    · obtain ⟨action, haction, hmade⟩ := ih hmem
      exact ⟨action, List.mem_cons_of_mem _ haction, hmade⟩

/-- An action that sets a value enters it for every record that it reaches. -/
theorem Performs.exists_entry (h : Performs catalog source reached actions outcomes entries)
    {action : Action} (haction : action ∈ actions) (hsets : action.SetsIn catalog)
    {type : ActionType} (htype : catalog.actionType action.typeKey = .ok type) {id : Nat}
    (hid : id ∈ reached type.column) :
    ∃ entry ∈ entries, entry.record = id ∧ entry.column = type.column := by
  induction h with
  | nil => cases haction
  | cons hfirst hvalue hwrites hrest ih =>
    rcases List.mem_cons.1 haction with rfl | haction
    · obtain rfl := Except.ok.inj (hfirst.symm.trans htype)
      cases hwrites with
      | every =>
        refine ⟨_, List.mem_append_left _ (List.mem_map_of_mem hid), rfl, rfl⟩
      | suggested henrich => exact absurd henrich (hsets _ htype)
    · obtain ⟨entry, hentry, hcell⟩ := ih haction
      exact ⟨entry, List.mem_append_right _ hentry, hcell⟩

/-- The outcomes of actions that set values compare as the numbers of records reached do. -/
theorem Performs.forall₂_outcomes (rel : Nat → Nat → Prop) {others : Column → List Nat}
    {otherOutcomes : List ActionOutcome} {otherEntries : List Enrichment}
    (hsets : ∀ action ∈ actions, action.SetsIn catalog)
    (hreached : ∀ column, rel (reached column).length (others column).length)
    (h : Performs catalog source reached actions outcomes entries)
    (hother : Performs catalog source others actions otherOutcomes otherEntries) :
    List.Forall₂ (fun outcome other => outcome.actionType = other.actionType ∧
      rel outcome.written other.written) outcomes otherOutcomes := by
  induction h generalizing otherOutcomes otherEntries with
  | nil =>
    cases hother
    exact .nil
  | cons htype hvalue hwrites hrest ih =>
    cases hother with
    | cons htype' hvalue' hwrites' hrest' =>
      obtain rfl := Except.ok.inj (htype.symm.trans htype')
      have heffect := hsets _ List.mem_cons_self _ htype
      refine .cons ⟨rfl, ?_⟩ (ih (fun action hmem => hsets action (List.mem_cons_of_mem _ hmem))
        hrest')
      cases hwrites with
      | suggested henrich => exact absurd henrich heffect
      | every =>
        cases hwrites' with
        | suggested henrich => exact absurd henrich heffect
        | every =>
          rw [List.length_map, List.length_map]
          exact hreached _

/-- Actions that set values come to the same outcomes where they reach as many records. -/
theorem Performs.outcomes_eq {others : Column → List Nat} {otherOutcomes : List ActionOutcome}
    {otherEntries : List Enrichment} (hsets : ∀ action ∈ actions, action.SetsIn catalog)
    (hreached : ∀ column, (reached column).length = (others column).length)
    (h : Performs catalog source reached actions outcomes entries)
    (hother : Performs catalog source others actions otherOutcomes otherEntries) :
    outcomes = otherOutcomes := by
  rw [← List.forall₂_eq_eq_eq]
  refine (h.forall₂_outcomes Eq hsets hreached hother).imp ?_
  rintro ⟨key, written⟩ ⟨otherKey, otherWritten⟩ ⟨rfl, rfl⟩
  rfl

/-- Of fewer records no others may be written. -/
theorem writable_sublist {records others : List Record} (h : records.Sublist others)
    (ignoreLocks : Bool) (column : Column) :
    (writable records ignoreLocks column).Sublist (writable others ignoreLocks column) :=
  (h.filter _).map _

/-- Only records that were to be written have a number that may be written. -/
theorem exists_record_of_mem_writable {records : List Record} {ignoreLocks : Bool}
    {column : Column} {id : Nat} (h : id ∈ writable records ignoreLocks column) :
    ∃ record ∈ records, record.id = id := by
  obtain ⟨record, hmem, hid⟩ := List.mem_map.1 h
  exact ⟨record, (List.mem_filter.1 hmem).1, hid⟩

end Performed

/-- A cell that is entered, and with one value only, holds that value. -/
theorem Store.get?_enterAll_of_forall_eq {store : Store} {entries : List Enrichment} {id : Nat}
    {column : Column} {value : Value} {record : Record} (hfound : store.find? id = some record)
    (hvalues : ∀ entry ∈ entries, entry.record = id → entry.column = column →
      entry.value = value)
    (hentered : ∃ entry ∈ entries, entry.record = id ∧ entry.column = column) :
    (store.enterAll entries).get? id column = some value := by
  -- the last entry about the cell counts, so the entries are taken from the end
  induction entries using List.reverseRecOn with
  | nil => simp at hentered
  | append_singleton earlier last ih =>
    have hstep : store.enterAll (earlier ++ [last]) = (store.enterAll earlier).enter last :=
      Store.enterAll_append store earlier [last]
    rw [hstep, Store.get?_enter]
    split
    · rename_i hcell
      rw [Store.find?_enterAll, hfound]
      exact congrArg some (hvalues last (by simp) hcell.1 hcell.2)
    · rename_i hother
      refine ih (fun entry hentry => hvalues entry (by simp [hentry])) ?_
      obtain ⟨entry, hentry, hcell⟩ := hentered
      rcases List.mem_append.1 hentry with hentry | hentry
      · exact ⟨entry, hentry, hcell⟩
      · obtain rfl := List.mem_singleton.1 hentry
        exact absurd hcell hother

/-- Whether a record belongs to a collection does not depend on columns that no restriction
reads. -/
theorem Collection.selects_enterAll {collection : Collection} {record : Record}
    {entries : List Enrichment}
    (h : ∀ p ∈ collection.restrictions, ∀ column ∈ p.atomColumns, ∀ entry ∈ entries,
      entry.column ≠ column) :
    collection.selects (record.enterAll entries) = collection.selects record := by
  refine selects_congr (Record.id_enterAll ..) (Record.owner_enterAll ..)
    (fun p hp column hcolumn => ?_) fun column _ => Record.isLocked_enterAll ..
  exact Record.get?_enterAll_of_forall_ne fun entry hentry _ => h p hp column hcolumn entry hentry

section Again

variable {catalog : Catalog} {source : String} {store : Store} {collection : Collection}
  {ignoreLocks : Bool} {actions : List Action} {outcomes again : List ActionOutcome}
  {entries later : List Enrichment}

/-- What belongs to the collection after actions on it belonged to it before. -/
theorem Performs.exists_select
    (h : Performs catalog source (writable (store.select collection) ignoreLocks) actions outcomes
      entries) :
    ∃ kept : List Record, kept.Sublist (store.select collection) ∧
      (store.enterAll entries).select collection = kept.map (·.enterAll entries) := by
  have hrecords : ∀ entry ∈ entries, entry.record ∈ (store.select collection).map Record.id := by
    intro entry hentry
    obtain ⟨-, -, type, -, -, -, -, hreached, -⟩ := h.exists_action hentry
    obtain ⟨record, hrecord, hid⟩ := exists_record_of_mem_writable hreached
    exact List.mem_map.2 ⟨record, hrecord, hid⟩
  exact ⟨_, List.filter_sublist, Store.select_enterAll hrecords⟩

/-- Actions on a collection bring no record into it. -/
theorem Performs.map_id_select_sublist
    (h : Performs catalog source (writable (store.select collection) ignoreLocks) actions outcomes
      entries) :
    (((store.enterAll entries).select collection).map Record.id).Sublist
      ((store.select collection).map Record.id) := by
  obtain ⟨kept, hkept, hselect⟩ := h.exists_select
  have hid : Record.id ∘ (·.enterAll entries) = Record.id := funext fun _ => Record.id_enterAll
  rw [hselect, List.map_map, hid]
  exact hkept.map Record.id

/-- Nor do they make a record of it writable. -/
theorem Performs.writable_select_sublist
    (h : Performs catalog source (writable (store.select collection) ignoreLocks) actions outcomes
      entries) (column : Column) :
    (writable ((store.enterAll entries).select collection) ignoreLocks column).Sublist
      (writable (store.select collection) ignoreLocks column) := by
  obtain ⟨kept, hkept, hselect⟩ := h.exists_select
  rw [hselect, writable_map_enterAll]
  exact writable_sublist hkept ignoreLocks column

/-- If no entry is in a column that the collection reads, its records stay the same. -/
theorem Store.select_enterAll_of_unread
    (h : ∀ p ∈ collection.restrictions, ∀ column ∈ p.atomColumns, ∀ entry ∈ entries,
      entry.column ≠ column) :
    (store.enterAll entries).select collection =
      (store.select collection).map (·.enterAll entries) := by
  rw [select, records_enterAll, List.filter_map, select]
  congr 1
  exact List.filter_congr fun record _ => Collection.selects_enterAll h

variable (hsets : ∀ action ∈ actions, action.SetsIn catalog) (hapart : catalog.WritesApart actions)
  (hfirst : Performs catalog source (writable (store.select collection) ignoreLocks) actions
    outcomes entries)
include hsets hapart hfirst

/-- After actions that write apart, a cell that one of them reaches holds what it writes. -/
theorem Performs.get?_of_reached {action : Action} (haction : action ∈ actions)
    {type : ActionType} {value : Value} (htype : catalog.actionType action.typeKey = .ok type)
    (hvalue : type.check action.value = .ok value) {id : Nat}
    (hid : id ∈ writable (store.select collection) ignoreLocks type.column) :
    (store.enterAll entries).get? id type.column = some value := by
  obtain ⟨record, hrecord, hnumber⟩ := exists_record_of_mem_writable hid
  have hfound : store.find? id = some record :=
    Store.find?_eq_some_iff.2 ⟨(List.mem_filter.1 hrecord).1, hnumber⟩
  have hentered := hfirst.exists_entry haction (hsets action haction) htype hid
  refine Store.get?_enterAll_of_forall_eq hfound (fun entry hentry _ hcolumn => ?_) hentered
  obtain ⟨other, hother, otherType, otherValue, hotherType, hotherValue, hotherColumn, -, hmade⟩ :=
    hfirst.exists_action hentry
  -- an entry in this column can only come from the action itself
  have hsame : action = other :=
    hapart action haction other hother type otherType htype hotherType
      (hcolumn.symm.trans hotherColumn)
  subst hsame
  obtain rfl := Except.ok.inj (htype.symm.trans hotherType)
  obtain rfl := Except.ok.inj (hvalue.symm.trans hotherValue)
  exact hmade (hsets action haction type htype)

/-- Performing the actions again changes no value. -/
theorem Performs.get?_again
    (hagain : Performs catalog source
      (writable ((store.enterAll entries).select collection) ignoreLocks) actions again later)
    (id : Nat) (column : Column) :
    ((store.enterAll entries).enterAll later).get? id column =
      (store.enterAll entries).get? id column := by
  refine Store.get?_enterAll_of_forall_holds (fun entry hentry => ?_) id column
  obtain ⟨action, haction, type, value, htype, hvalue, hcolumn, hreached, hmade⟩ :=
    hagain.exists_action hentry
  have hid := (hfirst.writable_select_sublist type.column).subset hreached
  rw [hcolumn, hmade (hsets action haction type htype)]
  exact hfirst.get?_of_reached hsets hapart haction htype hvalue hid

end Again

/-- Rules about transactions write no other columns than these. -/
theorem Transaction.column_mem_of_writesTo {vocabulary : Vocabulary} {rule : Rule}
    {column : Column} (h : rule.WritesTo (catalog vocabulary) column) :
    column ∈ [category, merchant, name] := by
  obtain ⟨action, -, type, htype, rfl⟩ := h
  exact column_mem_of_mem_actions (Catalog.mem_actions_of_actionType htype).1

/-- A first day is compared with the date, and with nothing else. -/
theorem Transaction.columns_datePredicate {vocabulary : Vocabulary} {since : Option Date}
    {bound : List Predicate} (h : (catalog vocabulary).datePredicate since = .ok bound) :
    ∀ column ∈ bound.flatMap Predicate.atomColumns, since.isSome ∧ column = date := by
  cases since with
  | none =>
    obtain rfl : [] = bound := Except.ok.inj h
    simp
  | some first =>
    obtain rfl : [.compare date .gte (.date first)] = bound := Except.ok.inj h
    simp [Predicate.atomColumns]

section Transactions

variable {rule : Rule} {world : World} {owner : Nat} {vocabulary : Vocabulary}
  {provider : Option Provider} {settings : Settings}

/-- Which records a rule matches is decided by the scope, by the date if there is a first day, and
by the columns that its conditions read. -/
theorem Rule.reads_of_mem_restrictions {store : Store} {collection : Collection}
    (hmatching : rule.matching (Transaction.registry store owner vocabulary provider settings) =
      .ok collection)
    {p : Predicate} (hp : p ∈ collection.restrictions) {column : Column}
    (hcolumn : column ∈ p.atomColumns) :
    column = Transaction.excluded ∨
      (rule.effectiveDate.isSome ∧ column = Transaction.date) ∨
      rule.Reads (Transaction.catalog vocabulary) column := by
  obtain ⟨combined, types, prepared, hcombined, htypes, rfl⟩ :=
    Registry.exists_leafTypes_of_evaluateFrom hmatching
  obtain ⟨joins, rfl⟩ := htypes.same
  obtain ⟨parts, hparts, bound, hbound, rfl⟩ := Catalog.combined_eq_ok_iff.1 hcombined
  rw [Collection.restrictions_restrict, List.mem_append, List.mem_singleton] at hp
  rcases hp with hscope | rfl
  · have hscoped : p = .compare Transaction.excluded .eq (.flag false) :=
      List.mem_singleton.1 hscope
    exact .inl (by simpa [hscoped, Predicate.atomColumns] using hcolumn)
  · rw [Predicate.atomColumns_conjunction, List.flatMap_append, List.mem_append] at hcolumn
    rcases hcolumn with hread | hdate
    · exact .inr (.inr ⟨parts, hparts, hread⟩)
    · exact .inr (.inl (Transaction.columns_datePredicate hbound column hdate))

/-- Where a rule's actions keep off the columns of its conditions, they write nothing that decides
which records it matches: neither the scope nor the date can be written. -/
theorem Rule.not_writesTo_of_mem_restrictions {store : Store} {collection : Collection}
    (hmatching : rule.matching (Transaction.registry store owner vocabulary provider settings) =
      .ok collection)
    (happart : ∀ column, rule.Reads (Transaction.catalog vocabulary) column →
      ¬rule.WritesTo (Transaction.catalog vocabulary) column) :
    ∀ p ∈ collection.restrictions, ∀ column ∈ p.atomColumns,
      ¬rule.WritesTo (Transaction.catalog vocabulary) column := by
  intro p hp column hcolumn hwrites
  have hwritten := Transaction.column_mem_of_writesTo hwrites
  rcases Rule.reads_of_mem_restrictions hmatching hp hcolumn with rfl | ⟨-, rfl⟩ | hread
  · exact absurd hwritten (by decide)
  · exact absurd hwritten (by decide)
  · exact happart column hread hwrites

/-- What a rule writes then leaves the records that it matches where they are. -/
theorem Rule.select_matching_enterAll {store other : Store} {collection : Collection}
    {source : String} {reached : Column → List Nat} {outcomes : List ActionOutcome}
    {entries : List Enrichment}
    (hmatching : rule.matching (Transaction.registry other owner vocabulary provider settings) =
      .ok collection)
    (happart : ∀ column, rule.Reads (Transaction.catalog vocabulary) column →
      ¬rule.WritesTo (Transaction.catalog vocabulary) column)
    (hperforms : Performs (Transaction.catalog vocabulary) source reached rule.actions outcomes
      entries) :
    (store.enterAll entries).select collection =
      (store.select collection).map (·.enterAll entries) := by
  have hkeeps := Rule.not_writesTo_of_mem_restrictions hmatching happart
  refine Store.select_enterAll_of_unread fun p hp column hcolumn entry hentry hread => ?_
  obtain ⟨action, haction, type, -, htype, -, hwritten, -⟩ := hperforms.exists_action hentry
  exact hkeeps p hp column hcolumn ⟨action, haction, type, htype, hwritten.symm.trans hread⟩

/-- A valid rule whose actions all set values is applied to its end, and to its end once more: each
time it performs its actions on what it matches then. -/
theorem Rule.exists_performs_twice (hbase : world.store.baseTable = Transaction.baseTable)
    (hvalid : rule.validate (Transaction.registry world.store owner vocabulary provider settings) =
      .ok ())
    (hset : ∀ action ∈ rule.actions, action.SetsIn (Transaction.catalog vocabulary))
    (ignoreLocks : Bool) :
    ∃ collection first between second after entries later,
      rule.matching (Transaction.registry world.store owner vocabulary provider settings) =
        .ok collection ∧
      (rule.applyWith (Transaction.registry world.store owner vocabulary provider settings)
        ignoreLocks).run .none world = (.ok first, between) ∧
      (rule.applyWith (Transaction.registry between.store owner vocabulary provider settings)
        ignoreLocks).run .none between = (.ok second, after) ∧
      (first.matched = (world.store.select collection).length ∧
        between.store = world.store.enterAll entries ∧
        Performs (Transaction.catalog vocabulary) settings.source
          (writable (world.store.select collection) ignoreLocks) rule.actions first.outcomes
          entries) ∧
      second.matched = (between.store.select collection).length ∧
        after.store = between.store.enterAll later ∧
        Performs (Transaction.catalog vocabulary) settings.source
          (writable (between.store.select collection) ignoreLocks) rule.actions second.outcomes
          later := by
  obtain ⟨collection, hmatching⟩ := (valid_of_validate hvalid).exists_matching
  have hjoins := Rule.checkJoins_matching hbase hmatching
  obtain ⟨first, between, hrun⟩ :=
    exists_run_applyWith hvalid hset hmatching hjoins ignoreLocks world
  obtain ⟨hmatched, entries, hperforms, hbetween⟩ := exists_performs hmatching hrun
  obtain ⟨second, after, hrunAgain⟩ :=
    exists_run_applyWith hvalid hset hmatching hjoins ignoreLocks between
  obtain ⟨hmatchedAgain, later, hperformsAgain, hafter⟩ := exists_performs hmatching hrunAgain
  have hregistry : Transaction.registry between.store owner vocabulary provider settings =
      Transaction.registry world.store owner vocabulary provider settings := by
    rw [Transaction.registry, Store.collection, hbetween, Store.baseTable_enterAll]
    rfl
  exact ⟨collection, first, between, second, after, entries, later, hmatching, hrun,
    hregistry ▸ hrunAgain, ⟨hmatched, hbetween, hperforms⟩, hmatchedAgain, hafter, hperformsAgain⟩

/-- **Applying again.** A valid rule whose actions all set values is applied to its end, and so it
is when it is applied again with the same regard to locks. The second time it covers no record that
it did not cover before, no action writes more records than it did, and every value and every lock
stays. If no action writes a column that the conditions read, the second report has the counts of
the first. -/
theorem Rule.applyWith_again (hbase : world.store.baseTable = Transaction.baseTable)
    (hvalid : rule.validate (Transaction.registry world.store owner vocabulary provider settings) =
      .ok ())
    (hsets : ∀ action ∈ rule.actions, action.Sets) (ignoreLocks : Bool) :
    ∃ first between second after,
      (rule.applyWith (Transaction.registry world.store owner vocabulary provider settings)
        ignoreLocks).run .none world = (.ok first, between) ∧
      (rule.applyWith (Transaction.registry between.store owner vocabulary provider settings)
        ignoreLocks).run .none between = (.ok second, after) ∧
      first.matched = (world.store.covered rule owner).length ∧
      second.matched = (between.store.covered rule owner).length ∧
      ((between.store.covered rule owner).map Record.id).Sublist
        ((world.store.covered rule owner).map Record.id) ∧
      List.Forall₂ (fun again once => again.actionType = once.actionType ∧
        again.written ≤ once.written) second.outcomes first.outcomes ∧
      (∀ id column, after.store.get? id column = between.store.get? id column) ∧
      (∀ id column, after.store.isLocked id column = between.store.isLocked id column) ∧
      ((∀ column, rule.Reads (Transaction.catalog vocabulary) column →
          ¬rule.WritesTo (Transaction.catalog vocabulary) column) →
        second.matched = first.matched ∧ second.outcomes = first.outcomes) := by
  have hset : ∀ action ∈ rule.actions, action.SetsIn (Transaction.catalog vocabulary) :=
    fun action haction => Transaction.setsIn_catalog (hsets action haction)
  have hapart : (Transaction.catalog vocabulary).WritesApart rule.actions :=
    Transaction.writesApart_catalog hset (valid_of_validate hvalid).distinct
  obtain ⟨collection, first, between, second, after, entries, later, hmatching, hrun, hrunAgain,
    ⟨hmatched, hbetween, hperforms⟩, hmatchedAgain, hafter, hperformsAgain⟩ :=
    Rule.exists_performs_twice hbase hvalid hset ignoreLocks
  have hcovered (store : Store) : store.covered rule owner = store.select collection :=
    (Rule.select_matching hmatching store).symm
  refine ⟨first, between, second, after, hrun, hrunAgain, ?_, ?_, ?_, ?_, ?_, ?_, ?_⟩
  · rw [hcovered, hmatched]
  · rw [hcovered, hmatchedAgain]
  · rw [hcovered, hcovered, hbetween]
    exact hperforms.map_id_select_sublist
  · rw [hbetween] at hperformsAgain
    exact hperformsAgain.forall₂_outcomes (· ≤ ·) hset
      (fun column => (hperforms.writable_select_sublist column).length_le) hperforms
  · intro id column
    rw [hbetween] at hperformsAgain
    rw [hafter, hbetween]
    exact hperforms.get?_again hset hapart hperformsAgain id column
  · intro id column
    rw [hafter, Store.isLocked_enterAll]
  · intro hunread
    have hsame : between.store.select collection =
        (world.store.select collection).map (·.enterAll entries) := by
      rw [hbetween]
      exact Rule.select_matching_enterAll hmatching hunread hperforms
    constructor
    · rw [hmatched, hmatchedAgain, hsame, List.length_map]
    · refine hperformsAgain.outcomes_eq hset (fun column => ?_) hperforms
      rw [hsame, writable_map_enterAll]

end Transactions

/-- The sample rule with a category to be set alone. -/
def Sample.dined : Rule :=
  { meals with actions := [⟨"set_transaction_category", .text "dining"⟩] }

/-- It sets what its conditions do not read. -/
theorem Sample.not_writesTo_of_reads_dined (column : Column)
    (hreads : dined.Reads (Transaction.catalog vocabulary) column) :
    ¬dined.WritesTo (Transaction.catalog vocabulary) column := by
  rintro ⟨action, haction, type, htype, rfl⟩
  obtain rfl := List.mem_singleton.1 haction
  obtain rfl := Except.ok.inj htype
  obtain ⟨parts, hparts, hread⟩ := hreads
  obtain rfl := Except.ok.inj hparts
  have hcolumns : Transaction.category ∉ [Transaction.merchant, Transaction.merchant,
      Transaction.name, Transaction.name] := by decide
  exact hcolumns hread

private theorem Sample.matched_eq {ran : Except Failure Report × World} {report : Report}
    {after : World}
    {matched : Nat} (h : ran = (.ok report, after))
    (hcount : ran.1.map Report.matched = .ok matched) : report.matched = matched := by
  rw [h] at hcount
  exact Except.ok.inj hcount

/-- The sample rule gives another merchant to the first record, which it does not cover any more
then. Applied again it covers the third record alone, and changes nothing. With a category to be
set instead it covers and writes both records again. -/
theorem Rule.applyWith_again_meals :
    (∃ first between second after,
      (Sample.meals.applyWith (Transaction.registry Sample.ledger 1 Sample.vocabulary none {})
        false).run .none { store := Sample.ledger } = (.ok first, between) ∧
      (Sample.meals.applyWith (Transaction.registry between.store 1 Sample.vocabulary none {})
        false).run .none between = (.ok second, after) ∧
      first.matched = 2 ∧ second.matched = 1 ∧
      List.Forall₂ (fun again once => again.actionType = once.actionType ∧
        again.written ≤ once.written) second.outcomes first.outcomes ∧
      ∀ id column, after.store.get? id column = between.store.get? id column) ∧
    ∃ first between second after,
      (Sample.dined.applyWith (Transaction.registry Sample.ledger 1 Sample.vocabulary none {})
        false).run .none { store := Sample.ledger } = (.ok first, between) ∧
      (Sample.dined.applyWith (Transaction.registry between.store 1 Sample.vocabulary none {})
        false).run .none between = (.ok second, after) ∧
      first.matched = 2 ∧ second.matched = 2 ∧ second.outcomes = first.outcomes := by
  have hsets : ∀ action ∈ Sample.meals.actions, action.Sets := by
    simp only [Sample.meals, Action.Sets]
    decide
  have hset : ∀ action ∈ Sample.dined.actions, action.Sets := by
    simp only [Sample.dined, Action.Sets]
    decide
  constructor
  · obtain ⟨first, between, second, after, hfirst, hsecond, -, -, -, hwritten, hkept, -⟩ :=
      @Rule.applyWith_again Sample.meals { store := Sample.ledger } 1 Sample.vocabulary none {} rfl
        rfl hsets false
    have hmatched : first.matched = 2 := Sample.matched_eq hfirst rfl
    obtain rfl := congrArg Prod.snd hfirst
    have hmatchedAgain : second.matched = 1 := Sample.matched_eq hsecond rfl
    exact ⟨first, _, second, after, hfirst, hsecond, hmatched, hmatchedAgain, hwritten, hkept⟩
  · obtain ⟨first, between, second, after, hfirst, hsecond, -, -, -, -, -, -, hunread⟩ :=
      @Rule.applyWith_again Sample.dined { store := Sample.ledger } 1 Sample.vocabulary none {} rfl
        rfl hset false
    obtain ⟨hagain, houtcomes⟩ := hunread Sample.not_writesTo_of_reads_dined
    have hmatched : first.matched = 2 := Sample.matched_eq hfirst rfl
    exact ⟨first, between, second, after, hfirst, hsecond, hmatched, hagain.trans hmatched,
      houtcomes⟩

end Bookkeeping
