import Bookkeeping.Proofs.Job.Run
import Bookkeeping.Proofs.Rule.Coverage
import Bookkeeping.Rule.Application

/-!
# What applying a rule does

The records that a rule covers are fixed before its first action. Each action then writes those
of them whose column may be written, whatever the actions before it wrote, and the log tells all
that has changed.
-/

namespace Bookkeeping

/-- The numbers of those records whose column an action may write. -/
def writable (records : List Record) (ignoreLocks : Bool) (column : Column) : List Nat :=
  (records.filter fun record => ignoreLocks || !record.isLocked column).map Record.id

/-- Locks stay, so what is entered does not change which records may be written. -/
theorem writable_map_enterAll (records : List Record) (entries : List Enrichment)
    (ignoreLocks : Bool) (column : Column) :
    writable (records.map (·.enterAll entries)) ignoreLocks column =
      writable records ignoreLocks column := by
  simp only [writable, List.filter_map, List.map_map, Function.comp_def,
    Record.isLocked_enterAll, Record.id_enterAll]

/-- The entries by which an action writes into the records that it reaches. A given value goes
into every one of them, a suggested value of the author's list into some. -/
inductive Writes (type : ActionType) (value : Value) (source : String) (reached : List Nat) :
    List Enrichment → Prop
  | every (heffect : type.effect ≠ .enrich) :
      Writes type value source reached (reached.map fun id => ⟨id, type.column, value, source⟩)
  | suggested {entries : List Enrichment} (heffect : type.effect = .enrich)
      (hrecords : (entries.map Enrichment.record).Sublist reached)
      (hentries : ∀ entry ∈ entries,
        entry.column = type.column ∧ entry.source = source ∧ type.accepts entry.value = true) :
      Writes type value source reached entries

/-- The outcomes and the entries of actions performed in order, each on the records that may be
written in its column. -/
inductive Performs (catalog : Catalog) (source : String) (reached : Column → List Nat) :
    List Action → List ActionOutcome → List Enrichment → Prop
  | nil : Performs catalog source reached [] [] []
  | cons {action : Action} {actions : List Action} {outcomes : List ActionOutcome}
      {type : ActionType} {value : Value} {entries later : List Enrichment}
      (htype : catalog.actionType action.typeKey = .ok type)
      (hvalue : type.check action.value = .ok value)
      (hwrites : Writes type value source (reached type.column) entries)
      (hrest : Performs catalog source reached actions outcomes later) :
      Performs catalog source reached (action :: actions)
        (⟨action.typeKey, entries.length⟩ :: outcomes) (entries ++ later)

/-- The outcomes count the entries. -/
theorem Performs.total_written {catalog : Catalog} {source : String} {reached : Column → List Nat}
    {actions : List Action} {outcomes : List ActionOutcome} {entries : List Enrichment}
    (h : Performs catalog source reached actions outcomes entries) :
    outcomes.foldr (fun outcome total => outcome.written + total) 0 = entries.length := by
  induction h with
  | nil => rfl
  | cons htype hvalue hwrites hrest ih => simp [ih]

/-- Only what was written for a record is its last write. -/
theorem Store.mem_of_lastWrite?_eq_some {writes : List (Nat × Value)} {id : Nat} {value : Value}
    (h : Store.lastWrite? writes id = some value) : (id, value) ∈ writes := by
  obtain ⟨earlier, later, hsplit, -⟩ := List.lookup_eq_some_iff.1 h
  rw [← List.mem_reverse, hsplit]
  simp

/-- An action type is declared under its key. -/
theorem Catalog.mem_actions_of_actionType {catalog : Catalog} {key : String} {type : ActionType}
    (h : catalog.actionType key = .ok type) : type ∈ catalog.actions ∧ type.key = key := by
  unfold actionType at h
  split at h
  · rename_i found hfound
    obtain rfl := Except.ok.inj h
    exact ⟨List.mem_of_find?_eq_some hfound, by simpa using List.find?_some hfound⟩
  · cases h

/-- Actions on transactions write no other column than these. -/
theorem Transaction.column_mem_of_mem_actions {vocabulary : Vocabulary} {type : ActionType}
    (h : type ∈ actions vocabulary) : type.column ∈ [category, merchant, name] := by
  have hcolumns : (actions vocabulary).map ActionType.column =
      [category, merchant, name, category, merchant] := rfl
  have hcolumn : type.column ∈ (actions vocabulary).map ActionType.column := List.mem_map_of_mem h
  rw [hcolumns] at hcolumn
  exact (by decide : [category, merchant, name, category, merchant] ⊆ [category, merchant, name])
    hcolumn

namespace Registry

variable {registry : Registry} {outage : Outage} {world after : World} {written : Nat}

/-- An update writes one value into all records of the collection. -/
theorem writes_updateAll {type : ActionType} {value : Value} {target : Collection}
    {source : String} (heffect : type.effect ≠ .enrich)
    (h : (Job.call (.updateAll target type.column value source)).run outage world =
      (.ok written, after)) :
    ∃ entries, Writes type value source ((world.store.select target).map Record.id) entries ∧
      written = entries.length ∧ after.store = world.store.enterAll entries := by
  obtain ⟨entries, ⟨-, hwritten, hentries⟩, hstore⟩ := Job.serves_of_run_call h
  refine ⟨entries, ?_, hwritten, hstore⟩
  rw [hentries, Store.entries, entriesFor_some]
  exact .every heffect

/-- An update with accepted suggestions writes into some records of the collection. -/
theorem writes_updateEach {type : ActionType} (value : Value) {target : Collection}
    {source : String} {suggestions : List Suggestion} (heffect : type.effect = .enrich)
    (h : (Job.call (.updateEach target type.column (acceptedWrites type suggestions)
      source)).run outage world = (.ok written, after)) :
    ∃ entries, Writes type value source ((world.store.select target).map Record.id) entries ∧
      written = entries.length ∧ after.store = world.store.enterAll entries := by
  obtain ⟨entries, ⟨-, hwritten, rfl⟩, hstore⟩ := Job.serves_of_run_call h
  refine ⟨_, .suggested heffect ?_ ?_, hwritten, hstore⟩
  · rw [Store.entries, map_record_entriesFor]
    exact List.filter_sublist
  · intro entry hentry
    obtain ⟨id, -, chosen, hchosen, rfl⟩ := mem_entriesFor_iff.1 hentry
    have hmem := Store.mem_of_lastWrite?_eq_some hchosen
    obtain ⟨suggestion, hsuggestion, hwrite⟩ := List.mem_map.1 hmem
    obtain ⟨-, rfl⟩ := Prod.mk.inj hwrite
    exact ⟨rfl, rfl, (List.mem_filter.1 hsuggestion).2⟩

/-- Writing nothing is writing into some records. -/
theorem writes_none {type : ActionType} {value : Value} {source : String} {reached : List Nat}
    {middle : World} (heffect : type.effect = .enrich) (hstore : middle.store = world.store)
    (h : (pure 0 : Job Nat).run outage middle = (.ok written, after)) :
    ∃ entries, Writes type value source reached entries ∧
      written = entries.length ∧ after.store = world.store.enterAll entries := by
  obtain ⟨rfl, rfl⟩ := Job.run_pure_eq_ok_iff.1 h
  exact ⟨[], .suggested heffect (List.nil_sublist _) (by simp), rfl, hstore⟩

/-- Asking a provider writes into some records of the target. -/
theorem writes_enrich {type : ActionType} {value : Value} {target : Collection}
    (heffect : type.effect = .enrich)
    (h : (registry.enrich type value target).run outage world = (.ok written, after)) :
    ∃ entries, Writes type value registry.settings.source
        ((world.store.select target).map Record.id) entries ∧
      written = entries.length ∧ after.store = world.store.enterAll entries := by
  unfold enrich at h
  split at h
  · simp [Job.run] at h
  · rename_i provider hprovider
    simp only [Job.run_bind_eq_ok_iff] at h
    obtain ⟨records, middle, hrecords, h⟩ := h
    obtain ⟨_, ⟨-, -, rfl⟩, hmiddle⟩ := Job.serves_of_run_call hrecords
    split at h
    · exact writes_none heffect hmiddle h
    · obtain ⟨suggestions, last, hsuggestions, h⟩ := Job.run_bind_eq_ok_iff.1 h
      obtain ⟨_, rfl, hlast⟩ := Job.serves_of_run_call hsuggestions
      have hstore : last.store = world.store := hlast.trans hmiddle
      split at h
      · exact writes_none heffect hstore h
      · obtain ⟨entries, hwrites, hwritten, hafter⟩ := writes_updateEach value heffect h
        rw [hstore] at hwrites hafter
        exact ⟨entries, hwrites, hwritten, hafter⟩

/-- Performing an action writes into the records of its target. -/
theorem writes_execute {action : Action} {collection : Collection} {ignoreLocks : Bool}
    (h : (registry.execute action collection ignoreLocks).run outage world =
      (.ok written, after)) :
    ∃ type value entries, registry.catalog.actionType action.typeKey = .ok type ∧
      type.check action.value = .ok value ∧
      Writes type value registry.settings.source
        ((world.store.select (target type collection ignoreLocks)).map Record.id) entries ∧
      written = entries.length ∧ after.store = world.store.enterAll entries := by
  unfold execute at h
  simp only [Job.run_bind_eq_ok_iff, Job.run_ofRule_eq_ok_iff] at h
  obtain ⟨type, _, ⟨htype, rfl⟩, value, _, ⟨hvalue, rfl⟩, h⟩ := h
  cases heffect : type.effect with
  | assign =>
    simp only [heffect] at h
    obtain ⟨entries, hentries⟩ := writes_updateAll (by simp [heffect]) h
    exact ⟨type, value, entries, htype, hvalue, hentries⟩
  | setText =>
    simp only [heffect] at h
    obtain ⟨entries, hentries⟩ := writes_updateAll (by simp [heffect]) h
    exact ⟨type, value, entries, htype, hvalue, hentries⟩
  | enrich =>
    simp only [heffect] at h
    obtain ⟨entries, hentries⟩ := writes_enrich heffect h
    exact ⟨type, value, entries, htype, hvalue, hentries⟩

/-- The target of an action has the records of the collection that it may write. -/
theorem select_target (store : Store) (type : ActionType) (collection : Collection)
    (ignoreLocks : Bool) :
    store.select (target type collection ignoreLocks) =
      (store.select collection).filter fun record =>
        ignoreLocks || !record.isLocked type.column := by
  cases ignoreLocks with
  | true => simp [target]
  | false => simp [target, Store.select_enrichable]

/-- Whatever was entered since a collection was pinned, an action on it reaches those of its
records whose column may be written. -/
theorem map_id_select_target {store : Store} {collection : Collection} (type : ActionType)
    (ignoreLocks : Bool) (entries : List Enrichment) :
    ((store.enterAll entries).select
        (target type (store.pinned collection) ignoreLocks)).map Record.id =
      writable (store.select collection) ignoreLocks type.column := by
  rw [select_target, Store.select_pinned]
  exact writable_map_enterAll _ entries ignoreLocks type.column

/-- Actions on a pinned collection are performed on the records that it had when it was pinned. -/
theorem performs_executeAll {store : Store} {collection : Collection} {ignoreLocks : Bool}
    {actions : List Action} {outcomes : List ActionOutcome} {earlier : List Enrichment}
    (hstore : world.store = store.enterAll earlier)
    (h : (registry.executeAll (store.pinned collection) ignoreLocks actions).run outage world =
      (.ok outcomes, after)) :
    ∃ entries, Performs registry.catalog registry.settings.source
        (writable (store.select collection) ignoreLocks) actions outcomes entries ∧
      after.store = store.enterAll (earlier ++ entries) := by
  -- every action is aimed at the pinned store, so the entries so far are carried along
  induction actions generalizing world outcomes earlier with
  | nil =>
    obtain ⟨rfl, rfl⟩ := Job.run_pure_eq_ok_iff.1 h
    refine ⟨[], .nil, ?_⟩
    rw [hstore, List.append_nil]
  | cons action rest ih =>
    simp only [executeAll, Job.run_bind_eq_ok_iff, Job.run_pure_eq_ok_iff] at h
    obtain ⟨written, middle, hfirst, others, _, hrest, rfl, rfl⟩ := h
    obtain ⟨type, value, entries, htype, hvalue, hwrites, rfl, hmiddle⟩ := writes_execute hfirst
    rw [hstore, map_id_select_target] at hwrites
    rw [hstore, ← Store.enterAll_append] at hmiddle
    obtain ⟨later, hlater, hafter⟩ := ih hmiddle hrest
    refine ⟨entries ++ later, .cons htype hvalue hwrites hlater, ?_⟩
    rw [hafter, List.append_assoc]

end Registry

section Application

variable {outage : Outage} {world after : World} {rule : Rule} {owner : Nat}
  {vocabulary : Vocabulary} {provider : Option Provider} {settings : Settings}
  {ignoreLocks : Bool} {report : Report}

end Application

end Bookkeeping
