import Bookkeeping.Proofs.Job.Confinement
import Bookkeeping.Proofs.Rule.Application

/-!
# Owners are kept apart

Rules are applied for one owner. What they come to depends on the records in that owner's scope
only, and they change no others, even when the provider suggests values for them.
-/

namespace Bookkeeping

open Transaction (excluded)

/-- The records that are not in the scope of an owner, in the order of their insertion. -/
def Store.outOfScope (store : Store) (owner : Nat) : List Record :=
  store.records.filter fun record => !decide (record.InScope owner)

/-- One computation in two worlds. It has the same result in both, makes the same calls and the same
entries, and changes nothing out of the scope of the owner. -/
structure Isolated {α : Type} (owner : Nat) (first second : World)
    (firstRun secondRun : Except Failure α × World) : Prop where
  result : firstRun.1 = secondRun.1
  calls : firstRun.2.calls = secondRun.2.calls
  requests : firstRun.2.requests = secondRun.2.requests
  logged : ∃ entries, firstRun.2.store.log = first.store.log ++ entries ∧
    secondRun.2.store.log = second.store.log ++ entries
  inScope : firstRun.2.store.AgreeInScope owner secondRun.2.store
  firstSpared : firstRun.2.store.outOfScope owner = first.store.outOfScope owner
  secondSpared : secondRun.2.store.outOfScope owner = second.store.outOfScope owner

section Spared

variable {store : Store} {owner : Nat} {ids : List Nat} {entries : List Enrichment}

/-- Entries about records in scope leave the others as they are. -/
theorem Store.outOfScope_enterAll (hids : (store.inScope owner).map Record.id = ids)
    (hentries : ∀ entry ∈ entries, entry.Within ids) :
    (store.enterAll entries).outOfScope owner = store.outOfScope owner := by
  have hcolumns : ∀ entry ∈ entries, entry.column ≠ excluded :=
    fun entry hentry => (hentries entry hentry).2
  -- a record that an entry is about has the number of one in scope
  have hsame : ∀ record ∈ store.outOfScope owner, record.enterAll entries = record := by
    intro record hrecord
    obtain ⟨hmem, houtside⟩ := List.mem_filter.1 hrecord
    refine Record.enterAll_of_forall_ne fun entry hentry hid => ?_
    obtain ⟨other, hother, hsame⟩ := List.mem_map.1 (hids ▸ (hentries entry hentry).1)
    obtain ⟨hstored, hinside⟩ := List.mem_filter.1 hother
    obtain rfl := Store.eq_of_id_eq hstored hmem (hsame.trans hid)
    simp [of_decide_eq_true hinside] at houtside
  calc
    (store.enterAll entries).outOfScope owner =
        (store.outOfScope owner).map (·.enterAll entries) := by
      rw [outOfScope, records_enterAll, List.filter_map, outOfScope]
      congr 1
      refine List.filter_congr fun record _ => ?_
      simp only [Function.comp_apply, Record.inScope_enterAll_iff hcolumns]
    _ = store.outOfScope owner := by
      rw [List.map_congr_left hsame, List.map_id']

/-- Worlds that are alike and go on alike spare what is out of scope. -/
theorem World.Alike.isolated {α : Type} {first second : World}
    {firstRun secondRun : Except Failure α × World} (h : World.Alike owner ids first second)
    (hresult : firstRun.1 = secondRun.1)
    (hadvance : World.Advance ids first second firstRun.2 secondRun.2) :
    Isolated owner first second firstRun secondRun := by
  have hafter := h.advance hadvance
  obtain ⟨entries, hwithin, hfirst, hsecond⟩ := hadvance.entered
  refine ⟨hresult, hadvance.calls, hadvance.requests, ⟨entries, ?_, ?_⟩, hafter.store, ?_, ?_⟩
  · rw [hfirst, Store.log_enterAll]
  · rw [hsecond, Store.log_enterAll]
  · rw [hfirst, Store.outOfScope_enterAll h.ids hwithin]
  · rw [hsecond, Store.outOfScope_enterAll (h.store.map_id_eq.symm.trans h.ids) hwithin]

end Spared

namespace Registry

variable {registry : Registry} {owner : Nat} {ids : List Nat} {collection : Collection}

/-- A filter more leaves a collection confined. -/
theorem confined_target (h : collection.Confined owner ids) (type : ActionType)
    (ignoreLocks : Bool) : (target type collection ignoreLocks).Confined owner ids := by
  unfold target
  split
  · exact h
  · refine ⟨h.owned, ?_⟩
    rcases h.confines with hscope | ⟨pinned, hpinned, hsubset⟩
    · exact .inl (List.mem_append_left _ hscope)
    · exact .inr ⟨pinned, List.mem_append_left _ hpinned, hsubset⟩

/-- Asking a provider stays in scope, whatever it suggests. -/
theorem confined_enrich {type : ActionType} (htype : type.column ≠ excluded) (directive : Value)
    (h : collection.Confined owner ids) :
    (registry.enrich type directive collection).Confined owner ids := by
  unfold enrich
  split
  · exact .fail _
  · refine .call_bind h fun records _ => ?_
    split
    · exact .done _
    · refine .call_bind trivial fun suggestions _ => ?_
      dsimp only
      split
      · exact .done _
      · exact Job.confined_call ⟨h, htype⟩

variable (hactions : ∀ key type, registry.catalog.actionType key = .ok type →
  type.column ≠ excluded)
include hactions

private theorem confined_execute (action : Action) (h : collection.Confined owner ids)
    (ignoreLocks : Bool) : (registry.execute action collection ignoreLocks).Confined owner ids := by
  refine .ofRule_bind fun type htype => .ofRule_bind fun value _ => ?_
  have hcolumn := hactions _ _ htype
  have htarget := confined_target h type ignoreLocks
  cases heffect : type.effect with
  | assign => exact Job.confined_call ⟨htarget, hcolumn⟩
  | setText => exact Job.confined_call ⟨htarget, hcolumn⟩
  | enrich => exact confined_enrich hcolumn value htarget

private theorem confined_executeAll (actions : List Action) (h : collection.Confined owner ids)
    (ignoreLocks : Bool) :
    (registry.executeAll collection ignoreLocks actions).Confined owner ids := by
  induction actions with
  | nil => exact .done _
  | cons action rest ih =>
    refine (confined_execute hactions action h ignoreLocks).bind fun written => ?_
    exact ih.bind fun others => .done _

/-- A rule whose matches are in scope stays there. -/
theorem confined_applyWith {rule : Rule}
    (hmatching : ∀ collection, rule.matching registry = .ok collection →
      collection.Confined owner ids) (ignoreLocks : Bool) :
    (rule.applyWith registry ignoreLocks).Confined owner ids := by
  refine .ofRule_bind fun _ _ => .ofRule_bind fun matching hok => ?_
  refine .call_bind (hmatching _ hok) fun pinned hpinned => ?_
  refine .call_bind hpinned fun matched _ => ?_
  exact (confined_executeAll hactions rule.actions hpinned ignoreLocks).bind fun outcomes => .done _

/-- A batch comes to the same in worlds that are alike. -/
theorem advance_applyRest {rules : List Rule}
    (hmatching : ∀ rule ∈ rules, ∀ collection, rule.matching registry = .ok collection →
      collection.Confined owner ids) {first second : World}
    (h : World.Alike owner ids first second) (outage : Outage) (batch : BatchReport) :
    (registry.applyRest outage batch rules first).1 =
        (registry.applyRest outage batch rules second).1 ∧
      World.Advance ids first second (registry.applyRest outage batch rules first).2
        (registry.applyRest outage batch rules second).2 := by
  induction rules generalizing first second batch with
  | nil => exact ⟨rfl, h.refl_advance⟩
  | cons rule rest ih =>
    obtain ⟨hrule, hrest⟩ := List.forall_mem_cons.1 hmatching
    have ih := @ih hrest
    rw [applyRest, applyRest]
    split
    · obtain ⟨hresult, hadvance⟩ := (confined_applyWith hactions hrule false).run h outage
      rw [Rule.apply]
      generalize (rule.applyWith registry false).run outage first = firstRun at hresult hadvance
      generalize (rule.applyWith registry false).run outage second = secondRun at hresult hadvance
      obtain ⟨result, firstAfter⟩ := firstRun
      obtain ⟨_, secondAfter⟩ := secondRun
      obtain rfl : result = _ := hresult
      cases result with
      | ok report =>
        obtain ⟨hsame, hlater⟩ := ih (h.advance hadvance)
          { batch with applied := batch.applied ++ [report] }
        exact ⟨hsame, hadvance.trans hlater⟩
      | error cause =>
        dsimp only
        split
        · obtain ⟨hsame, hlater⟩ := ih (h.advance hadvance)
            { batch with skipped := batch.skipped ++ [⟨rule.displayName, cause⟩] }
          exact ⟨hsame, hadvance.trans hlater⟩
        · exact ⟨rfl, hadvance⟩
    · exact ih h _

end Registry

section Transactions

variable {store : Store} {owner : Nat} {vocabulary : Vocabulary} {provider : Option Provider}
  {settings : Settings}

/-- No action of the domain decides what is in scope. -/
theorem Transaction.column_ne_excluded {key : String} {type : ActionType}
    (h : (Transaction.catalog vocabulary).actionType key = .ok type) : type.column ≠ excluded := by
  have hcolumn := column_mem_of_mem_actions (Catalog.mem_actions_of_actionType h).1
  intro hexcluded
  rw [hexcluded] at hcolumn
  exact absurd hcolumn (by decide)

/-- What a rule matches is in scope. -/
theorem Rule.confined_matching {rule : Rule} {collection : Collection}
    (h : rule.matching (Transaction.registry store owner vocabulary provider settings) =
      .ok collection) (ids : List Nat) : collection.Confined owner ids := by
  obtain ⟨p, types, prepared, -, htypes, rfl⟩ := Registry.exists_leafTypes_of_evaluateFrom h
  obtain ⟨joins, rfl⟩ := htypes.same
  exact ⟨rfl, .inl (List.mem_append_left _ (List.mem_singleton_self _))⟩

end Transactions

/-- Let two stores agree on what is in the scope of an owner, and differ in all else. Applying a
rule or a batch of rules for the owner comes to the same in both, with the same requests to the
provider and the same entries; they still agree afterwards, and nothing else has changed in
either. -/
theorem Transaction.rules_isolated {owner : Nat} {first second : World}
    (hstore : first.store.AgreeInScope owner second.store) (hcalls : first.calls = second.calls)
    (hrequests : first.requests = second.requests) (vocabulary : Vocabulary)
    (provider : Option Provider) (settings : Settings) (outage : Outage) :
    let registry := Transaction.registry first.store owner vocabulary provider settings
    let other := Transaction.registry second.store owner vocabulary provider settings
    (∀ (rule : Rule) ignoreLocks, Isolated owner first second
      ((rule.applyWith registry ignoreLocks).run outage first)
      ((rule.applyWith other ignoreLocks).run outage second)) ∧
    ∀ rules, Isolated owner first second (registry.applyAll outage rules first)
      (other.applyAll outage rules second) := by
  intro registry other
  have hother : other = registry := by
    simp only [other, registry, Transaction.registry, Store.collection, hstore.baseTable]
  rw [hother]
  obtain ⟨ids, halike⟩ : ∃ ids, World.Alike owner ids first second :=
    ⟨_, hstore, rfl, hcalls, hrequests⟩
  have hactions : ∀ key type, registry.catalog.actionType key = .ok type →
      type.column ≠ excluded := fun _ _ => Transaction.column_ne_excluded
  have hmatching (rule : Rule) : ∀ collection, rule.matching registry = .ok collection →
      collection.Confined owner ids :=
    fun _ hok => Rule.confined_matching hok ids
  constructor
  · intro rule ignoreLocks
    have hconfined := Registry.confined_applyWith hactions (hmatching rule) ignoreLocks
    obtain ⟨hresult, hadvance⟩ := hconfined.run halike outage
    exact halike.isolated hresult hadvance
  · intro rules
    obtain ⟨hresult, hadvance⟩ :=
      @Registry.advance_applyRest _ _ _ hactions rules (fun rule _ => hmatching rule) _ _ halike
        outage {}
    exact halike.isolated hresult hadvance

namespace Sample

open Transaction

private theorem exists_later : Date.Exists 2024 3 9 := by decide

private theorem exists_earlier : Date.Exists 2024 1 31 := by decide

/-- The sample ledger with another owner's meal in place of the excluded one, and one more that is
excluded. -/
def neighbours : Store :=
  let later : Date := ⟨2024, 3, 9, exists_later⟩
  let earlier : Date := ⟨2024, 1, 31, exists_earlier⟩
  ((((emptyStore.insert 1 [(merchant, .text "m1"), (date, .date later)]).insert 1
      [(merchant, .text "m1"), (date, .date earlier)]).insert 1
      [(merchant, .text "m2"), (name, .text "Lunch"), (date, .date later)]).insert 2
      [(merchant, .text "m1"), (date, .date later)]).insert 1
      [(merchant, .text "m1"), (excluded, .flag true)]

/-- A provider that suggests the same category for many records, whatever it is asked about. -/
def eager : Provider := fun _ _ =>
  .ok ([1, 2, 3, 4, 5].map fun id => ⟨id, .text "dining"⟩)

/-- Meals are categorized as the provider suggests. -/
def categorized : Rule :=
  { meals with actions := [⟨"auto_categorize", .text ""⟩] }

private theorem ledger_agreeInScope_neighbours : ledger.AgreeInScope 1 neighbours := by
  refine ⟨rfl, ?_⟩
  have hsame : ledger.inScope 1 = neighbours.inScope 1 := rfl
  rw [hsame]
  exact List.forall₂_same.2 fun record _ => ⟨rfl, rfl, rfl, fun _ => rfl⟩

end Sample

/-- The provider suggests a category for the neighbours too, and they do not get it. -/
theorem Transaction.rules_isolated_neighbours :
    Isolated 1 { store := Sample.ledger } { store := Sample.neighbours }
        ((Sample.categorized.applyWith (Transaction.registry Sample.ledger 1 Sample.vocabulary
          (some Sample.eager) {}) false).run .none { store := Sample.ledger })
        ((Sample.categorized.applyWith (Transaction.registry Sample.neighbours 1 Sample.vocabulary
          (some Sample.eager) {}) false).run .none { store := Sample.neighbours }) ∧
      ((Sample.categorized.applyWith (Transaction.registry Sample.neighbours 1 Sample.vocabulary
        (some Sample.eager) {}) false).run .none { store := Sample.neighbours }).2.store.log.map
          Enrichment.record = [1, 3] := by
  refine ⟨?_, by decide +kernel⟩
  exact (@Transaction.rules_isolated 1 { store := Sample.ledger } { store := Sample.neighbours }
    Sample.ledger_agreeInScope_neighbours rfl rfl Sample.vocabulary (some Sample.eager) {} .none).1
    Sample.categorized false

end Bookkeeping
