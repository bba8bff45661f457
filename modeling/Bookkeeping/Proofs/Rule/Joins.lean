import Bookkeeping.Proofs.Job.Joins
import Bookkeeping.Proofs.Rule.Enrichment

/-!
# Rules miss no join

Evaluating conditions restricts a collection once, by one predicate, and joins what the columns of
this predicate need and nothing more. So what is evaluated can be used if the collection could be,
and whatever a rule does with its matches, it never fails for a missing join.
-/

namespace Bookkeeping

/-- The collection has been restricted by the predicate, behind its filters, and joins in addition
what the columns of the predicate need. -/
structure Collection.NarrowedBy (before : Collection) (p : Predicate) (after : Collection) :
    Prop where
  baseTable : after.baseTable = before.baseTable
  owner : after.owner = before.owner
  filters : after.filters = before.filters ++ [.restrict p]
  mem_joins_iff : ∀ table, table ∈ after.joins ↔ table ∈ before.joins ∨
    ∃ column ∈ p.columns, column.relation? before.baseTable = some table
  ordered : before.joins.Pairwise (· < ·) → after.joins.Pairwise (· < ·)
  checkJoins : Store.checkJoins before = .ok () → Store.checkJoins after = .ok ()

namespace Registry

variable {registry : Registry} {collection : Collection}

/-- Evaluating restricts a collection by the predicate of the conditions and the first day. -/
theorem narrowedBy_of_evaluateFrom {result : Collection} {conditions : List Condition}
    {since : Option Date} (hcatalog : registry.catalog.JoinsColumns collection.baseTable)
    (h : registry.evaluateFrom collection conditions since = .ok result) :
    ∃ p, registry.catalog.combined conditions since = .ok p ∧ collection.NarrowedBy p result := by
  have hjoins (hcollection : Store.checkJoins collection = .ok ()) :=
    checkJoins_of_evaluateFrom hcatalog hcollection h
  obtain ⟨p, types, prepared, hp, htypes, rfl⟩ := exists_leafTypes_of_evaluateFrom h
  have hmem (table : String) : table ∈ prepared.joins ↔ table ∈ collection.joins ∨
      ∃ column ∈ p.columns, column.relation? collection.baseTable = some table := by
    simp only [Predicate.mem_columns_iff]
    exact htypes.mem_joins_iff hcatalog
  have hordered (hcollection : collection.joins.Pairwise (· < ·)) :
      prepared.joins.Pairwise (· < ·) := by
    rw [htypes.prepared]
    exact ConditionType.pairwise_joins_prepareEach hcollection
  obtain ⟨joins, rfl⟩ := htypes.same
  exact ⟨p, hp, rfl, rfl, rfl, hmem, hordered, hjoins⟩

private theorem wellJoined_enrich {type : ActionType} (directive : Value)
    (h : Store.checkJoins collection = .ok ()) :
    (registry.enrich type directive collection).WellJoined := by
  unfold enrich
  split
  · exact .refuse _
  · refine .call_bind (.of_checkJoins rfl h) fun records _ => ?_
    split
    · exact .done _
    · refine .call_bind (by rintro _ ⟨⟩) fun suggestions _ => ?_
      dsimp only
      split
      · exact .done _
      · exact Job.wellJoined_call (.of_checkJoins rfl h)

private theorem wellJoined_execute (action : Action) (h : Store.checkJoins collection = .ok ())
    (ignoreLocks : Bool) : (registry.execute action collection ignoreLocks).WellJoined := by
  refine .ofRule_bind fun type _ => .ofRule_bind fun value _ => ?_
  have htarget : Store.checkJoins (target type collection ignoreLocks) = .ok () := by
    rw [Store.checkJoins_target, h]
  cases type.effect with
  | assign => exact Job.wellJoined_call (.of_checkJoins rfl htarget)
  | setText => exact Job.wellJoined_call (.of_checkJoins rfl htarget)
  | enrich => exact wellJoined_enrich value htarget

private theorem wellJoined_executeAll (actions : List Action)
    (h : Store.checkJoins collection = .ok ())
    (ignoreLocks : Bool) :
    (registry.executeAll collection ignoreLocks actions).WellJoined := by
  induction actions with
  | nil => exact .done _
  | cons action rest ih =>
    refine (wellJoined_execute action h ignoreLocks).bind fun written => ?_
    exact ih.bind fun others => .done _

/-- A rule whose matches miss no join misses none with any of its actions. -/
theorem wellJoined_applyWith {rule : Rule}
    (hmatching : ∀ matching, rule.matching registry = .ok matching →
      Store.checkJoins matching = .ok ()) (ignoreLocks : Bool) :
    (rule.applyWith registry ignoreLocks).WellJoined := by
  refine .ofRule_bind fun _ _ => .ofRule_bind fun matching hok => ?_
  refine .call_bind (.of_checkJoins rfl (hmatching _ hok)) fun pinned hpinned => ?_
  refine .call_bind (.of_checkJoins rfl hpinned) fun matched _ => ?_
  exact (wellJoined_executeAll rule.actions hpinned ignoreLocks).bind fun outcomes => .done _

end Registry

/-- **Joins of evaluated conditions.** Over the table of transactions, evaluating restricts a
collection by one predicate and joins what its columns need, no more and no less. So over a base
that misses no join, such as the records of an owner in scope, no rule fails for a missing one. -/
theorem Transaction.evaluation_joins (vocabulary : Vocabulary) (provider : Option Provider)
    (settings : Settings) :
    (∀ (base collection result : Collection) conditions since,
      let registry : Registry := ⟨Transaction.catalog vocabulary, base, provider, settings⟩
      collection.baseTable = Transaction.baseTable →
      registry.evaluateFrom collection conditions since = .ok result →
        ∃ p, registry.catalog.combined conditions since = .ok p ∧
          collection.NarrowedBy p result) ∧
    (∀ base : Collection, base.baseTable = Transaction.baseTable →
      Store.checkJoins base = .ok () →
      let registry : Registry := ⟨Transaction.catalog vocabulary, base, provider, settings⟩
      ∀ (rule : Rule) ignoreLocks outage world column table,
        ((rule.applyWith registry ignoreLocks).run outage world).1 ≠
          .error (.store (.missingJoin column table))) ∧
    ∀ (store : Store) owner, store.baseTable = Transaction.baseTable →
      let registry := Transaction.registry store owner vocabulary provider settings
      ∀ (rule : Rule) ignoreLocks outage world column table,
        ((rule.applyWith registry ignoreLocks).run outage world).1 ≠
          .error (.store (.missingJoin column table)) := by
  have hcatalog {collection : Collection} (hbase : collection.baseTable = Transaction.baseTable) :
      (Transaction.catalog vocabulary).JoinsColumns collection.baseTable :=
    hbase ▸ Transaction.catalog_joinsColumns
  have happly (base : Collection) (hbase : base.baseTable = Transaction.baseTable)
      (hjoins : Store.checkJoins base = .ok ()) (rule : Rule) (ignoreLocks : Bool) :
      (rule.applyWith ⟨Transaction.catalog vocabulary, base, provider, settings⟩
        ignoreLocks).WellJoined := by
    refine Registry.wellJoined_applyWith (fun matching hmatching => ?_) ignoreLocks
    rw [Rule.matching] at hmatching
    exact Registry.checkJoins_of_evaluateFrom (hcatalog hbase) hjoins hmatching
  refine ⟨?_, ?_, ?_⟩
  · intro base collection result conditions since registry hbase h
    exact Registry.narrowedBy_of_evaluateFrom (hcatalog hbase) h
  · intro base hbase hjoins registry rule ignoreLocks outage
    exact (happly base hbase hjoins rule ignoreLocks).run_ne_missingJoin outage
  · intro store owner hbase registry rule ignoreLocks outage
    have hjoins : Store.checkJoins registry.base = .ok () :=
      @Transaction.checkJoins_scope vocabulary (store.collection owner) hbase
    exact (happly registry.base hbase hjoins rule ignoreLocks).run_ne_missingJoin outage

/-- The names and the dates of meals are read of their entries, which are joined once, while the
merchants and what is excluded belong to the table of transactions. -/
theorem Transaction.evaluation_joins_meals :
    let start := Sample.ledger.collection 1
    ∃ result p, Sample.registry.evaluateFrom start Sample.meals.conditions
        Sample.meals.effectiveDate = .ok result ∧
      start.NarrowedBy p result ∧ p.columns = [merchant, name, date] ∧
      result.joins = [entries] ∧
      ∀ ignoreLocks outage world column table,
        ((Sample.meals.applyWith Sample.registry ignoreLocks).run outage world).1 ≠
          .error (.store (.missingJoin column table)) := by
  intro start
  obtain ⟨hnarrows, -, happly⟩ := Transaction.evaluation_joins Sample.vocabulary none {}
  obtain ⟨p, hp, hnarrowed⟩ := hnarrows Sample.registry.base start _ Sample.meals.conditions
    Sample.meals.effectiveDate rfl rfl
  refine ⟨_, p, rfl, hnarrowed, ?_, rfl, happly Sample.ledger 1 rfl Sample.meals⟩
  obtain rfl := Except.ok.inj hp
  rfl

end Bookkeeping
