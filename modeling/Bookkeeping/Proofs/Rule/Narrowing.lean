import Bookkeeping.Proofs.Condition.Admission
import Bookkeeping.Proofs.Rule.Coverage

/-!
# Forests evaluated one within the other

Two forests may be evaluated as one, or either of them within what the other comes to. A forest
stands for the same predicate and asks for the same joins wherever it is evaluated, and neither
depends on the order; so it all comes to the same joins and the same records.
-/

namespace Bookkeeping

/-- The collections are read alike: they join the same tables, miss the same joins, and in every
store the same records belong to them. -/
structure Collection.Alike (first second : Collection) : Prop where
  joins : first.joins = second.joins
  checkJoins : Store.checkJoins first = Store.checkJoins second
  select : ∀ store : Store, store.select first = store.select second

namespace Collection

variable {prepared : Collection} {p q r : Predicate}

/-- Restricting once by what two predicates say together is restricting by one after the other. -/
theorem alike_restrict (hholds : ∀ record, p.holds record = (q.holds record && r.holds record))
    (hp : prepared.JoinsFor p) (hq : prepared.JoinsFor q) (hr : prepared.JoinsFor r) :
    (prepared.restrict p).Alike ((prepared.restrict q).restrict r) := by
  have hmissing : ((prepared.restrict q).restrict r).missingJoin? = prepared.missingJoin? :=
    (@missingJoin?_restrict (prepared.restrict q) r hr).trans (missingJoin?_restrict hq)
  refine ⟨rfl, ?_, fun store => ?_⟩
  · rw [Store.checkJoins, Store.checkJoins, missingJoin?_restrict hp, hmissing]
  · rw [Store.select_restrict, Store.select_restrict, Store.select_restrict, List.filter_filter]
    refine List.filter_congr fun record _ => ?_
    rw [hholds, Bool.and_comm]

end Collection

/-- Preparing a collection changes none of its records. -/
theorem Store.select_prepareEach (store : Store) (types : List ConditionType)
    (collection : Collection) :
    store.select (ConditionType.prepareEach types collection) = store.select collection := by
  obtain ⟨joins, hprepared⟩ := ConditionType.prepareEach_eq types collection
  rw [hprepared]
  rfl

/-- To what satisfies all the parts belongs what satisfies the first of them and the others. -/
theorem Store.mem_select_append_iff (store : Store) {record : Record} {collection : Collection}
    {parts otherParts : List Predicate} (types otherTypes allTypes : List ConditionType) :
    record ∈ store.select ((ConditionType.prepareEach allTypes collection).restrict
        (Predicate.conjunction (parts ++ otherParts))) ↔
      record ∈ store.select ((ConditionType.prepareEach types collection).restrict
          (Predicate.conjunction parts)) ∧
        record ∈ store.select ((ConditionType.prepareEach otherTypes collection).restrict
          (Predicate.conjunction otherParts)) := by
  simp only [select_restrict, select_prepareEach, List.mem_filter,
    Predicate.holds_conjunction_append, Bool.and_eq_true]
  tauto

namespace Registry

open ConditionType (prepareEach)

variable {registry : Registry} {collection result : Collection} {conditions others : List Condition}
  {parts otherParts : List Predicate} {types otherTypes : List ConditionType}

/-- A shallow forest is evaluated within any collection as what it resolves to. -/
theorem evaluateWithin_of_resolves (hdepth : registry.settings.checkDepth conditions = .ok ())
    (h : registry.catalog.Resolves conditions parts types) (collection : Collection) :
    registry.evaluateWithin collection conditions =
      .ok ((prepareEach types collection).restrict (Predicate.conjunction parts)) := by
  have hcombined : registry.catalog.combined conditions none = .ok (Predicate.conjunction parts) :=
    Catalog.combined_eq_ok_iff.2 ⟨parts, h.predicates, [], rfl, by rw [List.append_nil]⟩
  have hprepared : registry.catalog.prepareAll conditions none collection =
      .ok (prepareEach types collection) :=
    Catalog.prepareAll_eq_ok_iff.2 ⟨_, h.prepares collection, rfl⟩
  exact evaluateFrom_eq_ok_iff.2 ⟨hdepth, _, hprepared, _, hcombined, rfl⟩

/-- A forest that is evaluated is shallow, and comes to what it resolves to. -/
theorem exists_resolves_of_evaluateWithin
    (h : registry.evaluateWithin collection conditions = .ok result) :
    registry.settings.checkDepth conditions = .ok () ∧
      ∃ parts types, registry.catalog.Resolves conditions parts types ∧
        result = (prepareEach types collection).restrict (Predicate.conjunction parts) := by
  obtain ⟨hdepth, -, -, p, hp, -⟩ := evaluateFrom_eq_ok_iff.1 h
  obtain ⟨parts, hparts, -⟩ := Catalog.combined_eq_ok_iff.1 hp
  obtain ⟨types, htypes⟩ := Catalog.exists_resolves hparts
  have hresult := (evaluateWithin_of_resolves hdepth htypes collection).symm.trans h
  exact ⟨hdepth, parts, types, htypes, (Except.ok.inj hresult).symm⟩

/-- Two shallow forests are evaluated as one, which resolves to what both resolve to. -/
theorem evaluateWithin_append_of_resolves
    (hdepth : registry.settings.checkDepth conditions = .ok ())
    (hparts : registry.catalog.Resolves conditions parts types)
    (hotherDepth : registry.settings.checkDepth others = .ok ())
    (hotherParts : registry.catalog.Resolves others otherParts otherTypes)
    (collection : Collection) :
    registry.evaluateWithin collection (conditions ++ others) =
      .ok ((prepareEach (types ++ otherTypes) collection).restrict
        (Predicate.conjunction (parts ++ otherParts))) :=
  evaluateWithin_of_resolves (Settings.checkDepth_append_eq_ok_iff.2 ⟨hdepth, hotherDepth⟩)
    (hparts.append hotherParts) collection

/-- Two forests are evaluated as one when each of them is by itself. -/
theorem exists_evaluateWithin_append_iff :
    (∃ both, registry.evaluateWithin collection (conditions ++ others) = .ok both) ↔
      (∃ first, registry.evaluateWithin collection conditions = .ok first) ∧
        ∃ second, registry.evaluateWithin collection others = .ok second := by
  constructor
  · rintro ⟨both, h⟩
    obtain ⟨hdepth, _, _, hresolves, -⟩ := exists_resolves_of_evaluateWithin h
    obtain ⟨hfirst, hsecond⟩ := Settings.checkDepth_append_eq_ok_iff.1 hdepth
    obtain ⟨first, second, hparts, hotherParts, -⟩ :=
      Catalog.predicates_append_eq_ok_iff.1 hresolves.predicates
    obtain ⟨_, htypes⟩ := Catalog.exists_resolves hparts
    obtain ⟨_, hotherTypes⟩ := Catalog.exists_resolves hotherParts
    exact ⟨⟨_, evaluateWithin_of_resolves hfirst htypes collection⟩,
      _, evaluateWithin_of_resolves hsecond hotherTypes collection⟩
  · rintro ⟨⟨first, hfirst⟩, second, hsecond⟩
    obtain ⟨hdepth, _, _, hparts, -⟩ := exists_resolves_of_evaluateWithin hfirst
    obtain ⟨hotherDepth, _, _, hotherParts, -⟩ := exists_resolves_of_evaluateWithin hsecond
    exact ⟨_, evaluateWithin_append_of_resolves hdepth hparts hotherDepth hotherParts collection⟩

/-- Within what one forest comes to, another is evaluated, and what is evaluated is alike to the
collection prepared for both and restricted once, by a predicate that says what both say. -/
theorem exists_evaluateWithin_alike
    (hcatalog : registry.catalog.JoinsColumns collection.baseTable)
    (hparts : registry.catalog.Resolves conditions parts types)
    (hdepth : registry.settings.checkDepth others = .ok ())
    (hotherParts : registry.catalog.Resolves others otherParts otherTypes) {p : Predicate}
    (hholds : ∀ record, p.holds record = ((Predicate.conjunction parts).holds record &&
      (Predicate.conjunction otherParts).holds record))
    (hcolumns : p.atomColumns ⊆ (parts ++ otherParts).flatMap Predicate.atomColumns) :
    ∃ within, registry.evaluateWithin
        ((prepareEach types collection).restrict (Predicate.conjunction parts)) others =
          .ok within ∧
      ((prepareEach (types ++ otherTypes) collection).restrict p).Alike within := by
  have hleaves := (hparts.append hotherParts).leafTypes collection
  refine ⟨((prepareEach (types ++ otherTypes) collection).restrict
    (Predicate.conjunction parts)).restrict (Predicate.conjunction otherParts), ?_, ?_⟩
  · rw [evaluateWithin_of_resolves hdepth hotherParts, ConditionType.prepareEach_restrict,
      ConditionType.prepareEach_append]
  · refine Collection.alike_restrict hholds (hleaves.joinsFor hcatalog hcolumns)
      (hleaves.joinsFor hcatalog ?_) (hleaves.joinsFor hcatalog ?_)
    · rw [Predicate.atomColumns_conjunction, List.flatMap_append]
      exact List.subset_append_left ..
    · rw [Predicate.atomColumns_conjunction, List.flatMap_append]
      exact List.subset_append_right ..

/-- Each of two shallow forests is evaluated within what the other comes to, and both times the
result is alike to what they come to as one. -/
theorem exists_evaluateWithin_both (hcatalog : registry.catalog.JoinsColumns collection.baseTable)
    (hdepth : registry.settings.checkDepth conditions = .ok ())
    (hparts : registry.catalog.Resolves conditions parts types)
    (hotherDepth : registry.settings.checkDepth others = .ok ())
    (hotherParts : registry.catalog.Resolves others otherParts otherTypes) :
    let both := (prepareEach (types ++ otherTypes) collection).restrict
      (Predicate.conjunction (parts ++ otherParts))
    ∃ firstThen secondThen,
      registry.evaluateWithin ((prepareEach types collection).restrict
        (Predicate.conjunction parts)) others = .ok firstThen ∧
      registry.evaluateWithin ((prepareEach otherTypes collection).restrict
        (Predicate.conjunction otherParts)) conditions = .ok secondThen ∧
      both.Alike firstThen ∧ both.Alike secondThen := by
  intro both
  have hcolumns : (Predicate.conjunction (parts ++ otherParts)).atomColumns =
      parts.flatMap Predicate.atomColumns ++ otherParts.flatMap Predicate.atomColumns := by
    rw [Predicate.atomColumns_conjunction, List.flatMap_append]
  obtain ⟨firstThen, hfirstThen, halike⟩ := exists_evaluateWithin_alike hcatalog hparts
    hotherDepth hotherParts (fun record => Predicate.holds_conjunction_append otherParts)
    (by rw [hcolumns, List.flatMap_append]; exact List.Subset.refl _)
  obtain ⟨secondThen, hsecondThen, hotherAlike⟩ := exists_evaluateWithin_alike hcatalog
    hotherParts hdepth hparts
    (fun record => (Predicate.holds_conjunction_append otherParts).trans (Bool.and_comm ..))
    (by rw [hcolumns, List.flatMap_append]; exact List.perm_append_comm.subset)
  -- the tables joined do not depend on which forest was prepared for first
  rw [ConditionType.prepareEach_perm List.perm_append_comm] at hotherAlike
  exact ⟨firstThen, secondThen, hfirstThen, hsecondThen, halike, hotherAlike⟩

end Registry

/-- **Forests put together.** Over the table of transactions, two forests are evaluated as one
exactly when each is by itself. Then either of them is evaluated within what the other comes to, and
all three collections join the same and are read alike: to them belong, in every store, the records
that belong to what each of the forests comes to. -/
theorem Transaction.evaluate_append (vocabulary : Vocabulary) {base : Collection}
    (hbase : base.baseTable = Transaction.baseTable) (provider : Option Provider)
    (settings : Settings) (conditions others : List Condition) :
    let registry : Registry := ⟨Transaction.catalog vocabulary, base, provider, settings⟩
    ((∃ both, registry.evaluate (conditions ++ others) = .ok both) ↔
      (∃ first, registry.evaluate conditions = .ok first) ∧
        ∃ second, registry.evaluate others = .ok second) ∧
    ∀ first second, registry.evaluate conditions = .ok first →
      registry.evaluate others = .ok second →
        ∃ both firstThen secondThen, registry.evaluate (conditions ++ others) = .ok both ∧
          registry.evaluateWithin first others = .ok firstThen ∧
          registry.evaluateWithin second conditions = .ok secondThen ∧
          both.Alike firstThen ∧ both.Alike secondThen ∧
          (∀ (store : Store) record, record ∈ store.select both ↔
            record ∈ store.select first ∧ record ∈ store.select second) ∧
          (Store.checkJoins base = .ok () →
            ∀ used ∈ [first, second, both, firstThen, secondThen],
              Store.checkJoins used = .ok ()) := by
  intro registry
  refine ⟨Registry.exists_evaluateWithin_append_iff, fun first second hfirst hsecond => ?_⟩
  have hcatalog : registry.catalog.JoinsColumns base.baseTable :=
    hbase ▸ Transaction.catalog_joinsColumns
  obtain ⟨hdepth, parts, types, hparts, rfl⟩ := Registry.exists_resolves_of_evaluateWithin hfirst
  obtain ⟨hotherDepth, otherParts, otherTypes, hotherParts, rfl⟩ :=
    Registry.exists_resolves_of_evaluateWithin hsecond
  have hboth :=
    Registry.evaluateWithin_append_of_resolves hdepth hparts hotherDepth hotherParts base
  obtain ⟨firstThen, secondThen, hfirstThen, hsecondThen, halike, hotherAlike⟩ :=
    Registry.exists_evaluateWithin_both hcatalog hdepth hparts hotherDepth hotherParts
  refine ⟨_, _, _, hboth, hfirstThen, hsecondThen, halike, hotherAlike, ?_, fun hjoins => ?_⟩
  · exact fun store record => store.mem_select_append_iff types otherTypes _
  · have husable {conditions : List Condition} {result : Collection}
        (h : registry.evaluate conditions = .ok result) : Store.checkJoins result = .ok () :=
      Registry.checkJoins_of_evaluateFrom hcatalog hjoins h
    intro used hused
    simp only [List.mem_cons, List.not_mem_nil, or_false] at hused
    rcases hused with rfl | rfl | rfl | rfl | rfl
    · exact husable hfirst
    · exact husable hsecond
    · exact husable hboth
    · exact halike.checkJoins ▸ husable hboth
    · exact hotherAlike.checkJoins ▸ husable hboth

/-- Of what may be meals and what was spent at the landlord's, only the lunch there is both. -/
theorem Transaction.evaluate_append_meals :
    let shop : List Condition := [.leaf "transaction_merchant" "=" (.text "m2")]
    ∃ meals atShop both mealsThen shopThen,
      Sample.registry.evaluate Sample.meals.conditions = .ok meals ∧
      Sample.registry.evaluate shop = .ok atShop ∧
      Sample.registry.evaluate (Sample.meals.conditions ++ shop) = .ok both ∧
      Sample.registry.evaluateWithin meals shop = .ok mealsThen ∧
      Sample.registry.evaluateWithin atShop Sample.meals.conditions = .ok shopThen ∧
      both.Alike mealsThen ∧ both.Alike shopThen ∧
      (Sample.ledger.select meals).map Record.id = [1, 2, 3] ∧
      (Sample.ledger.select atShop).map Record.id = [3] ∧
      (Sample.ledger.select both).map Record.id = [3] ∧ both.joins = [entries] := by
  intro shop
  obtain ⟨both, mealsThen, shopThen, hboth, hmealsThen, hshopThen, hmeals, hshop, -, -⟩ :=
    (@Transaction.evaluate_append Sample.vocabulary Sample.registry.base rfl none {}
      Sample.meals.conditions shop).2 _ _ rfl rfl
  refine ⟨_, _, both, mealsThen, shopThen, rfl, rfl, hboth, hmealsThen, hshopThen, hmeals, hshop,
    rfl, rfl, ?_⟩
  obtain rfl := Except.ok.inj hboth
  exact ⟨rfl, rfl⟩

end Bookkeeping
