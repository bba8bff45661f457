import Bookkeeping.Proofs.Condition.Joins
import Bookkeeping.Proofs.Condition.Satisfaction
import Bookkeeping.Proofs.Store.Entries

/-!
# The records a rule covers

A rule covers the records of its owner that are in scope, satisfy every condition and are dated
on or after its first day. What a rule matches over the transactions of an owner is a collection
of exactly these records, and reading it never misses a join.
-/

namespace Bookkeeping

open Transaction (Satisfies)

/-- The rule speaks of the record. -/
structure Rule.Covers (rule : Rule) (owner : Nat) (record : Record) : Prop where
  owned : record.owner = owner
  included : record.fields.get? Transaction.excluded = some (.flag false)
  satisfied : ∀ condition ∈ rule.conditions, Satisfies record.fields.get? condition
  dated : ∀ since ∈ rule.effectiveDate, ∃ held,
    record.fields.get? Transaction.date = some (.date held) ∧ held.compare since ≠ .lt

open Classical in
/-- The records that a rule covers, in the order of their insertion. -/
noncomputable def Store.covered (store : Store) (rule : Rule) (owner : Nat) : List Record :=
  store.records.filter (rule.Covers owner ·)

/-- The registry of an owner's transactions in a store. -/
def Transaction.registry (store : Store) (owner : Nat) (vocabulary : Vocabulary)
    (provider : Option Provider) (settings : Settings) : Registry :=
  { Registry.ofCollection .transaction (store.collection owner) vocabulary with
    provider, settings }

namespace Transaction

variable {vocabulary : Vocabulary} {record : Column → Option Value}

private theorem mem_conditions_of_declares {type : ConditionType}
    (h : (catalog vocabulary).Declares type) :
    type = nameCondition ∨ type = amountCondition ∨ type = merchantCondition vocabulary ∨
      type = dateCondition := by
  rcases h with ⟨key, h⟩ | rfl
  · rcases conditionType_eq_ok_iff.1 h with ⟨-, rfl⟩ | ⟨-, rfl⟩ | ⟨-, rfl⟩ <;> simp
  · simp [catalog]

/-- Over the table of transactions every condition type joins what it reads. -/
theorem catalog_joinsColumns : (catalog vocabulary).JoinsColumns baseTable := by
  intro type htype
  rcases mem_conditions_of_declares htype with rfl | rfl | rfl | rfl
  · decide
  · decide
  · rfl
  · decide

/-- The predicate of a first day asks for a date on or after it. -/
theorem forall_holds_date_iff {since : Option Date} {bound : List Predicate}
    (h : (catalog vocabulary).datePredicate since = .ok bound) :
    (∀ part ∈ bound, part.holds record = true) ↔ ∀ first ∈ since, ∃ held,
      record date = some (.date held) ∧ held.compare first ≠ .lt := by
  cases since with
  | none =>
    obtain rfl : [] = bound := Except.ok.inj h
    simp
  | some first =>
    obtain rfl : [.compare date .gte (.date first)] = bound := Except.ok.inj h
    simp only [List.mem_singleton, forall_eq, Option.mem_some_iff, forall_eq', Predicate.holds,
      comparison_iff]
    constructor
    · rintro ⟨held, hheld, hcompare⟩
      cases held with
      | date day =>
        refine ⟨day, hheld, ?_⟩
        simpa [Value.compare?, Value.order?, Operator.accepts?] using hcompare
      | _ => simp [Value.compare?, Value.order?] at hcompare
    · rintro ⟨day, hheld, hcompare⟩
      refine ⟨_, hheld, ?_⟩
      simpa [Value.compare?, Value.order?, Operator.accepts?] using hcompare

/-- The predicate of a forest and a first day holds of what satisfies them all. -/
theorem holds_combined_iff {conditions : List Condition} {since : Option Date} {p : Predicate}
    (h : (catalog vocabulary).combined conditions since = .ok p) :
    p.holds record = true ↔ (∀ condition ∈ conditions, Satisfies record condition) ∧
      ∀ first ∈ since, ∃ held, record date = some (.date held) ∧ held.compare first ≠ .lt := by
  obtain ⟨parts, hparts, bound, hbound, rfl⟩ := Catalog.combined_eq_ok_iff.1 h
  have hforest : (∀ part ∈ parts, part.holds record = true) ↔
      ∀ condition ∈ conditions, Satisfies record condition :=
    forall_holds_iff hparts fun _ _ _ hpart => holds_predicate_iff hpart
  rw [Predicate.holds_conjunction_iff, List.forall_mem_append, hforest,
    forall_holds_date_iff hbound]

end Transaction

section Matching

variable {store : Store} {rule : Rule} {owner : Nat} {vocabulary : Vocabulary}
  {provider : Option Provider} {settings : Settings} {collection : Collection}

/-- A record belongs to what a rule matches exactly when the rule covers it. -/
theorem Rule.selects_matching_iff
    (h : rule.matching (Transaction.registry store owner vocabulary provider settings) =
      .ok collection) (record : Record) :
    collection.selects record = true ↔ rule.Covers owner record := by
  obtain ⟨p, types, prepared, hp, htypes, rfl⟩ := Registry.exists_leafTypes_of_evaluateFrom h
  obtain ⟨joins, rfl⟩ := htypes.same
  have hscope : Predicate.holds record.fields.get?
      (.compare Transaction.excluded .eq (.flag false)) = true ↔
        record.fields.get? Transaction.excluded = some (.flag false) := by
    rw [Predicate.holds, Transaction.comparison_eq_iff Transaction.order?_flag_iff]
  have hrule : p.holds record.fields.get? = true ↔ _ := Transaction.holds_combined_iff hp
  simp only [Collection.selects, Collection.restrict, Collection.filter, Transaction.registry,
    Registry.ofCollection, Catalog.ofDomain, Transaction.catalog, Store.collection]
  simp only [List.nil_append, List.singleton_append, List.all_cons, List.all_nil, Filter.passes,
    Bool.and_eq_true, beq_iff_eq, Bool.and_true, hscope, hrule]
  constructor
  · rintro ⟨howned, hincluded, hsatisfied, hdated⟩
    exact ⟨howned, hincluded, hsatisfied, hdated⟩
  · rintro ⟨howned, hincluded, hsatisfied, hdated⟩
    exact ⟨howned, hincluded, hsatisfied, hdated⟩

/-- What a rule matches in a store is what it covers there. -/
theorem Rule.select_matching
    (h : rule.matching (Transaction.registry store owner vocabulary provider settings) =
      .ok collection) (other : Store) :
    other.select collection = other.covered rule owner := by
  refine List.filter_congr fun record _ => ?_
  rw [Bool.eq_iff_iff, Rule.selects_matching_iff h]
  simp

/-- The scope reads the table of transactions itself. -/
theorem Transaction.checkJoins_scope (vocabulary : Vocabulary) {start : Collection}
    (hbase : start.baseTable = Transaction.baseTable) :
    Store.checkJoins (start.restrict (Transaction.catalog vocabulary).scope) =
      Store.checkJoins start := by
  have hmissing : (start.restrict (Transaction.catalog vocabulary).scope).missingJoin? =
      start.missingJoin? := by
    refine Collection.missingJoin?_restrict fun column hcolumn table hneeded => ?_
    obtain rfl : column = Transaction.excluded := List.mem_singleton.1 hcolumn
    rw [hbase] at hneeded
    cases hneeded
  rw [Store.checkJoins, Store.checkJoins, hmissing]

/-- Over the table of transactions, what a rule matches can be read. -/
theorem Rule.checkJoins_matching (hbase : store.baseTable = Transaction.baseTable)
    (h : rule.matching (Transaction.registry store owner vocabulary provider settings) =
      .ok collection) :
    Store.checkJoins collection = .ok () := by
  have hcatalog : (Transaction.catalog vocabulary).JoinsColumns store.baseTable := by
    rw [hbase]
    exact Transaction.catalog_joinsColumns
  have hscope : Store.checkJoins
      (Transaction.registry store owner vocabulary provider settings).base = .ok () :=
    @Transaction.checkJoins_scope vocabulary (store.collection owner) hbase
  exact Registry.checkJoins_of_evaluateFrom hcatalog hscope h

end Matching

namespace Sample

open Transaction

/-- The first day of February 2024. -/
def firstDay : Date := ⟨2024, 2, 1, by decide⟩

/-- Merchants and a category to choose from. -/
def vocabulary : Vocabulary where
  categories := [⟨"Dining", "dining"⟩]
  merchants := [⟨"Bistro", "m1"⟩, ⟨"Landlord", "m2"⟩]

/-- Four transactions of one owner, the second dated too early and the last excluded. -/
def ledger : Store :=
  let later : Date := ⟨2024, 3, 9, by decide⟩
  let earlier : Date := ⟨2024, 1, 31, by decide⟩
  (((emptyStore.insert 1 [(merchant, .text "m1"), (date, .date later)]).insert 1
      [(merchant, .text "m1"), (date, .date earlier)]).insert 1
      [(merchant, .text "m2"), (name, .text "Lunch"), (date, .date later)]).insert 1
      [(merchant, .text "m1"), (date, .date later), (excluded, .flag true)]

/-- Meals since the first day: what went to the bistro, and what is named so elsewhere. -/
def meals : Rule where
  effectiveDate := some firstDay
  conditions :=
    [.compound "OR" [.leaf "transaction_merchant" "=" (.text "m1"),
      .compound "and" [.leaf "transaction_merchant" "=" (.text "m2"),
        .compound "or" [.leaf "transaction_name" "=" (.text "Lunch"),
          .leaf "transaction_name" "like" (.text "supper")]]]]
  actions :=
    [⟨"set_transaction_merchant", .text "m2"⟩, ⟨"set_transaction_category", .text "dining"⟩]

/-- The registry of the owner of the sample ledger. -/
def registry : Registry :=
  Transaction.registry ledger 1 vocabulary none {}

end Sample

end Bookkeeping
