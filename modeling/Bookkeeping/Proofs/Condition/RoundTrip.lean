import Bookkeeping.Proofs.Condition.Flattening
import Bookkeeping.Proofs.Condition.Joins
import Bookkeeping.Proofs.Condition.Satisfaction
import Bookkeeping.Proofs.Condition.Tree

/-!
# Flattening and rebuilding

A forest that is flattened and rebuilt comes back as it was, but for leaves whose type key is that
of rows with children. No catalog has a type of that key, and a compound node without children is
malformed, so no evaluation tells the two forests apart.
-/

namespace Bookkeeping

namespace Condition

open ConditionRow (compoundKey)

/-- A node comes back as it was if it is no leaf of the reserved key and what is below it comes
back. -/
theorem restored_eq_iff {condition : Condition} :
    restored condition = condition ↔
      (∀ operator value, condition ≠ .leaf compoundKey operator value) ∧
        restoredForest condition.children = condition.children := by
  cases condition with
  | leaf typeKey operator value =>
    by_cases hkey : typeKey = compoundKey
    · simp [restored, hkey]
    · simp [restored, children, restoredForest, hkey]
  | compound operator inside => simp [restored, children]

private theorem preorder_eq (condition : Condition) :
    preorder condition = condition :: forestPreorder condition.children := by
  cases condition <;> simp [preorder, children, forestPreorder]

/-- A forest comes back as it was exactly if none of its leaves has the reserved key. -/
theorem restoredForest_eq_iff (forest : List Condition) :
    restoredForest forest = forest ↔
      ∀ operator value, .leaf compoundKey operator value ∉ forestPreorder forest := by
  induction forest using forest_induction with
  | nil => simp [restoredForest, forestPreorder]
  | cons condition rest ihchildren ihrest =>
    rw [restoredForest, List.cons.injEq, restored_eq_iff, ihchildren, ihrest, forestPreorder,
      preorder_eq]
    simp only [List.mem_append, List.mem_cons, not_or, forall_and, ne_eq, eq_comm (a := condition)]

end Condition

namespace Catalog

open Condition (restored restoredForest restored_eq_iff)
open ConditionRow (compoundKey)

variable {catalog : Catalog} {forest : List Condition} {parts : List Predicate}

/-- Without a type of the reserved key, a forest that has predicates comes back as it was. -/
theorem restoredForest_eq_of_predicates
    (hreserved : ∀ type, catalog.conditionType compoundKey ≠ .ok type)
    (h : catalog.predicates forest = .ok parts) : restoredForest forest = forest := by
  induction forest using Condition.forest_induction generalizing parts with
  | nil => rw [restoredForest]
  | cons condition rest ihchildren ihrest =>
    obtain ⟨first, others, hfirst, hothers, rfl⟩ := predicates_cons_eq_ok_iff.1 h
    have hcondition : restored condition = condition := by
      rw [restored_eq_iff]
      cases condition with
      | leaf typeKey operator value =>
        obtain ⟨type, htype, -⟩ := predicate_leaf_eq_ok_iff.1 hfirst
        refine ⟨fun other held heq => ?_, by rw [Condition.children, restoredForest]⟩
        cases heq
        exact hreserved type htype
      | compound operator children =>
        obtain ⟨-, -, -, inside, hinside, -⟩ := predicate_compound_eq_ok_iff.1 hfirst
        exact ⟨by simp, ihchildren hinside⟩
    rw [restoredForest, hcondition, ihrest hothers]

/-- If what comes back of a forest has predicates, it is the forest. -/
theorem restoredForest_eq_of_predicates_restored
    (h : catalog.predicates (restoredForest forest) = .ok parts) :
    restoredForest forest = forest := by
  induction forest using Condition.forest_induction generalizing parts with
  | nil => rw [restoredForest]
  | cons condition rest ihchildren ihrest =>
    rw [restoredForest] at h
    obtain ⟨first, others, hfirst, hothers, rfl⟩ := predicates_cons_eq_ok_iff.1 h
    have hcondition : restored condition = condition := by
      rw [restored_eq_iff]
      cases condition with
      | leaf typeKey operator value =>
        refine ⟨fun other held heq => ?_, by rw [Condition.children, restoredForest]⟩
        cases heq
        -- a leaf of the reserved key comes back without children, and has no predicate
        rw [restored, if_pos rfl] at hfirst
        obtain ⟨-, -, hne, -⟩ := predicate_compound_eq_ok_iff.1 hfirst
        exact hne rfl
      | compound operator children =>
        rw [restored] at hfirst
        obtain ⟨-, -, -, inside, hinside, -⟩ := predicate_compound_eq_ok_iff.1 hfirst
        exact ⟨by simp, ihchildren hinside⟩
    rw [restoredForest, hcondition, ihrest hothers]

/-- No catalog of a domain has a type of the reserved key. -/
theorem ofDomain_conditionType_compoundKey (vocabulary : Vocabulary) (domain : Domain)
    (type : ConditionType) : (ofDomain vocabulary domain).conditionType compoundKey ≠ .ok type := by
  cases domain with
  | transaction =>
    rw [ofDomain, ne_eq, Transaction.conditionType_eq_ok_iff]
    simp [compoundKey]

end Catalog

namespace Registry

open Condition (restoredForest)

/-- A forest and what comes back of it are evaluated to the same. -/
theorem evaluateFrom_restoredForest {registry : Registry}
    (hreserved : ∀ type, registry.catalog.conditionType ConditionRow.compoundKey ≠ .ok type)
    (collection : Collection) (forest : List Condition) (since : Option Date)
    (result : Collection) :
    registry.evaluateFrom collection (restoredForest forest) since = .ok result ↔
      registry.evaluateFrom collection forest since = .ok result := by
  constructor
  · intro h
    obtain ⟨-, -, -, p, hp, -⟩ := evaluateFrom_eq_ok_iff.1 h
    obtain ⟨parts, hparts, -⟩ := Catalog.combined_eq_ok_iff.1 hp
    rwa [Catalog.restoredForest_eq_of_predicates_restored hparts] at h
  · intro h
    obtain ⟨-, -, -, p, hp, -⟩ := evaluateFrom_eq_ok_iff.1 h
    obtain ⟨parts, hparts, -⟩ := Catalog.combined_eq_ok_iff.1 hp
    rwa [Catalog.restoredForest_eq_of_predicates hreserved hparts]

end Registry

open Condition in
/-- A forest that is flattened and rebuilt comes back, with each leaf of the reserved key replaced
by a compound node without children; so it comes back unchanged exactly if it has no such leaf.
Against the registry of any collection the two are evaluated to the same collection, or both to
none, and match the same records whatever a store holds. -/
theorem Condition.ofRows_toRows (forest : List Condition) :
    ofRows (toRows forest) = .ok (restoredForest forest) ∧
      (ofRows (toRows forest) = .ok forest ↔
        ∀ operator value, .leaf ConditionRow.compoundKey operator value ∉ forestPreorder forest) ∧
      ∀ (domain : Domain) (base collection result : Collection) (vocabulary : Vocabulary)
        (provider : Option Provider) (settings : Settings) (since : Option Date),
        let registry : Registry :=
          { Registry.ofCollection domain base vocabulary with provider, settings }
        registry.evaluateFrom collection (restoredForest forest) since = .ok result ↔
          registry.evaluateFrom collection forest since = .ok result := by
  obtain ⟨hdistinct, hroots, hmirrors⟩ := mirrors_toRows forest
  have hback : ofRows (toRows forest) = .ok (restoredForest forest) :=
    ConditionRow.ofRows_eq_ok_iff.2 ⟨hdistinct, _, _, hroots, hmirrors, List.Perm.refl _⟩
  refine ⟨hback, ?_, fun domain base collection result vocabulary provider settings since => ?_⟩
  · rw [hback, Except.ok.injEq, restoredForest_eq_iff]
  · exact Registry.evaluateFrom_restoredForest
      (Catalog.ofDomain_conditionType_compoundKey vocabulary domain) collection forest since result

end Bookkeeping
