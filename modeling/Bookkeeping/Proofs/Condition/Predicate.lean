import Bookkeeping.Proofs.Bind
import Bookkeeping.Proofs.Condition.Tree
import Bookkeeping.Proofs.Predicate
import Bookkeeping.Rule.Matching

/-!
# Conditions as predicates

When a condition has a predicate, and what the predicate of a node is made of. A leaf gives an
atom of its type, a compound node the conjunction or disjunction of its children's predicates.
-/

namespace Bookkeeping

/-- An operator is read from its key only. -/
theorem Operator.ofKey?_eq_some_iff {key : String} {op : Operator} :
    ofKey? key = some op ↔ key = op.key := by
  constructor
  · intro h
    have hkey := List.find?_some h
    exact (beq_iff_eq.1 hkey).symm
  · rintro rfl
    exact ofKey?_key op

/-- Connectives are read in any case of the ASCII letters. -/
theorem Connective.ofKey?_eq_some_iff {key : String} {op : Connective} :
    ofKey? key = some op ↔ key.toLower = op.key := by
  have hlower : key.toList.map Char.toLower = key.toLower.toList := String.toList_map.symm
  have hand : key.toLower.toList = ['a', 'n', 'd'] ↔ key.toLower = "and" := by
    rw [← String.toList_inj]
    rfl
  have hor : key.toLower.toList = ['o', 'r'] ↔ key.toLower = "or" := by
    rw [← String.toList_inj]
    rfl
  simp only [ofKey?, hlower, hand, hor]
  by_cases hisAnd : key.toLower = "and"
  · cases op <;> simp [hisAnd, Connective.key]
  · by_cases hisOr : key.toLower = "or"
    · cases op <;> simp [hisOr, Connective.key]
    · cases op <;> simp [hisAnd, hisOr, Connective.key]

/-- Nothing but `and` and `or`, in letters of any size, is a connective. -/
theorem Connective.ofKey?_eq_none_iff {key : String} :
    ofKey? key = none ↔ ¬(key.toLower = "and" ∨ key.toLower = "or") := by
  rw [Option.eq_none_iff_forall_ne_some]
  simp only [ne_eq, ofKey?_eq_some_iff]
  constructor
  · rintro h (hand | hor)
    · exact h .and hand
    · exact h .or hor
  · rintro h (_ | _) hkey
    · exact h (.inl hkey)
    · exact h (.inr hkey)

namespace ConditionType

/-- A type allows an operator by its very text. -/
theorem operator?_eq_some_iff {type : ConditionType} {text : String} {op : Operator} :
    type.operator? text = some op ↔ text = op.key ∧ op ∈ type.kind.operators := by
  simp [operator?, Option.filter_eq_some_iff, Operator.ofKey?_eq_some_iff]

/-- A leaf has a predicate when its operator is allowed and its value is readable and offered. -/
theorem build_eq_ok_iff {type : ConditionType} {operator : String} {value : Value}
    {p : Predicate} :
    type.build operator value = .ok p ↔
      ∃ op ∈ type.kind.operators, operator = op.key ∧
        ∃ read, type.kind.read? value = some read ∧ type.offers read = true ∧
          p = type.atom op read := by
  unfold build
  cases hop : type.operator? operator with
  | none =>
    constructor
    · rintro ⟨⟩
    · rintro ⟨op, hmem, hkey, -⟩
      rw [operator?_eq_some_iff.2 ⟨hkey, hmem⟩] at hop
      cases hop
  | some op =>
    obtain ⟨hkey, hmem⟩ := operator?_eq_some_iff.1 hop
    have honly : ∀ other ∈ type.kind.operators, operator = other.key → other = op := by
      intro other hother hotherKey
      rw [operator?_eq_some_iff.2 ⟨hotherKey, hother⟩] at hop
      exact Option.some.inj hop
    cases hread : type.kind.read? value with
    | none => simp
    | some read =>
      by_cases hoffers : type.offers read = true
      · simp only [hoffers, if_true, Except.ok.injEq, Option.some.injEq, exists_eq_left',
          true_and]
        constructor
        · rintro rfl
          exact ⟨op, hmem, hkey, rfl⟩
        · rintro ⟨other, hother, hotherKey, rfl⟩
          rw [honly other hother hotherKey]
      · simp [hoffers]

/-- The predicate of a leaf is a restriction. -/
theorem isAll_atom (type : ConditionType) (op : Operator) (value : Value) :
    (type.atom op value).isAll = false := by
  unfold atom
  split <;> rfl

/-- The predicate of a leaf reads the column of its type. -/
theorem atomColumns_atom (type : ConditionType) (op : Operator) (value : Value) :
    (type.atom op value).atomColumns = [type.column] := by
  unfold atom
  split
  · rw [Predicate.contains, Predicate.atomColumns]
  · rw [Predicate.atomColumns]

end ConditionType

namespace Catalog

variable {catalog : Catalog}

/-- The predicate of a leaf is built by its type, which has to be known. -/
theorem predicate_leaf_eq_ok_iff {typeKey operator : String} {value : Value} {p : Predicate} :
    catalog.predicate (.leaf typeKey operator value) = .ok p ↔
      ∃ type, catalog.conditionType typeKey = .ok type ∧ type.build operator value = .ok p := by
  rw [predicate, bind_eq_ok_iff]

/-- A connective is given to a node that names one and has children. -/
theorem connective_eq_ok_iff {operator : String} {children : List Condition} {op : Connective} :
    connective operator children = .ok op ↔ operator.toLower = op.key ∧ children ≠ [] := by
  rw [← Connective.ofKey?_eq_some_iff, connective]
  cases Connective.ofKey? operator with
  | none => simp
  | some found =>
    cases children with
    | nil => simp
    | cons child rest => simp

/-- The predicates of a forest start with the predicate of its first condition. -/
theorem predicates_cons_eq_ok_iff {condition : Condition} {rest : List Condition}
    {parts : List Predicate} :
    catalog.predicates (condition :: rest) = .ok parts ↔
      ∃ first others, catalog.predicate condition = .ok first ∧
        catalog.predicates rest = .ok others ∧ parts = first :: others := by
  simp only [predicates, bind_eq_ok_iff, pure, Except.pure, Except.ok.injEq]
  constructor
  · rintro ⟨first, hfirst, others, hothers, rfl⟩
    exact ⟨first, others, hfirst, hothers, rfl⟩
  · rintro ⟨first, others, hfirst, hothers, rfl⟩
    exact ⟨first, hfirst, others, hothers, rfl⟩

/-- The predicates of two forests are those of the first and then those of the second. -/
theorem predicates_append_eq_ok_iff {conditions others : List Condition}
    {parts : List Predicate} :
    catalog.predicates (conditions ++ others) = .ok parts ↔
      ∃ first second, catalog.predicates conditions = .ok first ∧
        catalog.predicates others = .ok second ∧ parts = first ++ second := by
  induction conditions generalizing parts with
  | nil => simp [predicates]
  | cons condition rest ih =>
    simp only [List.cons_append, predicates_cons_eq_ok_iff, ih]
    constructor
    · rintro ⟨head, _, hhead, ⟨tail, second, htail, hsecond, rfl⟩, rfl⟩
      exact ⟨head :: tail, second, ⟨head, tail, hhead, htail, rfl⟩, hsecond, rfl⟩
    · rintro ⟨_, second, ⟨head, tail, hhead, htail, rfl⟩, hsecond, rfl⟩
      exact ⟨head, _, hhead, ⟨tail, second, htail, hsecond, rfl⟩, rfl⟩

/-- Every predicate of a forest is that of one of its conditions. -/
theorem exists_condition_of_mem {conditions : List Condition} {parts : List Predicate}
    (h : catalog.predicates conditions = .ok parts) {part : Predicate} (hmem : part ∈ parts) :
    ∃ condition ∈ conditions, catalog.predicate condition = .ok part := by
  induction conditions generalizing parts with
  | nil =>
    obtain rfl : [] = parts := by simpa [predicates] using h
    cases hmem
  | cons condition rest ih =>
    obtain ⟨first, others, hfirst, hothers, rfl⟩ := predicates_cons_eq_ok_iff.1 h
    rcases List.mem_cons.1 hmem with rfl | hmem
    · exact ⟨condition, by simp, hfirst⟩
    · obtain ⟨found, hfound, hpart⟩ := ih hothers hmem
      exact ⟨found, by simp [hfound], hpart⟩

/-- Every condition of a forest has its predicate among those of the forest. -/
theorem exists_predicate_of_mem {conditions : List Condition} {parts : List Predicate}
    (h : catalog.predicates conditions = .ok parts) {condition : Condition}
    (hmem : condition ∈ conditions) : ∃ part ∈ parts, catalog.predicate condition = .ok part := by
  induction conditions generalizing parts with
  | nil => cases hmem
  | cons head rest ih =>
    obtain ⟨first, others, hfirst, hothers, rfl⟩ := predicates_cons_eq_ok_iff.1 h
    rcases List.mem_cons.1 hmem with rfl | hmem
    · exact ⟨first, by simp, hfirst⟩
    · obtain ⟨part, hpart, hcondition⟩ := ih hothers hmem
      exact ⟨part, by simp [hpart], hcondition⟩

/-- The predicate of a compound joins those of its children, of which there has to be one. -/
theorem predicate_compound_eq_ok_iff {operator : String} {children : List Condition}
    {p : Predicate} :
    catalog.predicate (.compound operator children) = .ok p ↔
      ∃ op : Connective, operator.toLower = op.key ∧ children ≠ [] ∧
        ∃ parts, catalog.predicates children = .ok parts ∧ junction op parts = p := by
  simp only [predicate, bind_eq_ok_iff, connective_eq_ok_iff, pure, Except.pure,
    Except.ok.injEq, and_assoc]

/-- The predicate of a condition is a restriction. -/
theorem isAll_predicate {condition : Condition} :
    ∀ {p : Predicate}, catalog.predicate condition = .ok p → p.isAll = false := by
  induction condition using Condition.child_induction with
  | leaf typeKey operator value =>
    intro p h
    obtain ⟨type, -, hbuild⟩ := predicate_leaf_eq_ok_iff.1 h
    obtain ⟨op, -, -, read, -, -, rfl⟩ := ConditionType.build_eq_ok_iff.1 hbuild
    exact type.isAll_atom op read
  | compound operator children ih =>
    intro p h
    obtain ⟨op, -, hne, parts, hparts, rfl⟩ := predicate_compound_eq_ok_iff.1 h
    have hrestrict : ∀ part ∈ parts, part.isAll = false := by
      intro part hmem
      obtain ⟨child, hchild, hpart⟩ := exists_condition_of_mem hparts hmem
      exact ih child hchild hpart
    cases op with
    | and =>
      refine Predicate.isAll_conjunction hrestrict ?_
      obtain ⟨child, hchild⟩ := List.exists_mem_of_ne_nil children hne
      obtain ⟨part, hpart, -⟩ := exists_predicate_of_mem hparts hchild
      exact List.ne_nil_of_mem hpart
    | or => exact Predicate.isAll_disjunction hrestrict

/-- No condition stands for the predicate that always holds. -/
theorem isAll_of_mem_predicates {conditions : List Condition} {parts : List Predicate}
    (h : catalog.predicates conditions = .ok parts) : ∀ part ∈ parts, part.isAll = false := by
  intro part hmem
  obtain ⟨condition, -, hpart⟩ := exists_condition_of_mem h hmem
  exact isAll_predicate hpart

end Catalog

end Bookkeeping
