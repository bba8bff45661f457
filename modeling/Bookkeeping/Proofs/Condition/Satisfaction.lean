import Bookkeeping.Catalog.Transaction
import Bookkeeping.Proofs.Condition.Predicate
import Bookkeeping.Proofs.Like.Pieces

/-!
# What conditions on transactions say

Whether a record satisfies a condition is said on the tree itself, leaf by leaf and node by node.
The predicate that a condition becomes holds of exactly the records that satisfy it, whatever
the shape of the tree.
-/

namespace Bookkeeping.Transaction

open Bookkeeping.Text

variable {record : Column → Option Value}

/-- What a leaf says of a record, seen as the values of its columns. A column without a value
satisfies no leaf. -/
inductive LeafHolds (record : Column → Option Value) : String → String → Value → Prop where
  /-- The name is the text of the value. -/
  | nameIs {value : Value} {text : String} : value.text? = some text →
    record name = some (.text text) → LeafHolds record "transaction_name" "=" value
  /-- The name contains the text of the value, letter case aside. -/
  | nameContains {value : Value} {text stored : String} : value.text? = some text →
    record name = some (.text stored) → lower text.toList <:+: lower stored.toList →
    LeafHolds record "transaction_name" "like" value
  /-- The amount stands to the number of the value as the operator says. -/
  | amountCompares {value number stored : Value} {op : Operator} :
    value.number? .decimal = some number → record amount = some stored →
    stored.compare? op number = some true →
    LeafHolds record "transaction_amount" op.key value
  /-- The merchant is the text of the value. -/
  | merchantIs {value : Value} {text : String} : value.text? = some text →
    record merchant = some (.text text) → LeafHolds record "transaction_merchant" "=" value

/-- A record satisfies a condition. The connectives are read in any case of the ASCII letters. -/
inductive Satisfies (record : Column → Option Value) : Condition → Prop where
  | leaf {typeKey operator : String} {value : Value} : LeafHolds record typeKey operator value →
    Satisfies record (.leaf typeKey operator value)
  | and {operator : String} {children : List Condition} : operator.toLower = "and" →
    (∀ child ∈ children, Satisfies record child) → Satisfies record (.compound operator children)
  | or {operator : String} {children : List Condition} {child : Condition} :
    operator.toLower = "or" → child ∈ children → Satisfies record child →
    Satisfies record (.compound operator children)

private theorem satisfies_leaf_iff {typeKey operator : String} {value : Value} :
    Satisfies record (.leaf typeKey operator value) ↔ LeafHolds record typeKey operator value :=
  ⟨fun h => by cases h; assumption, .leaf⟩

private theorem satisfies_and_iff {operator : String} {children : List Condition}
    (hop : operator.toLower = "and") :
    Satisfies record (.compound operator children) ↔
      ∀ child ∈ children, Satisfies record child := by
  constructor
  · intro h
    cases h with
    | and _ hall => exact hall
    | or hor _ _ => simp [hop] at hor
  · exact .and hop

private theorem satisfies_or_iff {operator : String} {children : List Condition}
    (hop : operator.toLower = "or") :
    Satisfies record (.compound operator children) ↔
      ∃ child ∈ children, Satisfies record child := by
  constructor
  · intro h
    cases h with
    | and hand _ => simp [hop] at hand
    | or _ hmem hchild => exact ⟨_, hmem, hchild⟩
  · rintro ⟨child, hmem, hchild⟩
    exact .or hop hmem hchild

/-- The catalog knows three condition types. -/
theorem conditionType_eq_ok_iff {vocabulary : Vocabulary} {key : String} {type : ConditionType} :
    (catalog vocabulary).conditionType key = .ok type ↔
      key = "transaction_name" ∧ type = nameCondition ∨
      key = "transaction_amount" ∧ type = amountCondition ∨
      key = "transaction_merchant" ∧ type = merchantCondition vocabulary := by
  have hname : nameCondition.key = "transaction_name" := rfl
  have hamount : amountCondition.key = "transaction_amount" := rfl
  have hmerchant : (merchantCondition vocabulary).key = "transaction_merchant" := rfl
  simp only [Catalog.conditionType, catalog, conditions, List.find?_cons, List.find?_nil, hname,
    hamount, hmerchant]
  by_cases h₁ : key = "transaction_name"
  · simp [h₁, eq_comm]
  · by_cases h₂ : key = "transaction_amount"
    · simp [h₂, eq_comm]
    · by_cases h₃ : key = "transaction_merchant"
      · simp [h₃, eq_comm]
      · simp [h₁, h₂, h₃, beq_eq_false_iff_ne.2 (Ne.symm h₁), beq_eq_false_iff_ne.2 (Ne.symm h₂),
          beq_eq_false_iff_ne.2 (Ne.symm h₃)]

/-- A comparison holds of a value that is there and compares as the operator says. -/
theorem comparison_iff {op : Operator} {value : Value} {stored : Option Value} :
    Predicate.comparison op value stored = true ↔
      ∃ held, stored = some held ∧ held.compare? op value = some true := by
  cases stored with
  | none => simp [Predicate.comparison]
  | some held => cases hcompare : held.compare? op value <;> simp [Predicate.comparison, hcompare]

/-- Where equal order means equality, comparing for equality asks for the value itself. -/
theorem comparison_eq_iff {value : Value} {stored : Option Value}
    (hvalue : ∀ held : Value, held.order? value = some .eq ↔ held = value) :
    Predicate.comparison .eq value stored = true ↔ stored = some value := by
  rw [comparison_iff]
  constructor
  · rintro ⟨held, rfl, hcompare⟩
    obtain ⟨found, hfound, haccepts⟩ := Option.bind_eq_some_iff.1 hcompare
    obtain rfl : found = .eq := by simpa [Operator.accepts?] using haccepts
    rw [(hvalue held).1 hfound]
  · rintro rfl
    refine ⟨value, rfl, ?_⟩
    rw [Value.compare?, (hvalue value).2 rfl]
    rfl

/-- Only the same text compares as equal to a text. -/
theorem order?_text_iff {text : String} (held : Value) :
    held.order? (.text text) = some .eq ↔ held = .text text := by
  cases held <;> simp [Value.order?]

/-- Only the same flag compares as equal to a flag. -/
theorem order?_flag_iff {flag : Bool} (held : Value) :
    held.order? (.flag flag) = some .eq ↔ held = .flag flag := by
  cases held <;> simp [Value.order?]

/-- What a leaf on the name says. -/
theorem leafHolds_name_iff {operator : String} {value : Value} :
    LeafHolds record "transaction_name" operator value ↔ ∃ text, value.text? = some text ∧
      (operator = "=" ∧ record name = some (.text text) ∨
        operator = "like" ∧ ∃ stored, record name = some (.text stored) ∧
          lower text.toList <:+: lower stored.toList) := by
  constructor
  · intro h
    generalize htype : "transaction_name" = typeKey at h
    cases h with
    | nameIs htext hstored => exact ⟨_, htext, .inl ⟨rfl, hstored⟩⟩
    | nameContains htext hstored hinfix => exact ⟨_, htext, .inr ⟨rfl, _, hstored, hinfix⟩⟩
    | amountCompares => simp at htype
    | merchantIs => simp at htype
  · rintro ⟨text, htext, ⟨rfl, hstored⟩ | ⟨rfl, stored, hstored, hinfix⟩⟩
    · exact .nameIs htext hstored
    · exact .nameContains htext hstored hinfix

/-- What a leaf on the amount says. -/
theorem leafHolds_amount_iff {op : Operator} {value : Value} :
    LeafHolds record "transaction_amount" op.key value ↔
      ∃ number, value.number? .decimal = some number ∧
        ∃ stored, record amount = some stored ∧ stored.compare? op number = some true := by
  constructor
  · intro h
    generalize htype : "transaction_amount" = typeKey at h
    generalize hkey : op.key = operator at h
    cases h with
    | nameIs => simp at htype
    | nameContains => simp at htype
    | @amountCompares _ number stored other hnumber hstored hcompare =>
      have hop : other = op := by
        have hread := Operator.ofKey?_key op
        rwa [hkey, Operator.ofKey?_key, Option.some.injEq] at hread
      exact ⟨number, hnumber, stored, hstored, hop ▸ hcompare⟩
    | merchantIs => simp at htype
  · rintro ⟨number, hnumber, stored, hstored, hcompare⟩
    exact .amountCompares hnumber hstored hcompare

/-- What a leaf on the merchant says. -/
theorem leafHolds_merchant_iff {operator : String} {value : Value} :
    LeafHolds record "transaction_merchant" operator value ↔
      operator = "=" ∧ ∃ text, value.text? = some text ∧ record merchant = some (.text text) := by
  constructor
  · intro h
    generalize htype : "transaction_merchant" = typeKey at h
    cases h with
    | nameIs => simp at htype
    | nameContains => simp at htype
    | amountCompares => simp at htype
    | merchantIs htext hstored => exact ⟨rfl, _, htext, hstored⟩
  · rintro ⟨rfl, text, htext, hstored⟩
    exact .merchantIs htext hstored

variable {vocabulary : Vocabulary} {operator : String} {value : Value} {p : Predicate}

private theorem holds_build_name_iff (h : nameCondition.build operator value = .ok p) :
    p.holds record = true ↔ LeafHolds record "transaction_name" operator value := by
  obtain ⟨op, hop, rfl, read, hread, -, rfl⟩ := ConditionType.build_eq_ok_iff.1 h
  obtain ⟨text, htext, rfl⟩ := Option.map_eq_some_iff.1 hread
  have hops : op = .like ∨ op = .eq := by simpa [nameCondition, ConditionKind.operators] using hop
  rw [leafHolds_name_iff]
  rcases hops with rfl | rfl
  · simp only [ConditionType.atom, Predicate.contains, Predicate.holds,
      Predicate.likeness_containing_iff]
    simp [htext, Operator.key, nameCondition]
  · simp only [ConditionType.atom, Predicate.holds, comparison_eq_iff order?_text_iff]
    simp [htext, Operator.key, nameCondition]

private theorem holds_build_amount_iff (h : amountCondition.build operator value = .ok p) :
    p.holds record = true ↔ LeafHolds record "transaction_amount" operator value := by
  obtain ⟨op, hop, rfl, number, hnumber, -, rfl⟩ := ConditionType.build_eq_ok_iff.1 h
  have hnumber : value.number? .decimal = some number := hnumber
  have hlike : op ≠ .like := by
    rintro rfl
    simp [amountCondition, ConditionKind.operators] at hop
  have hatom : amountCondition.atom op number = .compare amount op number := by
    unfold ConditionType.atom
    split
    · exact absurd rfl hlike
    · rfl
  rw [hatom, Predicate.holds, comparison_iff, leafHolds_amount_iff]
  simp [hnumber]

private theorem holds_build_merchant_iff
    (h : (merchantCondition vocabulary).build operator value = .ok p) :
    p.holds record = true ↔ LeafHolds record "transaction_merchant" operator value := by
  obtain ⟨op, hop, rfl, read, hread, -, rfl⟩ := ConditionType.build_eq_ok_iff.1 h
  obtain ⟨text, htext, rfl⟩ := Option.map_eq_some_iff.1 hread
  obtain rfl : op = .eq := by simpa [merchantCondition, ConditionKind.operators] using hop
  rw [leafHolds_merchant_iff]
  simp only [ConditionType.atom, Predicate.holds, comparison_eq_iff order?_text_iff]
  simp [htext, Operator.key, merchantCondition]

/-- The predicate of a leaf holds of the records that satisfy it. -/
theorem holds_leaf_iff {typeKey : String}
    (h : (catalog vocabulary).predicate (.leaf typeKey operator value) = .ok p) :
    p.holds record = true ↔ LeafHolds record typeKey operator value := by
  obtain ⟨type, htype, hbuild⟩ := Catalog.predicate_leaf_eq_ok_iff.1 h
  rcases conditionType_eq_ok_iff.1 htype with ⟨rfl, rfl⟩ | ⟨rfl, rfl⟩ | ⟨rfl, rfl⟩
  · exact holds_build_name_iff hbuild
  · exact holds_build_amount_iff hbuild
  · exact holds_build_merchant_iff hbuild

/-- The predicates of a forest hold of a record exactly when it satisfies the conditions, given
that this is so for each of them. -/
theorem forall_holds_iff {conditions : List Condition} {parts : List Predicate}
    (h : (catalog vocabulary).predicates conditions = .ok parts)
    (heach : ∀ condition ∈ conditions, ∀ part,
      (catalog vocabulary).predicate condition = .ok part →
        (part.holds record = true ↔ Satisfies record condition)) :
    (∀ part ∈ parts, part.holds record = true) ↔
      ∀ condition ∈ conditions, Satisfies record condition := by
  constructor
  · intro hall condition hmem
    obtain ⟨part, hpart, hcondition⟩ := Catalog.exists_predicate_of_mem h hmem
    exact (heach condition hmem part hcondition).1 (hall part hpart)
  · intro hall part hmem
    obtain ⟨condition, hmem, hpart⟩ := Catalog.exists_condition_of_mem h hmem
    exact (heach condition hmem part hpart).2 (hall condition hmem)

/-- The predicate of a condition holds of the records that satisfy it. -/
theorem holds_predicate_iff {condition : Condition} :
    ∀ {p : Predicate}, (catalog vocabulary).predicate condition = .ok p →
      (p.holds record = true ↔ Satisfies record condition) := by
  induction condition using Condition.child_induction with
  | leaf typeKey operator value =>
    intro p h
    rw [holds_leaf_iff h, satisfies_leaf_iff]
  | compound operator children ih =>
    intro p h
    obtain ⟨op, hkey, -, parts, hparts, rfl⟩ := Catalog.predicate_compound_eq_ok_iff.1 h
    have heach : ∀ child ∈ children, ∀ part,
        (catalog vocabulary).predicate child = .ok part →
          (part.holds record = true ↔ Satisfies record child) :=
      fun child hmem part hpart => ih child hmem hpart
    cases op with
    | and =>
      rw [satisfies_and_iff hkey, ← forall_holds_iff hparts heach]
      exact Predicate.holds_conjunction_iff
    | or =>
      rw [satisfies_or_iff hkey, Catalog.junction, Predicate.holds_disjunction_iff]
      constructor
      · rintro ⟨part, hpart, hholds⟩
        obtain ⟨child, hchild, hpredicate⟩ := Catalog.exists_condition_of_mem hparts hpart
        exact ⟨child, hchild, (ih child hchild hpredicate).1 hholds⟩
      · rintro ⟨child, hchild, hsatisfies⟩
        obtain ⟨part, hpart, hpredicate⟩ := Catalog.exists_predicate_of_mem hparts hchild
        exact ⟨part, hpart, (ih child hchild hpredicate).2 hsatisfies⟩

end Bookkeeping.Transaction
