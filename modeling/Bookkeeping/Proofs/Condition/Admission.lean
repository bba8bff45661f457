import Bookkeeping.Catalog.Transaction
import Bookkeeping.Proofs.Condition.Predicate
import Bookkeeping.Rule.Validity

/-!
# Which conditions are admitted

Evaluating a forest refuses it in three passes: for its depth, for a leaf of unknown type
anywhere in it, and for the first node that is malformed. Together the passes admit exactly the
forests whose every node is in order, and so does the one pass by which a rule is validated.
-/

namespace Bookkeeping

open Condition (preorder forestPreorder forestDepth)

/-- What is wrong with a leaf of the type: its operator, or else its value. -/
def ConditionType.offence? (type : ConditionType) (operator : String) (value : Value) :
    Option RuleError :=
  if ∀ op ∈ type.kind.operators, operator ≠ op.key then
    some (.unsupportedOperator type.key operator)
  else
    match type.kind.read? value with
    | none => some (type.invalid value type.kind.expectation)
    | some read => if type.offers read then none else some (type.invalid value notOffered)

namespace Catalog

/-- What is wrong with the type key of a leaf. -/
def unknownType? (catalog : Catalog) : Condition → Option RuleError
  | .leaf typeKey _ _ =>
    match catalog.conditions.find? (·.key == typeKey) with
    | some _ => none
    | none => some (.unsupportedConditionType typeKey)
  | .compound _ _ => none

/-- What is wrong with a node, those below it aside. -/
def offence? (catalog : Catalog) : Condition → Option RuleError
  | .leaf typeKey operator value =>
    match catalog.conditions.find? (·.key == typeKey) with
    | some type => type.offence? operator value
    | none => some (.unsupportedConditionType typeKey)
  | .compound operator children =>
    if (operator.toLower = "and" ∨ operator.toLower = "or") ∧ 0 < children.length then none
    else some (.malformedCompound operator children.length)

/-- The cause for which a forest is refused under a limit of depth: its depth, else the first leaf
of unknown type, else the first node in which anything is wrong. -/
def refusal? (catalog : Catalog) (limit : Nat) (conditions : List Condition) : Option RuleError :=
  if limit < forestDepth conditions then
    some (.tooDeep (forestDepth conditions) limit)
  else
    ((forestPreorder conditions).findSome? catalog.unknownType?).or
      ((forestPreorder conditions).findSome? catalog.offence?)

/-- A node is in order, those below it aside. -/
inductive Admits (catalog : Catalog) : Condition → Prop where
  /-- The type is known, the operator is one of its own by its very text, and the value can be
  read as its kind and is one of its options, if these are closed. -/
  | leaf {type : ConditionType} {op : Operator} {value read : Value} {typeKey : String} :
    catalog.conditions.find? (·.key == typeKey) = some type → op ∈ type.kind.operators →
    type.kind.read? value = some read →
    (type.kind = .select → ∀ options ∈ type.options, ∃ option ∈ options,
      read = .text option.value) →
    catalog.Admits (.leaf typeKey op.key value)
  /-- The operator is a connective, in any case of the ASCII letters, and there are children. -/
  | compound {operator : String} {children : List Condition} :
    operator.toLower = "and" ∨ operator.toLower = "or" → children ≠ [] →
    catalog.Admits (.compound operator children)

end Catalog

namespace ConditionType

variable {type : ConditionType} {operator : String} {value : Value}

private theorem operator?_eq_none_iff {text : String} :
    type.operator? text = none ↔ ∀ op ∈ type.kind.operators, text ≠ op.key := by
  rw [Option.eq_none_iff_forall_ne_some]
  simp only [ne_eq, operator?_eq_some_iff, not_and]
  exact forall_congr' fun op => ⟨fun h hmem hkey => h hkey hmem, fun h hkey hmem => h hmem hkey⟩

/-- Building a leaf's predicate refuses just what is wrong with the leaf. -/
theorem errorOf?_build : errorOf? (type.build operator value) = type.offence? operator value := by
  unfold build offence?
  cases hop : type.operator? operator with
  | none => rw [if_pos (operator?_eq_none_iff.1 hop), errorOf?]
  | some op =>
    have hallowed : ¬∀ op ∈ type.kind.operators, operator ≠ op.key := by
      rw [← operator?_eq_none_iff, hop]
      simp
    rw [if_neg hallowed]
    cases type.kind.read? value with
    | none => rfl
    | some read => cases hoffers : type.offers read <;> simp [hoffers, errorOf?]

/-- A value read as the type's kind is offered if it is one of the closed list, where there is
one. -/
theorem offers_iff {read : Value} (hread : type.kind.read? value = some read) :
    type.offers read = true ↔ (type.kind = .select → ∀ options ∈ type.options,
      ∃ option ∈ options, read = .text option.value) := by
  by_cases hkind : type.kind = .select
  · rw [hkind] at hread
    obtain ⟨text, -, rfl⟩ := Option.map_eq_some_iff.1 hread
    cases hoptions : type.options with
    | none => simp [offers, hkind, hoptions]
    | some options =>
      have hoffered : type.offers (.text text) = SelectOption.offered options text := by
        simp only [offers, hkind, hoptions]
      rw [hoffered, SelectOption.offered, List.any_eq_true]
      simp only [hkind, beq_iff_eq, Option.mem_some_iff, forall_eq', forall_const,
        Value.text.injEq]
      exact exists_congr fun option => and_congr_right fun _ => eq_comm
  · have hopen : type.offers read = true := by
      unfold offers
      split
      · contradiction
      · rfl
    simp [hopen, hkind]

private theorem offence?_eq_none_iff : type.offence? operator value = none ↔
    ∃ op ∈ type.kind.operators, operator = op.key ∧ ∃ read, type.kind.read? value = some read ∧
      (type.kind = .select → ∀ options ∈ type.options, ∃ option ∈ options,
        read = .text option.value) := by
  rw [← errorOf?_build, errorOf?_eq_none_iff]
  simp only [build_eq_ok_iff]
  constructor
  · rintro ⟨p, op, hop, hkey, read, hread, hoffers, -⟩
    exact ⟨op, hop, hkey, read, hread, (offers_iff hread).1 hoffers⟩
  · rintro ⟨op, hop, hkey, read, hread, hoffers⟩
    exact ⟨_, op, hop, hkey, read, hread, (offers_iff hread).2 hoffers, rfl⟩

end ConditionType

namespace Catalog

variable {catalog : Catalog}

/-- Nothing is wrong with the nodes that are in order, and with no others. -/
theorem offence?_eq_none_iff {node : Condition} :
    catalog.offence? node = none ↔ catalog.Admits node := by
  cases node with
  | leaf typeKey operator value =>
    constructor
    · intro h
      cases htype : catalog.conditions.find? (·.key == typeKey) with
      | none => simp [offence?, htype] at h
      | some type =>
        simp only [offence?, htype, ConditionType.offence?_eq_none_iff] at h
        obtain ⟨op, hop, rfl, read, hread, hoffered⟩ := h
        exact .leaf htype hop hread hoffered
    · intro h
      cases h with
      | leaf htype hop hread hoffered =>
        simp only [offence?, htype, ConditionType.offence?_eq_none_iff]
        exact ⟨_, hop, rfl, _, hread, hoffered⟩
  | compound operator children =>
    simp only [offence?, ite_eq_left_iff, reduceCtorEq, imp_false, not_not, List.length_pos_iff]
    constructor
    · rintro ⟨hop, hne⟩
      exact .compound hop hne
    · intro h
      cases h with
      | compound hop hne => exact ⟨hop, hne⟩

/-- A leaf of unknown type is no node in order. -/
theorem unknownType?_eq_none_of_offence? {node : Condition} (h : catalog.offence? node = none) :
    catalog.unknownType? node = none := by
  cases node with
  | compound operator children => rfl
  | leaf typeKey operator value =>
    cases htype : catalog.conditions.find? (·.key == typeKey) with
    | none => simp [offence?, htype] at h
    | some type => simp [unknownType?, htype]

private theorem errorOf?_connective {operator : String} {children : List Condition} :
    errorOf? (connective operator children) = catalog.offence? (.compound operator children) := by
  rw [connective, offence?]
  cases hop : Connective.ofKey? operator with
  | none =>
    have hnames := Connective.ofKey?_eq_none_iff.1 hop
    simp [errorOf?, hnames]
  | some op =>
    have hnames : operator.toLower = "and" ∨ operator.toLower = "or" := by
      rw [← not_not (a := _ ∨ _), ← Connective.ofKey?_eq_none_iff, hop]
      simp
    cases children with
    | nil => simp [errorOf?]
    | cons child rest => simp [errorOf?, hnames]

/-- The predicates of a forest are refused as those of its conditions, one after another. -/
theorem errorOf?_predicates_of_each {conditions : List Condition}
    (heach : ∀ condition ∈ conditions,
      errorOf? (catalog.predicate condition) = (preorder condition).findSome? catalog.offence?) :
    errorOf? (catalog.predicates conditions) =
      (forestPreorder conditions).findSome? catalog.offence? := by
  induction conditions with
  | nil => rfl
  | cons condition rest ih =>
    have hrest := ih fun other hmem => heach other (by simp [hmem])
    rw [predicates, forestPreorder, List.findSome?_append, ← heach condition (by simp), ← hrest]
    exact errorOf?_bind fun first => errorOf?_bind_pure ..

/-- The predicate of a condition is refused for the first node in which anything is wrong. -/
theorem errorOf?_predicate {condition : Condition} :
    errorOf? (catalog.predicate condition) = (preorder condition).findSome? catalog.offence? := by
  induction condition using Condition.child_induction with
  | leaf typeKey operator value =>
    rw [predicate, conditionType, preorder]
    cases htype : catalog.conditions.find? (·.key == typeKey) with
    | none => simp [offence?, htype, errorOf?]
    | some type => simp [offence?, htype, ConditionType.errorOf?_build]
  | compound operator children ih =>
    rw [predicate, preorder, List.findSome?_cons, ← errorOf?_connective,
      ← errorOf?_predicates_of_each ih]
    rw [errorOf?_bind fun op => errorOf?_bind_pure ..]
    cases errorOf? (connective operator children) <;> rfl

/-- The predicates of a forest fail with the first offence in its preorder. -/
theorem errorOf?_predicates {conditions : List Condition} :
    errorOf? (catalog.predicates conditions) =
      (forestPreorder conditions).findSome? catalog.offence? :=
  errorOf?_predicates_of_each fun _ _ => errorOf?_predicate

/-- Preparing a forest is refused as preparing its conditions, one after another. -/
theorem errorOf?_prepareForest_of_each {conditions : List Condition}
    (heach : ∀ condition ∈ conditions, ∀ collection,
      errorOf? (catalog.prepare condition collection) =
        (preorder condition).findSome? catalog.unknownType?) (collection : Collection) :
    errorOf? (catalog.prepareForest conditions collection) =
      (forestPreorder conditions).findSome? catalog.unknownType? := by
  induction conditions generalizing collection with
  | nil => rfl
  | cons condition rest ih =>
    rw [prepareForest, forestPreorder, List.findSome?_append,
      ← heach condition (by simp) collection]
    exact errorOf?_bind fun prepared => ih (fun other hmem => heach other (by simp [hmem])) prepared

/-- Preparing a condition is refused for the first leaf of unknown type. -/
theorem errorOf?_prepare {condition : Condition} : ∀ collection : Collection,
    errorOf? (catalog.prepare condition collection) =
      (preorder condition).findSome? catalog.unknownType? := by
  induction condition using Condition.child_induction with
  | leaf typeKey operator value =>
    intro collection
    rw [prepare, conditionType, preorder]
    cases htype : catalog.conditions.find? (·.key == typeKey) with
    | none => simp [unknownType?, htype, errorOf?]
    | some type => simp [unknownType?, htype, errorOf?]
  | compound operator children ih =>
    intro collection
    rw [prepare, preorder, List.findSome?_cons, unknownType?]
    exact errorOf?_prepareForest_of_each ih collection

private theorem errorOf?_prepareForest {conditions : List Condition} (collection : Collection) :
    errorOf? (catalog.prepareForest conditions collection) =
      (forestPreorder conditions).findSome? catalog.unknownType? :=
  errorOf?_prepareForest_of_each (fun _ _ => errorOf?_prepare) collection

/-- A forest is refused unless it is shallow enough and each of its nodes is in order. -/
theorem refusal?_eq_none_iff {limit : Nat} {conditions : List Condition} :
    catalog.refusal? limit conditions = none ↔
      (∀ condition ∈ conditions, condition.depth ≤ limit) ∧
        ∀ node ∈ forestPreorder conditions, catalog.Admits node := by
  rw [← Condition.forestDepth_le_iff, refusal?]
  by_cases hdepth : limit < forestDepth conditions
  · rw [if_pos hdepth]
    simp [Nat.not_le.2 hdepth]
  · rw [if_neg hdepth, Option.or_eq_none_iff, List.findSome?_eq_none_iff,
      List.findSome?_eq_none_iff]
    simp only [Nat.not_lt.1 hdepth, true_and, ← offence?_eq_none_iff]
    constructor
    · rintro ⟨-, hoffence⟩
      exact hoffence
    · intro hoffence
      exact ⟨fun node hmem => unknownType?_eq_none_of_offence? (hoffence node hmem), hoffence⟩

/-- First days always have a predicate. -/
def DatesFit (catalog : Catalog) : Prop :=
  ∀ since, errorOf? (catalog.datePredicate since) = none

private theorem errorOf?_combined (hdates : catalog.DatesFit) (conditions : List Condition)
    (since : Option Date) :
    errorOf? (catalog.combined conditions since) =
      (forestPreorder conditions).findSome? catalog.offence? := by
  rw [combined, errorOf?_bind fun parts => errorOf?_bind_pure .., hdates, Option.or_none,
    errorOf?_predicates]

/-- The predicate of a forest and a first day asks only that the nodes are in order. -/
theorem exists_combined_iff (hdates : catalog.DatesFit) {conditions : List Condition}
    {since : Option Date} :
    (∃ p, catalog.combined conditions since = .ok p) ↔
      ∀ node ∈ forestPreorder conditions, catalog.Admits node := by
  rw [← errorOf?_eq_none_iff, errorOf?_combined hdates, List.findSome?_eq_none_iff]
  simp only [offence?_eq_none_iff]

/-- Preparing for a forest fails with the first unknown type in its preorder. -/
theorem errorOf?_prepareAll (conditions : List Condition) (since : Option Date)
    (collection : Collection) :
    errorOf? (catalog.prepareAll conditions since collection) =
      (forestPreorder conditions).findSome? catalog.unknownType? := by
  cases since with
  | none => exact (errorOf?_bind_pure _ id).trans (errorOf?_prepareForest collection)
  | some date =>
    exact (errorOf?_bind_pure _ catalog.effectiveDate.prepare).trans
      (errorOf?_prepareForest collection)

end Catalog

private theorem Settings.checkDepth_eq_ok_iff {settings : Settings} {conditions : List Condition} :
    settings.checkDepth conditions = .ok () ↔
      ∀ condition ∈ conditions, condition.depth ≤ settings.maxDepth := by
  rw [← Condition.forestDepth_le_iff]
  simp only [checkDepth]
  split
  · rename_i hdepth
    simpa using hdepth
  · rename_i hdepth
    simpa using hdepth

/-- A forest is shallow enough when its parts are. -/
theorem Settings.checkDepth_append_eq_ok_iff {settings : Settings}
    {conditions others : List Condition} :
    settings.checkDepth (conditions ++ others) = .ok () ↔
      settings.checkDepth conditions = .ok () ∧ settings.checkDepth others = .ok () := by
  simp only [checkDepth_eq_ok_iff, List.forall_mem_append]

/-- A forest that is too deep is refused with its depth. -/
theorem Settings.errorOf?_checkDepth (settings : Settings) (conditions : List Condition) :
    errorOf? (settings.checkDepth conditions) =
      if settings.maxDepth < forestDepth conditions then
        some (.tooDeep (forestDepth conditions) settings.maxDepth)
      else none := by
  simp only [checkDepth]
  split <;> rfl

/-- Evaluating a forest refuses it for its depth, else for an unknown type, else for the first
offence. -/
theorem Registry.errorOf?_evaluateFrom {registry : Registry} (hdates : registry.catalog.DatesFit)
    (collection : Collection) (conditions : List Condition) (since : Option Date) :
    errorOf? (registry.evaluateFrom collection conditions since) =
      registry.catalog.refusal? registry.settings.maxDepth conditions := by
  rw [evaluateFrom, errorOf?_bind fun _ => errorOf?_bind fun _ => errorOf?_bind_pure ..,
    Settings.errorOf?_checkDepth, Catalog.errorOf?_prepareAll, Catalog.errorOf?_combined hdates,
    Catalog.refusal?]
  split <;> rfl

namespace Rule

/-- The rule without its conditions and its first day. -/
def unconditional (rule : Rule) : Rule :=
  { rule with conditions := [], effectiveDate := none }

private theorem checkActions_unconditional (rule : Rule) (registry : Registry) (seen : List String)
    (actions : List Action) :
    rule.unconditional.checkActions registry seen actions =
      rule.checkActions registry seen actions := by
  induction actions generalizing seen with
  | nil => rfl
  | cons action rest ih =>
    have haction : rule.unconditional.checkAction registry seen action =
        rule.checkAction registry seen action := rfl
    rw [checkActions, checkActions, haction]
    exact bind_congr fun _ => ih _

/-- Validating a rule checks its depth and its predicate, and then what is left of it without
conditions. -/
theorem validate_eq (rule : Rule) (registry : Registry) :
    rule.validate registry = (do
      registry.settings.checkDepth rule.conditions
      let _ ← registry.catalog.combined rule.conditions rule.effectiveDate
      rule.unconditional.validate registry) := by
  have hrest : rule.unconditional.validate registry =
      if rule.actions.isEmpty then .error (.missingActions rule.displayName)
      else rule.checkActions registry [] rule.actions := by
    have hdepth : registry.settings.checkDepth [] = .ok () := by
      simp [Settings.checkDepth, Condition.forestDepth]
    have hcombined : registry.catalog.combined [] none = .ok .all := rfl
    rw [← checkActions_unconditional]
    simp only [validate, unconditional, hdepth, hcombined, ok_bind]
    rfl
  rw [hrest]
  rfl

end Rule

/-- Days can be compared with days, so first days always have a predicate. -/
theorem Transaction.catalog_datesFit (vocabulary : Vocabulary) :
    (Transaction.catalog vocabulary).DatesFit := by
  intro since
  cases since <;> rfl

/-- **Admission of conditions.** A forest is evaluated exactly when no condition in it is nested
too deep and every node in it is in order; otherwise it is refused for its depth, else for the
first leaf of unknown type anywhere in it, else for the first node in which anything is wrong.
The checks of a rule's conditions by which it is validated admit the same forests. -/
theorem Transaction.evaluation_admits (vocabulary : Vocabulary) (base collection : Collection)
    (provider : Option Provider) (settings : Settings) (rule : Rule) :
    let catalog := Transaction.catalog vocabulary
    let registry : Registry := ⟨catalog, base, provider, settings⟩
    let evaluation := registry.evaluateFrom collection rule.conditions rule.effectiveDate
    let admitted := (∀ condition ∈ rule.conditions, condition.depth ≤ settings.maxDepth) ∧
      ∀ node ∈ forestPreorder rule.conditions, catalog.Admits node
    ((∃ result, evaluation = .ok result) ↔ admitted) ∧
    (∀ cause, evaluation = .error cause ↔
      catalog.refusal? settings.maxDepth rule.conditions = some cause) ∧
    (settings.checkDepth rule.conditions = .ok () ∧
      (∃ p, catalog.combined rule.conditions rule.effectiveDate = .ok p) ↔ admitted) ∧
    (rule.validate registry = .ok () ↔
      admitted ∧ rule.unconditional.validate registry = .ok ()) := by
  intro catalog registry evaluation admitted
  have hdates : catalog.DatesFit := Transaction.catalog_datesFit vocabulary
  have hevaluation : errorOf? evaluation = catalog.refusal? settings.maxDepth rule.conditions :=
    Registry.errorOf?_evaluateFrom hdates collection rule.conditions rule.effectiveDate
  have hadmitted : catalog.refusal? settings.maxDepth rule.conditions = none ↔ admitted :=
    Catalog.refusal?_eq_none_iff
  have hchecks : settings.checkDepth rule.conditions = .ok () ∧
      (∃ p, catalog.combined rule.conditions rule.effectiveDate = .ok p) ↔ admitted :=
    and_congr Settings.checkDepth_eq_ok_iff (Catalog.exists_combined_iff hdates)
  refine ⟨?_, ?_, hchecks, ?_⟩
  · rw [← errorOf?_eq_none_iff, hevaluation, hadmitted]
  · intro cause
    rw [← errorOf?_eq_some_iff, hevaluation]
  · rw [Rule.validate_eq, ← hchecks, and_assoc]
    simp only [bind_eq_ok_iff]
    constructor
    · rintro ⟨⟨⟩, hdepth, p, hp, hrest⟩
      exact ⟨hdepth, ⟨p, hp⟩, hrest⟩
    · rintro ⟨hdepth, ⟨p, hp⟩, hrest⟩
      exact ⟨(), hdepth, p, hp, hrest⟩

end Bookkeeping
