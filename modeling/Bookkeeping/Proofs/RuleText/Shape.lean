import Bookkeeping.Proofs.Condition.Admission
import Bookkeeping.Proofs.RuleText.Rule
import Mathlib

/-!
# The shape of rules from a text

What a rule text writes is whole before any catalog is asked. A rule has a name, actions and at most
one condition, and in the tree of the condition a connective joins two conditions or more. So no
registry finds fault with the build of such a rule, only with its depth, its keys and its values.
-/

namespace Bookkeeping

open Condition (preorder forestPreorder)

/-- A letter or underscore, and then letters, digits and underscores, all of ASCII. -/
def IsIdentifier (key : String) : Prop :=
  ∃ first more, key.toList = first :: more ∧ (first.isAlpha = true ∨ first = '_') ∧
    ∀ c ∈ more, c.isAlphanum = true ∨ c = '_'

/-- The node is built as a text writes it, those below it aside. -/
inductive Condition.WellBuilt : Condition → Prop
  | leaf {typeKey operator : String} {value : Value} (hkey : IsIdentifier typeKey)
      (hoperator : operator ∈ Operator.all.map Operator.key) :
      WellBuilt (.leaf typeKey operator value)
  | compound {operator : String} {children : List Condition}
      (hoperator : operator = "and" ∨ operator = "or") (hchildren : 2 ≤ children.length) :
      WellBuilt (.compound operator children)

/-- The rule is built as a text writes it. -/
structure Rule.WellBuilt (rule : Rule) : Prop where
  named : ∃ title, rule.name = some title
  conditions_length_le : rule.conditions.length ≤ 1
  nodes : ∀ node ∈ forestPreorder rule.conditions, node.WellBuilt
  actions_ne_nil : rule.actions ≠ []
  identifier : ∀ action ∈ rule.actions, IsIdentifier action.typeKey

/-- The cause is found in the build of a rule: it has no actions, or a compound node of it has no
connective or no children. -/
inductive RuleError.Structural : RuleError → Prop
  | malformedCompound (operator : String) (children : Nat) :
      Structural (.malformedCompound operator children)
  | missingActions (rule : String) : Structural (.missingActions rule)

namespace RuleText

open Reader

variable {text rest : List Char} {bound : Nat}

section Forms

variable {α : Type} {form : Form α} {kind : α → Prop}

/-- What texts shorter than a bound write by the form is of this kind. -/
def Yields (bound : Nat) (form : Form α) (kind : α → Prop) : Prop :=
  ∀ text rest found, text.length < bound → form text rest found → kind found

/-- Where one thing is of a kind, all of the repeated things are. -/
private theorem Yields.repeated (h : Yields bound form kind) (hshrinks : Shrinks bound form) :
    Yields bound (Repeated form) fun found => ∀ thing ∈ found, kind thing := by
  intro text rest found hbound hrepeated
  induction hrepeated with
  | nil => simp
  | cons hfirst hothers ih =>
    have hshorter := (hshrinks _ _ _ hbound hfirst).trans hbound
    exact List.forall_mem_cons.2 ⟨h _ _ _ hbound hfirst, ih hshorter⟩

/-- A mark does not change the kind. -/
private theorem Yields.marked (h : Yields bound form kind) (c : Char) :
    Yields bound (Marked c form) kind := by
  rintro text rest found hbound ⟨hmark, hfound⟩
  have hlength := hmark.length_le
  rw [List.length_cons] at hlength
  exact h _ _ _ (by omega) hfound

/-- A list has something in it. -/
theorem Yields.listed (h : Yields bound form kind) (hshrinks : Shrinks bound form) :
    Yields bound (Listed form) fun found => found ≠ [] ∧ ∀ thing ∈ found, kind thing := by
  rintro text rest found hbound ⟨hfirst, hothers⟩
  have hshorter := (hshrinks _ _ _ hbound hfirst).trans hbound
  have hrest := (h.marked ',').repeated (hshrinks.marked ',') _ _ _ hshorter hothers
  exact ⟨List.cons_ne_nil _ _, List.forall_mem_cons.2 ⟨h _ _ _ hbound hfirst, hrest⟩⟩

end Forms

/-- A name that is read is an identifier. -/
private theorem Name.isIdentifier {key : String} (h : Name text rest key) : IsIdentifier key := by
  obtain ⟨hc, hmore, -⟩ := h
  refine ⟨_, _, String.toList_ofList, ?_, fun d hd => ?_⟩
  · simpa [isNameStart] using hc
  · simpa [isNameChar] using hmore d hd

section Conditions

variable {form : Form Condition} {op : Connective}

/-- All nodes of the condition are built as a text writes them. -/
def Regular (condition : Condition) : Prop :=
  ∀ node ∈ preorder condition, node.WellBuilt

/-- Regular conditions are well built at every node. -/
private theorem forall_mem_forestPreorder {conditions : List Condition}
    (h : ∀ condition ∈ conditions, Regular condition) :
    ∀ node ∈ forestPreorder conditions, node.WellBuilt := by
  induction conditions with
  | nil => simp [forestPreorder]
  | cons condition rest ih =>
    obtain ⟨hfirst, hrest⟩ := List.forall_mem_cons.1 h
    rw [forestPreorder]
    exact List.forall_mem_append.2 ⟨hfirst, ih hrest⟩

/-- A connective does not change the kind. -/
private theorem Yields.joined (h : Yields bound form Regular) :
    Yields bound (Joined op form) Regular := by
  rintro _ _ _ hbound @⟨text, start, between, rest, found, hlayout, hword, hfound⟩
  have hstart := hlayout.length_le
  have hbetween : between.length ≤ start.length := hword.elim Word.length_le Word.length_le
  exact h _ _ _ (by omega) hfound

/-- A chain joins its parts if there are two or more, and else is its only part. -/
theorem Yields.chain (h : Yields bound form Regular) (hshrinks : Shrinks bound form) :
    Yields bound (Chain op form) Regular := by
  intro text rest found hbound hchain
  cases hchain with
  | alone hfound => exact h _ _ _ hbound hfound
  | @joined _ between _ first second others hfirst hothers =>
    have hshorter := (hshrinks _ _ _ hbound hfirst).trans hbound
    have hrest := h.joined.repeated (Joined.shrinks hshrinks) _ _ _ hshorter hothers
    have hnode : (Condition.joined op (first :: second :: others)).WellBuilt :=
      .compound (by cases op <;> simp [Connective.key]) (by simp)
    rw [Regular, Condition.joined, preorder]
    exact List.forall_mem_cons.2 ⟨hnode,
      forall_mem_forestPreorder (List.forall_mem_cons.2 ⟨h _ _ _ hbound hfirst, hrest⟩)⟩

/-- A condition on one column is regular, and so is what stands in parentheses. -/
private theorem yields_primary (bound : Nat) : Yields bound Primary Regular := by
  -- a group holds a whole condition in a shorter text, so the induction is on the length
  induction bound with
  | zero => intro text rest found hbound; omega
  | succ bound ih =>
    intro text rest found hbound hprimary
    cases hprimary with
    | @leaf _ _ _ _ typeKey op read hname hoperator hvalue =>
      obtain ⟨-, hname⟩ := hname
      have hnode : (Condition.atom typeKey op read).WellBuilt :=
        .leaf hname.isIdentifier (List.mem_map_of_mem op.mem_all)
      rw [Regular, Condition.atom, preorder]
      exact List.forall_mem_singleton.2 hnode
    | group hopen hinside hclose =>
      have hlength := hopen.length_le
      rw [List.length_cons] at hlength
      have hshrinks := shrinks_primary bound
      exact ((ih.chain hshrinks).chain (Chain.shrinks hshrinks)) _ _ _ (by omega) hinside

end Conditions

section Rules

/-- A rule has no condition, or one. -/
theorem WhenForm.regular {conditions : List Condition} (h : WhenForm text rest conditions) :
    conditions.length ≤ 1 ∧ ∀ condition ∈ conditions, Regular condition := by
  cases h with
  | none => simp
  | @some _ _ afterWord _ found hlayout hword hcondition =>
    have hshrinks := shrinks_primary (afterWord.length + 1)
    have hregular := ((yields_primary _).chain hshrinks).chain (Chain.shrinks hshrinks) _ _ _
      (Nat.lt_succ_self _) hcondition
    exact ⟨Nat.le_refl 1, List.forall_mem_singleton.2 hregular⟩

/-- An action that is read is named by an identifier. -/
private theorem yields_action (bound : Nat) :
    Yields bound ActionForm fun action => IsIdentifier action.typeKey := by
  rintro text rest found - ⟨⟨-, hname⟩, -⟩
  exact hname.isIdentifier

/-- A rule that is read is well built. -/
private theorem yields_rule (bound : Nat) : Yields bound RuleForm Rule.WellBuilt := by
  rintro text rest found - ⟨-, -, -, -, -, hwhen, -, -, hactions⟩
  obtain ⟨hlength, hregular⟩ := hwhen.regular
  obtain ⟨hne, hkeys⟩ :=
    (yields_action _).listed (shrinks_action _) _ _ _ (Nat.lt_succ_self _) hactions
  exact ⟨⟨_, rfl⟩, hlength, forall_mem_forestPreorder hregular, hne, hkeys⟩

/-- Every rule that is read from a text is built as a text writes it. -/
theorem wellBuilt_of_parse {text : String} {found : List Rule} (h : parse text = .ok found) :
    ∀ rule ∈ found, rule.WellBuilt := by
  obtain ⟨rest, hmany, -⟩ := rules_eq_ok_iff.1 (parse_eq_ok_iff_rules.1 h)
  exact (yields_rule _).repeated (shrinks_rule _) _ _ _ (Nat.lt_succ_self _)
    (sound_rule.many _ _ _ hmany)

end Rules

end RuleText

section Refusals

/-- A condition type refuses operators and values, not shapes. -/
private theorem ConditionType.failsOnly_build (type : ConditionType) (operator : String)
    (value : Value) :
    FailsOnly (¬·.Structural) (type.build operator value) := by
  rintro cause h
  unfold build at h
  split at h
  · cases h
    rintro ⟨⟩
  · split at h
    · cases h
      rintro ⟨⟩
    · split at h
      · cases h
      · cases h
        rintro ⟨⟩

/-- An action type refuses values, not shapes. -/
private theorem ActionType.failsOnly_check (type : ActionType) (value : Value) :
    FailsOnly (¬·.Structural) (type.check value) := by
  have hinvalid (reason : String) : ¬(type.invalid value reason).Structural := by rintro ⟨⟩
  intro cause h
  unfold check at h
  split at h
  · split at h
    · cases h
      exact hinvalid _
    · split at h
      · cases h
      · cases h
        exact hinvalid _
  · split at h
    · cases h
      exact hinvalid _
    · split at h
      · cases h
        exact hinvalid _
      · cases h
  · cases h

variable {catalog : Catalog} {conditions : List Condition}

/-- With a node that is built as a text writes it, nothing is wrong in its build. -/
theorem Condition.WellBuilt.not_structural {node : Condition} (h : node.WellBuilt)
    {cause : RuleError} (hoffence : catalog.offence? node = some cause) : ¬cause.Structural := by
  cases h with
  | @leaf typeKey operator value =>
    rw [Catalog.offence?] at hoffence
    split at hoffence
    · rename_i type _
      rw [← ConditionType.errorOf?_build, errorOf?_eq_some_iff] at hoffence
      exact type.failsOnly_build _ _ _ hoffence
    · cases hoffence
      rintro ⟨⟩
  | @compound operator children hoperator hchildren =>
    have hconnective : operator.toLower = "and" ∨ operator.toLower = "or" := by
      rcases hoperator with rfl | rfl
      · exact .inl (Connective.ofKey?_eq_some_iff.1 (Connective.ofKey?_key .and))
      · exact .inr (Connective.ofKey?_eq_some_iff.1 (Connective.ofKey?_key .or))
    have hne : children ≠ [] := List.ne_nil_of_length_pos (by omega)
    rw [Catalog.offence?_eq_none_iff.2 (.compound hconnective hne)] at hoffence
    cases hoffence

/-- No shape of a well-built forest is refused when it is turned into predicates. -/
private theorem Catalog.failsOnly_predicates
    (h : ∀ node ∈ forestPreorder conditions, node.WellBuilt) :
    FailsOnly (¬·.Structural) (catalog.predicates conditions) := by
  intro cause hcause
  rw [← errorOf?_eq_some_iff, errorOf?_predicates] at hcause
  obtain ⟨node, hnode, hoffence⟩ := List.exists_of_findSome?_eq_some hcause
  exact (h node hnode).not_structural hoffence

/-- Neither does the bound on the date refuse a shape. -/
private theorem Catalog.failsOnly_combined (h : ∀ node ∈ forestPreorder conditions, node.WellBuilt)
    (since : Option Date) : FailsOnly (¬·.Structural) (catalog.combined conditions since) := by
  have hdate : FailsOnly (¬·.Structural) (catalog.datePredicate since) := by
    cases since with
    | none => exact failsOnly_ok _
    | some date =>
      intro cause hcause
      exact catalog.effectiveDate.failsOnly_build _ _ _ (map_eq_error_iff.1 hcause)
  exact (catalog.failsOnly_predicates h).bind fun parts => hdate.bind fun bound => failsOnly_ok _

/-- Preparing fails for an unknown type only. -/
theorem Catalog.failsOnly_prepareAll (conditions : List Condition) (since : Option Date)
    (collection : Collection) :
    FailsOnly (¬·.Structural) (catalog.prepareAll conditions since collection) := by
  intro cause hcause
  rw [← errorOf?_eq_some_iff, errorOf?_prepareAll] at hcause
  obtain ⟨node, -, hunknown⟩ := List.exists_of_findSome?_eq_some hcause
  unfold unknownType? at hunknown
  split at hunknown
  · split at hunknown
    · cases hunknown
    · cases hunknown
      rintro ⟨⟩
  · cases hunknown

/-- The check of the depth refuses the depth only. -/
private theorem Settings.failsOnly_checkDepth (settings : Settings) (conditions : List Condition) :
    FailsOnly (¬·.Structural) (settings.checkDepth conditions) := by
  intro cause hcause
  rw [← errorOf?_eq_some_iff, errorOf?_checkDepth] at hcause
  split at hcause
  · cases hcause
    rintro ⟨⟩
  · cases hcause

/-- The check of an action refuses no shape. -/
private theorem Rule.failsOnly_checkAction (rule : Rule) (registry : Registry) (seen : List String)
    (action : Action) : FailsOnly (¬·.Structural) (rule.checkAction registry seen action) := by
  have htype : FailsOnly (¬·.Structural) (registry.catalog.actionType action.typeKey) := by
    intro cause hcause
    unfold Catalog.actionType at hcause
    split at hcause
    · cases hcause
    · cases hcause
      rintro ⟨⟩
  unfold checkAction
  split
  · rintro _ ⟨⟩ ⟨⟩
  · refine htype.bind fun type => (type.failsOnly_check _).bind fun _ => ?_
    split
    · rintro _ ⟨⟩ ⟨⟩
    · exact failsOnly_ok _

/-- The checks of the actions, one after the other, refuse no shape. -/
private theorem Rule.failsOnly_checkActions (rule : Rule) (registry : Registry) (seen : List String)
    (actions : List Action) :
    FailsOnly (¬·.Structural) (rule.checkActions registry seen actions) := by
  induction actions generalizing seen with
  | nil => exact failsOnly_ok _
  | cons action rest ih =>
    exact (rule.failsOnly_checkAction registry seen action).bind fun _ => ih _

/-- A rule that is built as a text writes it is not refused for its build. -/
theorem Rule.WellBuilt.failsOnly_validate {rule : Rule} (h : rule.WellBuilt)
    (registry : Registry) : FailsOnly (¬·.Structural) (rule.validate registry) := by
  have hactions : rule.actions.isEmpty = false := by simpa using h.actions_ne_nil
  unfold validate
  refine (registry.settings.failsOnly_checkDepth _).bind fun _ =>
    (Catalog.failsOnly_combined h.nodes _).bind fun _ => ?_
  simp only [hactions, Bool.false_eq_true, if_false]
  exact rule.failsOnly_checkActions registry [] rule.actions

/-- No shape of a well-built rule is refused when it is evaluated. -/
private theorem Rule.WellBuilt.failsOnly_evaluateFrom {rule : Rule} (h : rule.WellBuilt)
    (registry : Registry) (collection : Collection) : FailsOnly (¬·.Structural)
      (registry.evaluateFrom collection rule.conditions rule.effectiveDate) :=
  (registry.settings.failsOnly_checkDepth _).bind fun _ =>
    (Catalog.failsOnly_prepareAll _ _ _).bind fun _ =>
      (Catalog.failsOnly_combined h.nodes _).bind fun _ => failsOnly_ok _

end Refusals

namespace RuleText

/-- **Rules from a text.** Every rule that is read from a text has a name, actions and at most one
condition; a connective in it joins two conditions or more, an operator is one of the closed set,
and every key is an identifier. So no registry refuses the rule for its build, neither when it is
checked nor when its conditions are evaluated. -/
theorem parse_wellBuilt (text : String) (found : List Rule) (h : parse text = .ok found) :
    ∀ rule ∈ found, rule.WellBuilt ∧ ∀ registry : Registry,
      (∀ cause, rule.validate registry = .error cause → ¬cause.Structural) ∧
      ∀ collection cause, registry.evaluateFrom collection rule.conditions rule.effectiveDate =
        .error cause → ¬cause.Structural := by
  intro rule hrule
  have hbuilt := wellBuilt_of_parse h rule hrule
  exact ⟨hbuilt, fun registry => ⟨hbuilt.failsOnly_validate registry,
    fun collection => hbuilt.failsOnly_evaluateFrom registry collection⟩⟩

/-- Parentheses around single conditions leave no node of their own, and an unknown type is found
when the rule is checked. -/
theorem parse_wellBuilt_nested :
    let text := "rule r: when (a = 1) and (b = 2 or ((c like \"x\"))) then tag 1"
    let rule := ruleOf "r" [] [.compound "and" [.leaf "a" "=" (.int 1), .compound "or"
      [.leaf "b" "=" (.int 2), .leaf "c" "like" (.text "x")]]] [⟨"tag", .int 1⟩]
    let registry : Registry := ⟨Transaction.catalog {}, ⟨"transactions", 1, [], []⟩, none, {}⟩
    parse text = .ok [rule] ∧ rule.WellBuilt ∧
      rule.validate registry = .error (.unsupportedConditionType "a") ∧
      ¬(RuleError.unsupportedConditionType "a").Structural := by
  intro text rule registry
  have hread : parse text = .ok [rule] := by cbv
  obtain ⟨hbuilt, hrefused⟩ := parse_wellBuilt text [rule] hread rule (List.mem_singleton_self _)
  have hvalidate : rule.validate registry = .error (.unsupportedConditionType "a") := rfl
  exact ⟨hread, hbuilt, hvalidate, (hrefused registry).1 _ hvalidate⟩

end RuleText

end Bookkeeping
