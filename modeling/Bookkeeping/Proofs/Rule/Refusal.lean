import Bookkeeping.Proofs.Condition.Admission
import Bookkeeping.Proofs.Job.Failure
import Bookkeeping.Proofs.Rule.Application

/-!
# Rules that are refused

A rule is checked once, before anything is read. What the check lets through is evaluated and
performed without another fault of the rule coming up: each type is found again, each value fits
again, whatever has been written in between. So a rule is refused by its check or not at all, and a
refused rule has done nothing.
-/

namespace Bookkeeping

/-- The action has a type, its value fits, and there is a provider if it needs one. -/
def Registry.Permits (registry : Registry) (action : Action) : Prop :=
  ∃ type value, registry.catalog.actionType action.typeKey = .ok type ∧
    type.check action.value = .ok value ∧
    (type.effect = .enrich → ∃ provider, registry.provider = some provider)

namespace Rule

variable {rule : Rule} {registry : Registry}

/-- An action is let through when it is permitted and no earlier one is of its type. -/
theorem checkAction_eq_ok_iff {seen : List String} {action : Action} :
    rule.checkAction registry seen action = .ok () ↔
      action.typeKey ∉ seen ∧ registry.Permits action := by
  unfold checkAction Registry.Permits
  by_cases hseen : action.typeKey ∈ seen
  · simp [hseen]
  · simp only [hseen, if_false, not_false_eq_true, true_and, bind_eq_ok_iff]
    refine exists_congr fun type => ?_
    rw [← exists_and_left]
    refine exists_congr fun value => and_congr_right fun _ => and_congr_right fun _ => ?_
    cases registry.provider with
    | none =>
      by_cases heffect : type.effect = .enrich
      · simp [heffect]
      · simp [heffect, pure, Except.pure]
    | some provider => simp [pure, Except.pure]

/-- Actions are let through when each is permitted and no two are of one type. -/
theorem checkActions_eq_ok_iff {seen : List String} {actions : List Action} :
    rule.checkActions registry seen actions = .ok () ↔
      (∀ action ∈ actions, action.typeKey ∉ seen ∧ registry.Permits action) ∧
        (actions.map Action.typeKey).Nodup := by
  induction actions generalizing seen with
  | nil => simp [checkActions]
  | cons action rest ih =>
    have hsplit : rule.checkActions registry seen (action :: rest) = .ok () ↔
        rule.checkAction registry seen action = .ok () ∧
          rule.checkActions registry (action.typeKey :: seen) rest = .ok () := by
      rw [checkActions, bind_eq_ok_iff]
      constructor
      · rintro ⟨_, hfirst, hrest⟩
        exact ⟨hfirst, hrest⟩
      · rintro ⟨hfirst, hrest⟩
        exact ⟨(), hfirst, hrest⟩
    rw [hsplit, checkAction_eq_ok_iff, ih, List.forall_mem_cons, List.map_cons, List.nodup_cons,
      List.mem_map]
    simp only [List.mem_cons, not_or]
    constructor
    · rintro ⟨haction, hrest, hnodup⟩
      refine ⟨⟨haction, fun other hother => ⟨(hrest other hother).1.2, (hrest other hother).2⟩⟩,
        ?_, hnodup⟩
      rintro ⟨other, hother, hsame⟩
      exact (hrest other hother).1.1 hsame
    · rintro ⟨⟨haction, hrest⟩, hnew, hnodup⟩
      refine ⟨haction, fun other hother => ⟨⟨?_, (hrest other hother).1⟩,
        (hrest other hother).2⟩, hnodup⟩
      exact fun hsame => hnew ⟨other, hother, hsame⟩

/-- What the check of a rule finds in order. -/
structure Valid (rule : Rule) (registry : Registry) : Prop where
  depth : registry.settings.checkDepth rule.conditions = .ok ()
  combined : ∃ p, registry.catalog.combined rule.conditions rule.effectiveDate = .ok p
  permitted : ∀ action ∈ rule.actions, registry.Permits action
  distinct : (rule.actions.map Action.typeKey).Nodup

/-- A rule that passes validation is valid. -/
theorem valid_of_validate (h : rule.validate registry = .ok ()) : rule.Valid registry := by
  simp only [validate, bind_eq_ok_iff] at h
  obtain ⟨⟨⟩, hdepth, p, hp, h⟩ := h
  by_cases hempty : rule.actions.isEmpty = true
  · simp [hempty] at h
  · simp only [hempty, if_false, Bool.false_eq_true] at h
    obtain ⟨hactions, hdistinct⟩ := checkActions_eq_ok_iff.1 h
    exact ⟨hdepth, ⟨p, hp⟩, fun action hmem => (hactions action hmem).2, hdistinct⟩

end Rule

/-- The tables that a forest needs are found if it has a predicate. -/
theorem Catalog.exists_prepareAll_of_combined {catalog : Catalog} {conditions : List Condition}
    {since : Option Date} {p : Predicate} (h : catalog.combined conditions since = .ok p)
    (collection : Collection) :
    ∃ prepared, catalog.prepareAll conditions since collection = .ok prepared := by
  obtain ⟨parts, hparts, -⟩ := combined_eq_ok_iff.1 h
  have hoffences := errorOf?_eq_none_iff.2 ⟨parts, hparts⟩
  rw [errorOf?_predicates, List.findSome?_eq_none_iff] at hoffences
  rw [← errorOf?_eq_none_iff, errorOf?_prepareAll, List.findSome?_eq_none_iff]
  exact fun node hnode => unknownType?_eq_none_of_offence? (hoffences node hnode)

/-- What a valid rule matches can be described. -/
theorem Rule.Valid.exists_matching {rule : Rule} {registry : Registry}
    (h : rule.Valid registry) : ∃ collection, rule.matching registry = .ok collection := by
  obtain ⟨p, hp⟩ := h.combined
  obtain ⟨prepared, hprepared⟩ := Catalog.exists_prepareAll_of_combined hp registry.base
  exact ⟨_, Registry.evaluateFrom_eq_ok_iff.2 ⟨h.depth, prepared, hprepared, p, hp, rfl⟩⟩

namespace Registry

variable {registry : Registry}

/-- Asking a provider is done without a fault of the rule, and for the type's own key. -/
theorem makes_enrich {type : ActionType} {provider : Provider}
    (hprovider : registry.provider = some provider) (value : Value) (target : Collection) :
    (registry.enrich type value target).Makes (·.AsksFor [type.key]) := by
  simp only [enrich, hprovider]
  refine (Job.makes_call (Call.asksFor_of_request?_eq_none rfl _)).bind fun records => ?_
  split
  · exact .done _
  · refine (Job.makes_call ?_).bind fun suggestions => ?_
    · rintro request ⟨⟩
      exact List.mem_singleton_self _
    · split
      · exact .done _
      · exact Job.makes_call (Call.asksFor_of_request?_eq_none rfl _)

/-- A permitted action is performed without a fault of the rule, on any collection. -/
theorem Permits.makes_execute {action : Action} (h : registry.Permits action)
    (collection : Collection) (ignoreLocks : Bool) :
    (registry.execute action collection ignoreLocks).Makes (·.AsksFor [action.typeKey]) := by
  obtain ⟨type, value, htype, hvalue, hprovider⟩ := h
  have hwrites (target : Collection) :
      (Job.call (.updateAll target type.column value registry.settings.source)).Makes
        (·.AsksFor [action.typeKey]) :=
    Job.makes_call (Call.asksFor_of_request?_eq_none rfl _)
  simp only [execute, htype, hvalue, Job.ofRule_ok_bind]
  cases heffect : type.effect with
  | assign => exact hwrites _
  | setText => exact hwrites _
  | enrich =>
    obtain ⟨provider, hprovider⟩ := hprovider heffect
    rw [← (Catalog.mem_actions_of_actionType htype).2]
    exact makes_enrich hprovider value _

/-- Permitted actions ask a provider for nothing but their own types. -/
theorem makes_executeAll {actions : List Action}
    (h : ∀ action ∈ actions, registry.Permits action) (collection : Collection)
    (ignoreLocks : Bool) :
    (registry.executeAll collection ignoreLocks actions).Makes
      (·.AsksFor (actions.map Action.typeKey)) := by
  induction actions with
  | nil => exact .done _
  | cons action rest ih =>
    obtain ⟨haction, hrest⟩ := List.forall_mem_cons.1 h
    refine ((haction.makes_execute collection ignoreLocks).mono fun call hcall => ?_).bind
      fun written => ?_
    · exact hcall.mono (by simp)
    · refine ((ih hrest).mono fun call hcall => ?_).bind fun others => .done _
      exact hcall.mono (by simp)

end Registry

namespace Rule

variable {rule : Rule} {registry : Registry}

/-- Applying a rule that its check lets through is done without a fault of the rule. -/
theorem makes_applyWith (h : rule.validate registry = .ok ()) (ignoreLocks : Bool) :
    (rule.applyWith registry ignoreLocks).Makes (·.AsksFor (rule.actions.map Action.typeKey)) := by
  have hvalid := valid_of_validate h
  obtain ⟨collection, hmatching⟩ := hvalid.exists_matching
  simp only [applyWith, h, hmatching, Job.ofRule_ok_bind]
  refine (Job.makes_call (Call.asksFor_of_request?_eq_none rfl _)).bind fun pinned => ?_
  refine (Job.makes_call (Call.asksFor_of_request?_eq_none rfl _)).bind fun matched => ?_
  exact (Registry.makes_executeAll hvalid.permitted pinned ignoreLocks).bind fun _ => .done _

/-- **Refusals.** Applying a rule is refused exactly when its check refuses the rule, for the same
cause, and leaves everything as it was: the records, the locks, the log, and the provider unasked.
Once the check lets the rule through, its conditions are evaluated, and its actions, performed in
any state of the store, fail only as a call fails. -/
theorem applyWith_refused_iff (rule : Rule) (registry : Registry) (ignoreLocks : Bool)
    (outage : Outage) (world : World) :
    (∀ fault after, (rule.applyWith registry ignoreLocks).run outage world =
        (.error (.rule fault), after) ↔ rule.validate registry = .error fault ∧ after = world) ∧
    (rule.validate registry = .ok () →
      (∃ collection, rule.matching registry = .ok collection) ∧
      ∀ action ∈ rule.actions, ∀ collection ignoreLocks outage world fault,
        ((registry.execute action collection ignoreLocks).run outage world).1 ≠
          .error (.rule fault)) := by
  constructor
  · intro fault after
    cases hvalidate : rule.validate registry with
    | error cause =>
      have hrun : (rule.applyWith registry ignoreLocks).run outage world =
          (.error (.rule cause), world) := by
        rw [applyWith, hvalidate]
        rfl
      simp [hrun, eq_comm]
    | ok =>
      have hmakes := makes_applyWith hvalidate ignoreLocks
      constructor
      · intro h
        exact absurd (congrArg Prod.fst h) (hmakes.run_ne_refusal outage world fault)
      · rintro ⟨⟨⟩, -⟩
  · intro hvalidate
    have hvalid := valid_of_validate hvalidate
    refine ⟨hvalid.exists_matching, fun action haction collection ignoreLocks outage world => ?_⟩
    exact ((hvalid.permitted action haction).makes_execute collection ignoreLocks).run_ne_refusal
      outage world

/-- The sample rule is let through. With a blank name for a third action it is refused, though the
two before it could be performed. -/
theorem applyWith_refused_iff_meals :
    let blank := Sample.meals.addAction ⟨"set_transaction_name", .text " "⟩
    let fault := RuleError.invalidActionValue "set_transaction_name" "\" \""
      "expected non-blank text"
    Sample.meals.validate Sample.registry = .ok () ∧
      (∃ collection, Sample.meals.matching Sample.registry = .ok collection) ∧
      (∀ action ∈ Sample.meals.actions, ∀ collection ignoreLocks outage world fault,
        ((Sample.registry.execute action collection ignoreLocks).run outage world).1 ≠
          .error (.rule fault)) ∧
      blank.validate Sample.registry = .error fault ∧
      (blank.applyWith Sample.registry false).run .none { store := Sample.ledger } =
        (.error (.rule fault), { store := Sample.ledger }) := by
  intro blank fault
  obtain ⟨hmatching, hactions⟩ := (applyWith_refused_iff Sample.meals Sample.registry false .none
    { store := Sample.ledger }).2 rfl
  have hblank : blank.validate Sample.registry = .error fault := rfl
  exact ⟨rfl, hmatching, hactions, hblank,
    ((applyWith_refused_iff blank Sample.registry false .none _).1 _ _).2 ⟨hblank, rfl⟩⟩

end Rule

end Bookkeeping
