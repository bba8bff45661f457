import Bookkeeping.Proofs.Condition.Flattening
import Bookkeeping.Proofs.Json.RoundTrip
import Bookkeeping.Proofs.Rule.Reapplication

/-!
# What a rule that is read back means

A document keeps a day among the values as its text. What reads days reads the day again from that
text, what reads texts takes the text for the day as well, and neither the day nor its text is a
number. So a rule that has come back from its document is checked as before, matches the same
records and writes the same values; only a provider is handed the text where it was handed the day.
-/

namespace Bookkeeping

open Bookkeeping.Text (isBlankText)

/-- Two rules mean the same under every registry. -/
structure Rule.MeansSame (rule other : Rule) : Prop where
  /-- Both are valid, or neither is. -/
  validated (registry : Registry) :
    other.validate registry = .ok () ↔ rule.validate registry = .ok ()
  /-- Both match the same records, or neither can be evaluated. -/
  matching (registry : Registry) (collection : Collection) :
    other.matching registry = .ok collection ↔ rule.matching registry = .ok collection
  /-- Unless a provider is asked, applying them, in whatever state, gives the same report, or none,
  and leaves the same state behind. -/
  applied (registry : Registry) (hsets : ∀ action ∈ rule.actions, action.SetsIn registry.catalog)
      (ignoreLocks : Bool) (outage : Outage) (world : World) :
    ((other.applyWith registry ignoreLocks).run outage world).1.toOption =
        ((rule.applyWith registry ignoreLocks).run outage world).1.toOption ∧
      ((other.applyWith registry ignoreLocks).run outage world).2 =
        ((rule.applyWith registry ignoreLocks).run outage world).2

namespace Value

@[simp]
private theorem text?_undated (value : Value) : value.undated.text? = value.text? := by
  cases value <;> rfl

@[simp]
private theorem number?_undated (value : Value) (kind : NumberKind) :
    value.undated.number? kind = value.number? kind := by
  cases value with
  | date d =>
    simp only [undated, number?, d.trim_text, d.readInt64?_text, d.readBinary64?_text,
      Option.bind_none]
  | _ => rfl

@[simp]
private theorem date?_undated (value : Value) : value.undated.date? = value.date? := by
  cases value with
  | date d => simp only [undated, date?, d.trim_text, Date.read?_text]
  | _ => rfl

end Value

/-- A value is read alike before and after, as whatever kind it is asked for. -/
theorem ConditionKind.read?_undated (kind : ConditionKind) (value : Value) :
    kind.read? value.undated = kind.read? value := by
  cases kind <;> simp [read?]

/-- A leaf has the same predicate before and after. Where it has none, the refusals may show the
value with or without quotes. -/
theorem ConditionType.toOption_build_undated (type : ConditionType) (operator : String)
    (value : Value) :
    (type.build operator value.undated).toOption = (type.build operator value).toOption := by
  rw [build, build, ConditionKind.read?_undated]
  cases type.operator? operator with
  | none => rfl
  | some op =>
    cases type.kind.read? value with
    | none => rfl
    | some read =>
      cases hoffers : type.offers read <;> simp [hoffers, Except.toOption]

namespace Condition

private theorem forestDepth_undatedForest (forest : List Condition) :
    forestDepth (undatedForest forest) = forestDepth forest := by
  induction forest using forest_induction with
  | nil => rw [undatedForest]
  | cons condition rest hbelow hrest =>
    rw [undatedForest, forestDepth, forestDepth, hrest]
    cases condition with
    | leaf typeKey operator value => rw [undated, depth, depth]
    | compound operator children =>
      rw [undated, depth, depth]
      exact congrArg (fun below => max (1 + below) (forestDepth rest)) hbelow

end Condition

namespace Catalog

open Condition (undated undatedForest)

variable {catalog : Catalog}

private theorem connective_undatedForest (operator : String) (children : List Condition) :
    connective operator (undatedForest children) = connective operator children := by
  rw [Condition.undatedForest_eq_map, connective, connective, List.length_map, List.isEmpty_map]

/-- The conditions of a forest have the same predicates before and after. -/
theorem toOption_predicates_undatedForest (forest : List Condition) :
    (catalog.predicates (undatedForest forest)).toOption =
      (catalog.predicates forest).toOption := by
  induction forest using Condition.forest_induction with
  | nil => rw [undatedForest]
  | cons condition rest hbelow hrest =>
    rw [undatedForest, predicates, predicates]
    refine toOption_bind_congr ?_ fun first => toOption_bind_congr hrest fun others => rfl
    cases condition with
    | leaf typeKey operator value =>
      rw [undated, predicate, predicate]
      exact toOption_bind_congr rfl fun type => type.toOption_build_undated operator value
    | compound operator children =>
      rw [undated, predicate, predicate, connective_undatedForest]
      exact toOption_bind_congr rfl fun op => toOption_bind_congr hbelow fun parts => rfl

private theorem toOption_combined_undatedForest (forest : List Condition) (since : Option Date) :
    (catalog.combined (undatedForest forest) since).toOption =
      (catalog.combined forest since).toOption := by
  rw [combined, combined]
  exact toOption_bind_congr (toOption_predicates_undatedForest forest) fun parts => rfl

/-- The tables that a forest needs depend on the types of its leaves alone. -/
theorem prepareForest_undatedForest (forest : List Condition) (collection : Collection) :
    catalog.prepareForest (undatedForest forest) collection =
      catalog.prepareForest forest collection := by
  induction forest using Condition.forest_induction generalizing collection with
  | nil => rw [undatedForest]
  | cons condition rest hbelow hrest =>
    have hfirst : catalog.prepare condition.undated collection =
        catalog.prepare condition collection := by
      cases condition with
      | leaf typeKey operator value => rw [undated, prepare, prepare]
      | compound operator children =>
        rw [undated, prepare, prepare]
        exact hbelow collection
    rw [undatedForest, prepareForest, prepareForest, hfirst]
    exact bind_congr hrest

end Catalog

private theorem Settings.checkDepth_undatedForest (settings : Settings) (forest : List Condition) :
    settings.checkDepth (Condition.undatedForest forest) = settings.checkDepth forest := by
  rw [checkDepth, checkDepth, Condition.forestDepth_undatedForest]

/-- A forest is evaluated alike before and after. -/
theorem Registry.toOption_evaluateFrom_undatedForest (registry : Registry)
    (collection : Collection) (forest : List Condition) (since : Option Date) :
    (registry.evaluateFrom collection (Condition.undatedForest forest) since).toOption =
      (registry.evaluateFrom collection forest since).toOption := by
  have hprepare : registry.catalog.prepareAll (Condition.undatedForest forest) since collection =
      registry.catalog.prepareAll forest since collection := by
    rw [Catalog.prepareAll, Catalog.prepareAll, Catalog.prepareForest_undatedForest]
  rw [evaluateFrom, evaluateFrom, Settings.checkDepth_undatedForest, hprepare]
  refine toOption_bind_congr rfl fun _ => toOption_bind_congr rfl fun prepared => ?_
  exact toOption_bind_congr (Catalog.toOption_combined_undatedForest forest since) fun p => rfl

/-- What is written for a value of the rule's own is the same before and after. -/
theorem ActionType.toOption_check_undated {type : ActionType} (heffect : type.effect ≠ .enrich)
    (value : Value) :
    (type.check value.undated).toOption = (type.check value).toOption := by
  cases htype : type.effect with
  | assign =>
    simp only [check, htype, Value.text?_undated]
    cases value.text? with
    | none => rfl
    | some text => cases hoffered : SelectOption.offered (type.options.getD []) text <;>
        simp [hoffered, Except.toOption]
  | setText =>
    simp only [check, htype, Value.text?_undated]
    cases value.text? with
    | none => rfl
    | some text => cases hblank : isBlankText text <;> simp [hblank, Except.toOption]
  | enrich => exact absurd htype heffect

namespace Rule

variable {registry : Registry} {rule : Rule}

/-- An action is let through before and after, or refused. -/
theorem toOption_checkAction_undated (rule : Rule) (seen : List String) (action : Action) :
    (rule.undated.checkAction registry seen action.undated).toOption =
      (rule.checkAction registry seen action).toOption := by
  rw [checkAction, checkAction]
  by_cases hseen : action.typeKey ∈ seen
  · simp [Action.undated, hseen, Except.toOption]
  · simp only [Action.undated, hseen, if_false]
    refine toOption_bind_congr rfl fun type => ?_
    by_cases heffect : type.effect = .enrich
    · simp only [ActionType.check, heffect, ok_bind]
    · exact toOption_bind_congr (ActionType.toOption_check_undated heffect action.value)
        fun value => rfl

private theorem toOption_checkActions_undated (rule : Rule) (seen : List String)
    (actions : List Action) :
    (rule.undated.checkActions registry seen (actions.map Action.undated)).toOption =
      (rule.checkActions registry seen actions).toOption := by
  induction actions generalizing seen with
  | nil => rfl
  | cons action rest ih =>
    rw [List.map_cons, checkActions, checkActions]
    exact toOption_bind_congr (rule.toOption_checkAction_undated seen action) fun _ => ih _

private theorem toOption_validate_undated (rule : Rule) (registry : Registry) :
    (rule.undated.validate registry).toOption = (rule.validate registry).toOption := by
  have hdepth : registry.settings.checkDepth rule.undated.conditions =
      registry.settings.checkDepth rule.conditions :=
    registry.settings.checkDepth_undatedForest rule.conditions
  have hempty : rule.undated.actions.isEmpty = rule.actions.isEmpty := List.isEmpty_map
  rw [validate, validate, hdepth, hempty]
  refine toOption_bind_congr rfl fun _ => toOption_bind_congr
    (Catalog.toOption_combined_undatedForest rule.conditions rule.effectiveDate) fun p => ?_
  cases rule.actions.isEmpty with
  | true => rfl
  | false => exact rule.toOption_checkActions_undated [] rule.actions

private theorem toOption_matching_undated (rule : Rule) (registry : Registry) :
    (rule.undated.matching registry).toOption = (rule.matching registry).toOption :=
  registry.toOption_evaluateFrom_undatedForest registry.base rule.conditions rule.effectiveDate

end Rule

section Applying

variable {registry : Registry} {rule : Rule} {ignoreLocks : Bool}

/-- A permitted action that asks no provider is the same work before and after. -/
theorem Registry.Permits.execute_undated {action : Action} (h : registry.Permits action)
    (hsets : action.SetsIn registry.catalog) (collection : Collection) (ignoreLocks : Bool) :
    registry.execute action.undated collection ignoreLocks =
      registry.execute action collection ignoreLocks := by
  obtain ⟨type, value, htype, hvalue, -⟩ := h
  have hundated : type.check action.value.undated = .ok value :=
    (eq_ok_iff_of_toOption_eq (ActionType.toOption_check_undated (hsets type htype) _)).2 hvalue
  simp only [execute, Action.undated, htype, hvalue, hundated, Job.ofRule_ok_bind]

private theorem Registry.executeAll_undated {actions : List Action}
    (hpermits : ∀ action ∈ actions, registry.Permits action)
    (hsets : ∀ action ∈ actions, action.SetsIn registry.catalog) (collection : Collection) :
    registry.executeAll collection ignoreLocks (actions.map Action.undated) =
      registry.executeAll collection ignoreLocks actions := by
  induction actions with
  | nil => rfl
  | cons action rest ih =>
    obtain ⟨haction, hrest⟩ := List.forall_mem_cons.1 hpermits
    obtain ⟨hset, hothers⟩ := List.forall_mem_cons.1 hsets
    rw [List.map_cons, executeAll, executeAll, haction.execute_undated hset, ih hrest hothers]
    rfl

namespace Rule

/-- A valid rule that asks no provider is the same work before and after. -/
theorem applyWith_undated (h : rule.validate registry = .ok ())
    (hsets : ∀ action ∈ rule.actions, action.SetsIn registry.catalog) :
    rule.undated.applyWith registry ignoreLocks = rule.applyWith registry ignoreLocks := by
  have hvalid := valid_of_validate h
  obtain ⟨collection, hmatching⟩ := hvalid.exists_matching
  have hundated : rule.undated.validate registry = .ok () :=
    (eq_ok_iff_of_toOption_eq (rule.toOption_validate_undated registry)).2 h
  have hmatchingUndated : rule.undated.matching registry = .ok collection :=
    (eq_ok_iff_of_toOption_eq (rule.toOption_matching_undated registry)).2 hmatching
  have hexecute (pinned : Collection) :
      registry.executeAll pinned ignoreLocks rule.undated.actions =
        registry.executeAll pinned ignoreLocks rule.actions :=
    Registry.executeAll_undated hvalid.permitted hsets pinned
  simp only [applyWith, h, hundated, hmatching, hmatchingUndated, hexecute, Job.ofRule_ok_bind]
  rfl

/-- What is not valid is refused before anything is done. -/
theorem exists_run_applyWith_of_invalid (h : rule.validate registry ≠ .ok ()) (ignoreLocks : Bool)
    (outage : Outage) (world : World) :
    ∃ cause, (rule.applyWith registry ignoreLocks).run outage world =
      (.error (.rule cause), world) := by
  cases hvalidate : rule.validate registry with
  | ok => exact absurd hvalidate h
  | error cause =>
    refine ⟨cause, ?_⟩
    rw [applyWith, hvalidate]
    rfl

private theorem meansSame_undated (rule : Rule) : rule.MeansSame rule.undated where
  validated registry := eq_ok_iff_of_toOption_eq (rule.toOption_validate_undated registry)
  matching registry collection := eq_ok_iff_of_toOption_eq (rule.toOption_matching_undated registry)
  applied registry hsets ignoreLocks outage world := by
    by_cases h : rule.validate registry = .ok ()
    · rw [applyWith_undated h hsets]
      exact ⟨rfl, rfl⟩
    · have hundated : rule.undated.validate registry ≠ .ok () :=
        mt (eq_ok_iff_of_toOption_eq (rule.toOption_validate_undated registry)).1 h
      obtain ⟨cause, hrun⟩ := exists_run_applyWith_of_invalid h ignoreLocks outage world
      obtain ⟨otherCause, hother⟩ :=
        exists_run_applyWith_of_invalid hundated ignoreLocks outage world
      rw [hrun, hother]
      exact ⟨rfl, rfl⟩

/-- **Meaning.** A rule without decimals among its values comes back from its document as a rule
that means the same, although days among the values have become text. -/
theorem ofJson?_toJson_means {rule : Rule} (h : ∀ value ∈ rule.values, ¬value.IsDecimal) :
    ∃ back, ofJson? rule.toJson = some back ∧ rule.MeansSame back :=
  ⟨rule.undated, ofJson?_toJson h, rule.meansSame_undated⟩

end Rule

end Applying

namespace Sample

/-- One transaction, on the leap day and named by it. -/
def leapStore : Store :=
  Transaction.emptyStore.insert 1
    [(Transaction.name, .text "2024-02-29"), (Transaction.date, .date leapDay)]

/-- The registry of the transaction. -/
def leapRegistry : Registry :=
  Transaction.registry leapStore 1 {} none {}

end Sample

/-- Named by the day itself the rule comes back changed, and still it is valid, finds the
transaction that the text of the day names, and writes to it. -/
theorem Rule.ofJson?_toJson_means_rent :
    let rule := Sample.rent (.date Sample.leapDay)
    ∃ back, Rule.ofJson? rule.toJson = some back ∧ back ≠ rule ∧
      back.validate Sample.leapRegistry = .ok () ∧
      ((back.applyWith Sample.leapRegistry false).run .none
        { store := Sample.leapStore }).1.toOption =
          some ⟨"Rent", 1, [⟨"set_transaction_name", 1⟩]⟩ := by
  intro rule
  have hvalues : rule.values = [.date Sample.leapDay, .int 700, .text "Rent"] := rfl
  have hexact : ∀ value ∈ rule.values, ¬value.IsDecimal := by
    simp [hvalues, Value.IsDecimal]
  have hsets : ∀ action ∈ rule.actions, action.SetsIn Sample.leapRegistry.catalog := by
    intro action haction
    obtain rfl := List.mem_singleton.1 haction
    exact Transaction.setsIn_catalog (by decide : "set_".toList <+: "set_transaction_name".toList)
  obtain ⟨back, hread, hmeans⟩ := Rule.ofJson?_toJson_means hexact
  refine ⟨back, hread, ?_, (hmeans.validated _).2 rfl, ?_⟩
  · obtain rfl := Option.some.inj ((Rule.ofJson?_toJson hexact).symm.trans hread)
    exact fun hsame => Rule.undated_eq_iff.1 hsame _ (List.mem_cons_self ..) ⟨Sample.leapDay, rfl⟩
  · rw [(hmeans.applied _ hsets false .none _).1]
    rfl

end Bookkeeping
