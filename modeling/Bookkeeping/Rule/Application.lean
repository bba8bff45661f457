import Bookkeeping.Job.World
import Bookkeeping.Rule.Report
import Bookkeeping.Rule.Validity

/-!
# Applying rules

Applying a rule checks it, fixes the set of records that it matches, and then performs its
actions in order on that set, whatever they write. Locked columns are left alone unless locks
are to be ignored, and locks are looked at again with every write.

A batch applies the active rules in order. Under the default settings it passes over a rule
that fails; the writes that the rule had made stay.
-/

namespace Bookkeeping

namespace Registry

/-- The suggestions that the action type accepts, as writes. -/
def acceptedWrites (type : ActionType) (suggestions : List Suggestion) : List (Nat × Value) :=
  (suggestions.filter (type.accepts ·.value)).map fun suggestion =>
    (suggestion.record, suggestion.value)

/-- Asks the provider for the records of the target and writes what the type accepts. The
provider is not asked about no records, and the store not called for no writes. -/
def enrich (registry : Registry) (type : ActionType) (directive : Value) (target : Collection) :
    Job Nat :=
  match registry.provider with
  | none => .fail (.rule (.enrichmentUnavailable type.key))
  | some provider => do
    let records ← Job.call (.records target)
    if records.isEmpty then
      return 0
    let suggestions ← Job.call <|
      .suggest provider ⟨type.key, type.column, directive, records, type.options⟩
    let writes := acceptedWrites type suggestions
    if writes.isEmpty then
      return 0
    Job.call (.updateEach target type.column writes registry.settings.source)

/-- The records of a collection that an action may write. -/
def target (type : ActionType) (collection : Collection) (ignoreLocks : Bool) : Collection :=
  if ignoreLocks then collection else collection.enrichable type.column

/-- Performs an action on a collection and gives the number of records written. -/
def execute (registry : Registry) (action : Action) (collection : Collection)
    (ignoreLocks : Bool) : Job Nat := do
  let type ← Job.ofRule (registry.catalog.actionType action.typeKey)
  let value ← Job.ofRule (type.check action.value)
  let target := target type collection ignoreLocks
  match type.effect with
  | .assign => Job.call (.updateAll target type.column value registry.settings.source)
  | .setText => Job.call (.updateAll target type.column value registry.settings.source)
  | .enrich => registry.enrich type value target

/-- Performs actions one after another on a collection. -/
def executeAll (registry : Registry) (collection : Collection) (ignoreLocks : Bool) :
    List Action → Job (List ActionOutcome)
  | [] => pure []
  | action :: rest => do
    let written ← registry.execute action collection ignoreLocks
    let others ← registry.executeAll collection ignoreLocks rest
    return ⟨action.typeKey, written⟩ :: others

end Registry

namespace Rule

/-- How many records the rule would act on, locked or not. -/
def matchingCount (rule : Rule) (registry : Registry) : Job Nat := do
  let matching ← Job.ofRule (rule.matching registry)
  Job.call (.count matching)

/-- Applies the rule. -/
def applyWith (rule : Rule) (registry : Registry) (ignoreLocks : Bool) : Job Report := do
  Job.ofRule (rule.validate registry)
  let matching ← Job.ofRule (rule.matching registry)
  let pinned ← Job.call (.pin matching)
  let matched ← Job.call (.count pinned)
  let outcomes ← registry.executeAll pinned ignoreLocks rule.actions
  return ⟨rule.displayName, matched, outcomes⟩

/-- Applies the rule and leaves locked columns alone. -/
def apply (rule : Rule) (registry : Registry) : Job Report :=
  rule.applyWith registry false

end Rule

namespace Registry

/-- Goes on with a batch that has come so far. -/
def applyRest (registry : Registry) (outage : Outage) (batch : BatchReport) :
    List Rule → World → Except Failure BatchReport × World
  | [], world => (.ok batch, world)
  | rule :: rest, world =>
    if rule.active then
      match (rule.apply registry).run outage world with
      | (.ok report, after) =>
        registry.applyRest outage { batch with applied := batch.applied ++ [report] } rest after
      | (.error cause, after) =>
        if registry.settings.skipFailed then
          registry.applyRest outage
            { batch with skipped := batch.skipped ++ [⟨rule.displayName, cause⟩] } rest after
        else
          (.error cause, after)
    else
      registry.applyRest outage { batch with inactive := batch.inactive + 1 } rest world

/-- Applies every active rule in order. -/
def applyAll (registry : Registry) (outage : Outage) (rules : List Rule) (world : World) :
    Except Failure BatchReport × World :=
  registry.applyRest outage {} rules world

end Registry

end Bookkeeping
