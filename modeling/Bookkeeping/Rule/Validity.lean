import Bookkeeping.Rule.Matching

/-!
# Rules that can be saved

A rule is valid when its conditions can be evaluated and it has actions, each of another type,
whose values fit their types. All of that is checked without reading a record.
-/

namespace Bookkeeping.Rule

/-- Checks one action in view of the types of those before it. -/
def checkAction (rule : Rule) (registry : Registry) (seen : List String) (action : Action) :
    Except RuleError Unit := do
  if action.typeKey ∈ seen then
    throw (.duplicateAction rule.displayName action.typeKey)
  let type ← registry.catalog.actionType action.typeKey
  let _ ← type.check action.value
  if type.effect = .enrich ∧ registry.provider.isNone then
    throw (.enrichmentUnavailable action.typeKey)

/-- Checks actions from first to last. -/
def checkActions (rule : Rule) (registry : Registry) (seen : List String) :
    List Action → Except RuleError Unit
  | [] => .ok ()
  | action :: rest => do
    rule.checkAction registry seen action
    rule.checkActions registry (action.typeKey :: seen) rest

/-- The first cause to refuse the rule, if there is one: in its nesting, its conditions, then its
actions. -/
def validate (rule : Rule) (registry : Registry) : Except RuleError Unit := do
  registry.settings.checkDepth rule.conditions
  let _ ← registry.catalog.combined rule.conditions rule.effectiveDate
  if rule.actions.isEmpty then
    throw (.missingActions rule.displayName)
  rule.checkActions registry [] rule.actions

end Bookkeeping.Rule
